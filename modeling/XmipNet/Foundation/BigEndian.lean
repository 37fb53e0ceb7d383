import Mathlib.Algebra.Order.Ring.Nat
import Mathlib.Data.List.Induction
import Mathlib.Tactic.Ring

/-!
# Numbers as big-endian octets

A number is written as a fixed count of octets, the most significant first,
and read back by folding over them. Writing keeps the number modulo the power
of 256 that the octets hold; reading what was written gives that residue.
-/

namespace XmipNet
namespace BigEndian

/-- The `width` octets of `value`, most significant first. -/
def write : Nat → Nat → List UInt8
  | 0, _ => []
  | width + 1, value => write width (value / 256) ++ [UInt8.ofNat value]

/-- The number that `octets` hold, most significant first. -/
def read (octets : List UInt8) : Nat :=
  octets.foldl (fun value octet => value * 256 + octet.toNat) 0

@[simp] theorem length_write
    (width value : Nat) :
    (write width value).length = width := by
  induction width generalizing value with
  | zero => rfl
  | succ width inductionHypothesis =>
      simp [write, inductionHypothesis]

@[simp] theorem read_nil : read [] = 0 := rfl

@[simp] theorem read_append_singleton
    (octets : List UInt8)
    (octet : UInt8) :
    read (octets ++ [octet]) = read octets * 256 + octet.toNat := by
  simp [read]

/-- Reading what was written keeps the value modulo what the octets hold. -/
theorem read_write
    (width value : Nat) :
    read (write width value) = value % 256 ^ width := by
  induction width generalizing value with
  | zero => simp [write, Nat.mod_one]
  | succ width inductionHypothesis =>
      have residue : (UInt8.ofNat value).toNat = value % 256 :=
        UInt8.toNat_ofNat'
      rw [write, read_append_singleton, inductionHypothesis, residue,
        pow_succ', Nat.mod_mul]
      ring

/-- A value that fits its octets is read back as it was. -/
theorem read_write_of_lt
    {width value : Nat}
    (fits : value < 256 ^ width) :
    read (write width value) = value := by
  rw [read_write, Nat.mod_eq_of_lt fits]

/-- The number that octets hold fits them. -/
theorem read_lt (octets : List UInt8) :
    read octets < 256 ^ octets.length := by
  induction octets using List.reverseRecOn with
  | nil => exact Nat.one_pos
  | append_singleton octets octet inductionHypothesis =>
      have last := octet.toNat_lt
      rw [read_append_singleton, List.length_append, List.length_singleton,
        pow_succ]
      omega

/-- Writing the number that octets hold gives the octets. -/
theorem write_read (octets : List UInt8) :
    write octets.length (read octets) = octets := by
  induction octets using List.reverseRecOn with
  | nil => rfl
  | append_singleton octets octet inductionHypothesis =>
      have last := octet.toNat_lt
      have front : (read octets * 256 + octet.toNat) / 256 = read octets := by
        omega
      have same : UInt8.ofNat (read octets * 256 + octet.toNat) = octet := by
        apply UInt8.toNat_inj.mp
        rw [UInt8.toNat_ofNat']
        omega
      rw [read_append_singleton, List.length_append, List.length_singleton,
        write, front, inductionHypothesis, same]

end BigEndian
end XmipNet

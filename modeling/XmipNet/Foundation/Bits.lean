import Mathlib.Algebra.Order.Ring.Nat
import Mathlib.Data.List.Basic

/-!
# The low bits of a number, most significant first

Packing codes into octets shifts them through a word; these lemmas say what the
low bits of the word are after each shift, as lists that concatenate.
-/

namespace XmipNet
namespace Bits

/-- The low `count` bits of `number`, most significant first. -/
def low (number : Nat) : Nat → List Bool
  | 0 => []
  | count + 1 => number.testBit count :: low number count

@[simp] theorem length_low
    (number count : Nat) :
    (low number count).length = count := by
  induction count with
  | zero => rfl
  | succ count inductionHypothesis => simp [low, inductionHypothesis]

/-- Numbers that agree on their low bits have the same list of them. -/
theorem low_congr
    {left right count : Nat}
    (agree : ∀ index < count, left.testBit index = right.testBit index) :
    low left count = low right count := by
  induction count with
  | zero => rfl
  | succ count inductionHypothesis =>
      rw [low, low, agree count (Nat.lt_succ_self count),
        inductionHypothesis fun index below => agree index (by omega)]

/-- The low bits of a number split at any place. -/
theorem low_append
    (number high rest : Nat) :
    low (number >>> rest) high ++ low number rest =
      low number (high + rest) := by
  induction high with
  | zero => simp [low]
  | succ high inductionHypothesis =>
      rw [show high + 1 + rest = high + rest + 1 by omega, low, low,
        Nat.testBit_shiftRight, List.cons_append, inductionHypothesis,
        Nat.add_comm rest high]

/-- Bits past a modulus do not show in the low ones. -/
theorem low_mod
    (number : Nat)
    {count width : Nat}
    (within : count ≤ width) :
    low (number % 2 ^ width) count = low number count := by
  apply low_congr
  intro index below
  rw [Nat.testBit_mod_two_pow]
  simp [show index < width by omega]

/-- Shifting a code in behind a number appends its bits. -/
theorem low_shiftLeft_or
    (number count : Nat)
    {code bits : Nat}
    (fits : code < 2 ^ bits) :
    low (number <<< bits ||| code) (count + bits) =
      low number count ++ low code bits := by
  have codeHigh : code >>> bits = 0 := by
    rw [Nat.shiftRight_eq_div_pow, Nat.div_eq_of_lt fits]
  have above : (number <<< bits ||| code) >>> bits = number := by
    rw [Nat.shiftRight_or_distrib, codeHigh, Nat.or_zero,
      Nat.shiftLeft_shiftRight]
  rw [← low_append, above]
  congr 1
  apply low_congr
  intro index below
  have lower : ¬index ≥ bits := by omega
  simp [Nat.testBit_or, Nat.testBit_shiftLeft, lower]

/-- A number is given by the low bits it fits in. -/
theorem low_injective
    {left right count : Nat}
    (leftFits : left < 2 ^ count)
    (rightFits : right < 2 ^ count)
    (equal : low left count = low right count) :
    left = right := by
  have agree : ∀ index < count,
      left.testBit index = right.testBit index := by
    clear leftFits rightFits
    induction count with
    | zero => intro index below; omega
    | succ count inductionHypothesis =>
        intro index below
        rw [low, low] at equal
        injection equal with top rest
        rcases Nat.lt_succ_iff_lt_or_eq.mp below with lower | rfl
        · exact inductionHypothesis rest index lower
        · exact top
  apply Nat.eq_of_testBit_eq
  intro index
  by_cases below : index < count
  · exact agree index below
  · have power : 2 ^ count ≤ 2 ^ index :=
      Nat.pow_le_pow_right (by decide) (by omega)
    rw [Nat.testBit_lt_two_pow (by omega), Nat.testBit_lt_two_pow (by omega)]

theorem shiftRight_lt
    {number count width : Nat}
    (fits : number < 2 ^ width)
    (within : count ≤ width) :
    number >>> (width - count) < 2 ^ count := by
  rw [Nat.shiftRight_eq_div_pow, Nat.div_lt_iff_lt_mul (Nat.two_pow_pos _),
    ← Nat.pow_add, Nat.add_sub_cancel' within]
  exact fits

/-- A number whose low bits are all set. -/
theorem low_two_pow_sub_one
    {count width : Nat}
    (within : count ≤ width) :
    low (2 ^ width - 1) count = List.replicate count true := by
  induction count with
  | zero => rfl
  | succ count inductionHypothesis =>
      rw [low, Nat.testBit_two_pow_sub_one, inductionHypothesis (by omega),
        List.replicate_succ]
      simp [show count < width by omega]

end Bits
end XmipNet

import Mathlib.Algebra.Order.Ring.Nat
import Mathlib.Data.Nat.Bits
import Mathlib.Data.Set.BooleanAlgebra
import Mathlib.Order.CompletePartialOrder

/-!
# Aligned blocks of numbers

The numbers are cut into blocks of `2 ^ bits`, told apart by their quotients. A
block lies within a coarser one or apart from it, and two words of one width are
in one block where they agree under the mask of their high bits.
-/

namespace XmipNet
namespace Blocks

/-- The aligned block of `2 ^ bits` numbers that `number` is in. -/
def block (bits number : Nat) : Set Nat :=
  {other | other / 2 ^ bits = number / 2 ^ bits}

theorem mem_block
    {bits number other : Nat} :
    other ∈ block bits number ↔ other / 2 ^ bits = number / 2 ^ bits :=
  Iff.rfl

/-- A coarser quotient is a quotient of the finer one. -/
theorem div_two_pow_of_le
    {fine coarse : Nat}
    (finer : fine ≤ coarse)
    (number : Nat) :
    number / 2 ^ coarse = number / 2 ^ fine / 2 ^ (coarse - fine) := by
  rw [Nat.div_div_eq_div_mul, ← pow_add, Nat.add_sub_cancel' finer]

theorem block_mono
    {fine coarse : Nat}
    (finer : fine ≤ coarse)
    {number other : Nat}
    (same : other ∈ block fine number) :
    other ∈ block coarse number := by
  rw [mem_block] at same ⊢
  rw [div_two_pow_of_le finer, same, ← div_two_pow_of_le finer]

/-- A block lies within a coarser one or apart from it. -/
theorem block_subset_or_disjoint
    {fine coarse : Nat}
    (finer : fine ≤ coarse)
    (number other : Nat) :
    block fine number ⊆ block coarse other ∨
      Disjoint (block fine number) (block coarse other) := by
  by_cases meets : number ∈ block coarse other
  · left
    intro member within
    exact (block_mono finer within).trans meets
  · right
    rw [Set.disjoint_left]
    intro member within shared
    exact meets ((block_mono finer within).symm.trans shared)

/-- The high bits of a word, all but `shift`. -/
theorem and_mask_eq_iff
    {width : Nat}
    (first second : BitVec width)
    (shift : Nat) :
    first &&& BitVec.allOnes width <<< shift =
        second &&& BitVec.allOnes width <<< shift ↔
      first.toNat / 2 ^ shift = second.toNat / 2 ^ shift := by
  rw [← Nat.shiftRight_eq_div_pow, ← Nat.shiftRight_eq_div_pow,
    ← BitVec.toNat_ushiftRight, ← BitVec.toNat_ushiftRight, BitVec.toNat_inj]
  constructor
  · intro equal
    ext place within
    have bit := congrArg (fun word => word.getLsbD (shift + place)) equal
    by_cases inside : shift + place < width
    · simpa [inside, Nat.not_lt.mpr (Nat.le_add_right shift place)] using bit
    · simp [BitVec.getLsbD_of_ge _ _ (not_lt.mp inside)]
  · intro equal
    ext place within
    have bit := congrArg (fun word => word.getLsbD (place - shift)) equal
    by_cases high : shift ≤ place
    · simpa [within, Nat.not_lt.mpr high, Nat.add_sub_cancel' high] using bit
    · simp [not_le.mp high]

end Blocks
end XmipNet

import Mathlib.Data.List.Infix

/-!
# Where a list was cut

What came of a list before it was cut is a prefix of it. Of two lists one after
the other the cut falls inside the first or after it; of the parts of a list
written one after another it falls inside one of them.
-/

namespace XmipNet
namespace Cuts

variable {ι α : Type}

/-- `came` is what came of `whole` before it was cut: not all of it. -/
structure Cut (came whole : List ι) : Prop where
  opens : came <+: whole
  short : came ≠ whole

theorem Cut.length_lt
    {came whole : List ι}
    (cut : Cut came whole) :
    came.length < whole.length := by
  refine Nat.lt_of_le_of_ne cut.opens.length_le fun same => cut.short ?_
  exact cut.opens.eq_of_length same

theorem cut_take
    {whole : List ι}
    {count : Nat}
    (within : count < whole.length) :
    Cut (whole.take count) whole := by
  refine ⟨List.take_prefix count whole, fun same => ?_⟩
  have lengths := congrArg List.length same
  rw [List.length_take] at lengths
  omega

theorem not_cut_nil (came : List ι) : ¬Cut came [] :=
  fun cut => cut.short (List.prefix_nil.mp cut.opens)

/-- What opens two lists one after the other is cut inside the first or has all
of it. -/
theorem cut_or_isPrefix
    {came first second : List ι}
    (opens : came <+: first ++ second) :
    Cut came first ∨ first <+: came := by
  rcases Nat.lt_or_ge came.length first.length with inside | past
  · refine Or.inl ⟨?_, fun same => ?_⟩
    · exact List.prefix_of_prefix_length_le opens
        (List.prefix_append first second) inside.le
    · rw [same] at inside
      exact absurd inside (Nat.lt_irrefl _)
  · exact Or.inr (List.prefix_of_prefix_length_le
      (List.prefix_append first second) opens past)

/-- A cut falls inside the first of two lists or in the second. -/
theorem Cut.append_cases
    {came first second : List ι}
    (cut : Cut came (first ++ second)) :
    Cut came first ∨ ∃ later, came = first ++ later ∧ Cut later second := by
  rcases cut_or_isPrefix cut.opens with inside | ⟨later, rfl⟩
  · exact Or.inl inside
  · refine Or.inr ⟨later, rfl, ?_, fun same => cut.short (by rw [same])⟩
    exact (List.prefix_append_right_inj first).mp cut.opens

theorem Cut.pair_cases
    {came : List ι}
    {first second : ι}
    (cut : Cut came [first, second]) :
    came = [] ∨ came = [first] := by
  have short := cut.length_lt
  obtain ⟨rest, whole⟩ := cut.opens
  cases came with
  | nil => exact Or.inl rfl
  | cons only others =>
      rw [List.length_cons, List.length_cons, List.length_singleton] at short
      have none : others = [] :=
        List.eq_nil_of_length_eq_zero (by omega)
      rw [List.cons_append] at whole
      rw [none, (List.cons.inj whole).1]
      exact Or.inr rfl

/-- A cut of parts written one after another falls inside one of them. -/
theorem Cut.flatMap_cases
    {items : List α}
    {write : α → List ι}
    {came : List ι}
    (cut : Cut came (items.flatMap write)) :
    ∃ before item after part, items = before ++ item :: after ∧
      Cut part (write item) ∧ came = before.flatMap write ++ part := by
  induction items generalizing came with
  | nil => exact absurd cut (not_cut_nil came)
  | cons item items inductionHypothesis =>
      rw [List.flatMap_cons] at cut
      rcases cut.append_cases with inside | ⟨later, rfl, rest⟩
      · exact ⟨[], item, items, came, rfl, inside, rfl⟩
      · obtain ⟨before, other, after, part, rfl, inside, rfl⟩ :=
          inductionHypothesis rest
        refine ⟨item :: before, other, after, part, rfl, inside, ?_⟩
        rw [List.flatMap_cons, List.append_assoc]

end Cuts
end XmipNet

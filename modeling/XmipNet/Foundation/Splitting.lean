import Mathlib.Data.List.Infix
import Mathlib.Data.List.TakeWhile

/-!
# Lists taken apart at what they hold

A list is taken apart at the first of an item, at the last of one, or where a
pattern first begins. What comes before and after is told by the items it does
not hold, and a list that goes on is taken apart where it was before.
-/

namespace XmipNet
namespace Splitting

variable {α : Type}

/-- A list is taken apart at its first `item` in one way. -/
theorem append_cons_inj
    {item : α}
    {first second others more : List α}
    (absent : item ∉ first)
    (missing : item ∉ others) :
    first ++ item :: second = others ++ item :: more ↔
      first = others ∧ second = more := by
  constructor
  · intro same
    induction first generalizing others with
    | nil =>
        cases others with
        | nil =>
            rw [List.nil_append, List.nil_append, List.cons.injEq] at same
            exact ⟨rfl, same.2⟩
        | cons other rest =>
            rw [List.nil_append, List.cons_append, List.cons.injEq] at same
            exact absurd (same.1 ▸ List.mem_cons_self) missing
    | cons head first inductionHypothesis =>
        cases others with
        | nil =>
            rw [List.nil_append, List.cons_append, List.cons.injEq] at same
            exact absurd (same.1 ▸ List.mem_cons_self) absent
        | cons other rest =>
            rw [List.cons_append, List.cons_append, List.cons.injEq] at same
            obtain ⟨rfl, rfl⟩ := inductionHypothesis
              (List.not_mem_of_not_mem_cons absent)
              (List.not_mem_of_not_mem_cons missing) same.2
            exact ⟨congrArg (· :: first) same.1, rfl⟩
  · rintro ⟨rfl, rfl⟩
    rfl

theorem isPrefix_of_append
    {pattern items more : List α}
    (opens : pattern <+: items ++ more)
    (fits : pattern.length ≤ items.length) :
    pattern <+: items :=
  List.prefix_of_prefix_length_le opens (List.prefix_append items more) fits

variable [DecidableEq α]

/-- A list with its first `item` taken out. -/
theorem takeWhile_append_dropWhile
    {item : α}
    {items : List α}
    (present : item ∈ items) :
    items.takeWhile (· ≠ item) ++
      item :: (items.dropWhile (· ≠ item)).drop 1 = items := by
  induction items with
  | nil => exact absurd present List.not_mem_nil
  | cons head items inductionHypothesis =>
      by_cases same : head = item
      · have stops : ¬decide (head ≠ item) = true := by
          rw [decide_eq_true_iff]
          exact not_not.mpr same
        rw [List.takeWhile_cons_of_neg (p := fun other => decide (other ≠ item))
            stops,
          List.dropWhile_cons_of_neg (p := fun other => decide (other ≠ item))
            stops, same]
        rfl
      · have goes : decide (head ≠ item) = true := decide_eq_true same
        have later : item ∈ items :=
          (List.mem_cons.mp present).resolve_left (Ne.symm same)
        rw [List.takeWhile_cons_of_pos (p := fun other => decide (other ≠ item))
            goes,
          List.dropWhile_cons_of_pos (p := fun other => decide (other ≠ item))
            goes, List.cons_append, inductionHypothesis later]

theorem not_mem_takeWhile
    (item : α)
    (items : List α) :
    item ∉ items.takeWhile (· ≠ item) := by
  intro member
  have differs := List.mem_takeWhile_imp member
  rw [decide_eq_true_iff] at differs
  exact differs rfl

/-! ## A pattern -/

/-- What a list has before the first place a pattern begins, and what it has
after the pattern. -/
def cutAt (pattern : List α) : List α → Option (List α × List α)
  | [] => if pattern = [] then some ([], []) else none
  | item :: rest =>
      if pattern.isPrefixOf (item :: rest) then
        some ([], (item :: rest).drop pattern.length)
      else
        (cutAt pattern rest).map fun parts => (item :: parts.1, parts.2)

variable {pattern : List α}

theorem cutAt_cons_of_opens
    {item : α}
    {rest : List α}
    (opens : pattern <+: item :: rest) :
    cutAt pattern (item :: rest) =
      some ([], (item :: rest).drop pattern.length) :=
  if_pos (List.isPrefixOf_iff_prefix.mpr opens)

theorem cutAt_cons_of_not_opens
    {item : α}
    {rest : List α}
    (passes : ¬pattern <+: item :: rest) :
    cutAt pattern (item :: rest) =
      (cutAt pattern rest).map fun parts => (item :: parts.1, parts.2) :=
  if_neg fun opens => passes (List.isPrefixOf_iff_prefix.mp opens)

/-- A list that is cut is what was before the pattern, the pattern and what was
after it. -/
theorem of_cutAt
    {items before after : List α}
    (cuts : cutAt pattern items = some (before, after)) :
    items = before ++ pattern ++ after := by
  induction items generalizing before with
  | nil =>
      rw [cutAt] at cuts
      split at cuts
      next empty =>
        cases cuts
        rw [empty]
        rfl
      · cases cuts
  | cons item rest inductionHypothesis =>
      by_cases opens : pattern <+: item :: rest
      · rw [cutAt_cons_of_opens opens] at cuts
        cases cuts
        obtain ⟨later, split⟩ := opens
        rw [List.nil_append, ← split, List.drop_left]
      · rw [cutAt_cons_of_not_opens opens] at cuts
        obtain ⟨⟨first, second⟩, parts, same⟩ := Option.map_eq_some_iff.mp cuts
        cases same
        rw [List.cons_append, List.cons_append, ← inductionHypothesis parts]

/-- A pattern is found where its first item is first. -/
theorem cutAt_append_of_not_mem
    {item : α}
    {before : List α}
    (absent : item ∉ before)
    (pattern after : List α) :
    cutAt (item :: pattern) (before ++ item :: pattern ++ after) =
      some (before, after) := by
  induction before with
  | nil =>
      have opens : item :: pattern <+: item :: (pattern ++ after) :=
        List.prefix_append (item :: pattern) after
      rw [List.nil_append, List.cons_append, cutAt_cons_of_opens opens,
        ← List.cons_append, List.drop_left]
  | cons head before inductionHypothesis =>
      have passes : ¬item :: pattern <+: head :: (before ++ item :: pattern ++
          after) := fun opens => by
        obtain ⟨later, split⟩ := opens
        rw [List.cons_append, List.cons.injEq] at split
        exact absent (split.1 ▸ List.mem_cons_self)
      rw [List.cons_append, List.cons_append, cutAt_cons_of_not_opens passes,
        inductionHypothesis (List.not_mem_of_not_mem_cons absent)]
      rfl

/-- A list that goes on is cut where it was. -/
theorem cutAt_append_of_some
    {items before after : List α}
    (cuts : cutAt pattern items = some (before, after))
    (more : List α) :
    cutAt pattern (items ++ more) = some (before, after ++ more) := by
  induction items generalizing before with
  | nil =>
      rw [cutAt] at cuts
      split at cuts
      next empty =>
        cases cuts
        rw [empty, List.nil_append]
        cases more with
        | nil => rfl
        | cons item rest => exact cutAt_cons_of_opens (List.nil_prefix)
      · cases cuts
  | cons item rest inductionHypothesis =>
      by_cases opens : pattern <+: item :: rest
      · rw [cutAt_cons_of_opens opens] at cuts
        cases cuts
        have still : pattern <+: item :: (rest ++ more) :=
          opens.trans (List.prefix_append (item :: rest) more)
        rw [List.cons_append, cutAt_cons_of_opens still, ← List.cons_append,
          List.drop_append_of_le_length opens.length_le]
      · rw [cutAt_cons_of_not_opens opens] at cuts
        obtain ⟨⟨first, second⟩, parts, same⟩ := Option.map_eq_some_iff.mp cuts
        cases same
        have long : pattern.length ≤ (item :: rest).length := by
          rw [of_cutAt parts]
          simp only [List.length_cons, List.length_append]
          omega
        have passes : ¬pattern <+: item :: (rest ++ more) := fun still =>
          opens (isPrefix_of_append still long)
        rw [List.cons_append, cutAt_cons_of_not_opens passes,
          inductionHypothesis parts]
        rfl

/-- A list that is not cut is, where it goes on with an item the pattern does
not hold, cut after that item or not at all. -/
theorem cutAt_append_of_none
    {items : List α}
    (uncut : cutAt pattern items = none)
    {item : α}
    (foreign : item ∉ pattern)
    (nonempty : pattern ≠ [])
    (more : List α) :
    cutAt pattern (items ++ item :: more) =
      (cutAt pattern more).map fun parts =>
        (items ++ item :: parts.1, parts.2) := by
  induction items with
  | nil =>
      have passes : ¬pattern <+: item :: more := fun opens => by
        cases pattern with
        | nil => exact nonempty rfl
        | cons head tail =>
            obtain ⟨later, split⟩ := opens
            rw [List.cons_append, List.cons.injEq] at split
            exact foreign (split.1 ▸ List.mem_cons_self)
      rw [List.nil_append, cutAt_cons_of_not_opens passes]
      rfl
  | cons head items inductionHypothesis =>
      by_cases opens : pattern <+: head :: items
      · rw [cutAt_cons_of_opens opens] at uncut
        cases uncut
      · rw [cutAt_cons_of_not_opens opens, Option.map_eq_none_iff] at uncut
        have passes : ¬pattern <+: head :: (items ++ item :: more) := by
          intro still
          rcases Nat.lt_or_ge (head :: items).length pattern.length with
            long | fits
          · have before : head :: items ++ [item] <+: pattern := by
              have opens : head :: items ++ [item] <+:
                  head :: (items ++ item :: more) :=
                ⟨more, by rw [List.append_assoc]; rfl⟩
              refine List.prefix_of_prefix_length_le opens still ?_
              · rw [List.length_append]
                exact long
            exact foreign (before.subset
              (List.mem_append_right _ List.mem_cons_self))
          · exact opens (isPrefix_of_append still fits)
        rw [List.cons_append, cutAt_cons_of_not_opens passes,
          inductionHypothesis uncut, Option.map_map]
        rfl

end Splitting
end XmipNet

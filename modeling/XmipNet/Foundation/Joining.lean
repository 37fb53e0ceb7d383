import Mathlib.Data.List.Infix

/-!
# Parts joined by marks

A list is parts with a mark between each two, where no part holds what counts as
a mark. Cutting the list at every mark gives these parts and no others.
-/

namespace XmipNet
namespace Joining

variable {α : Type} {cuts : α → Bool}

/-- A list is these parts, a mark between each two. -/
inductive Joined (cuts : α → Bool) : List α → List (List α) → Prop
  | one {part : List α} (kept : ∀ item ∈ part, cuts item = false) :
      Joined cuts part [part]
  | more {part rest : List α} {mark : α} {parts : List (List α)}
      (kept : ∀ item ∈ part, cuts item = false)
      (cut : cuts mark = true)
      (later : Joined cuts rest parts) :
      Joined cuts (part ++ mark :: rest) (part :: parts)

theorem Joined.splitOnP_eq
    {items : List α}
    {parts : List (List α)}
    (joined : Joined cuts items parts) :
    items.splitOnP cuts = parts := by
  induction joined with
  | one kept => exact List.splitOnP_eq_singleton kept
  | more kept cut later inductionHypothesis =>
      rw [List.splitOnP_append_cons_of_forall_mem kept _ cut,
        inductionHypothesis]

/-- One more item that is no mark belongs to the first part. -/
theorem Joined.cons
    {item : α}
    {items first : List α}
    {rest : List (List α)}
    (kept : cuts item = false)
    (joined : Joined cuts items (first :: rest)) :
    Joined cuts (item :: items) ((item :: first) :: rest) := by
  cases joined with
  | one clear => exact .one (List.forall_mem_cons.mpr ⟨kept, clear⟩)
  | more clear cut later =>
      exact .more (List.forall_mem_cons.mpr ⟨kept, clear⟩) cut later

theorem exists_joined (cuts : α → Bool) (items : List α) :
    ∃ first rest, Joined cuts items (first :: rest) := by
  have none : ∀ item ∈ ([] : List α), cuts item = false :=
    fun item member => absurd member List.not_mem_nil
  induction items with
  | nil => exact ⟨[], [], .one none⟩
  | cons item items inductionHypothesis =>
      obtain ⟨first, rest, joined⟩ := inductionHypothesis
      cases cut : cuts item with
      | true => exact ⟨[], first :: rest, .more none cut joined⟩
      | false => exact ⟨item :: first, rest, joined.cons cut⟩

/-- The parts a list is joined of are those that cutting it gives. -/
theorem joined_iff
    {items : List α}
    {parts : List (List α)} :
    Joined cuts items parts ↔ items.splitOnP cuts = parts := by
  constructor
  · exact Joined.splitOnP_eq
  · rintro rfl
    obtain ⟨first, rest, joined⟩ := exists_joined cuts items
    rw [joined.splitOnP_eq]
    exact joined

/-- An item of a list is a mark or one of a part. -/
theorem Joined.mem
    {items : List α}
    {parts : List (List α)}
    (joined : Joined cuts items parts)
    {item : α}
    (member : item ∈ items) :
    cuts item = true ∨ ∃ part ∈ parts, item ∈ part := by
  induction joined with
  | one kept => exact Or.inr ⟨_, List.mem_singleton_self _, member⟩
  | more kept cut later inductionHypothesis =>
      rcases List.mem_append.mp member with within | onward
      · exact Or.inr ⟨_, List.mem_cons_self, within⟩
      · rcases List.mem_cons.mp onward with rfl | after
        · exact Or.inl cut
        · rcases inductionHypothesis after with mark | ⟨part, among, inside⟩
          · exact Or.inl mark
          · exact Or.inr ⟨part, List.mem_cons_of_mem _ among, inside⟩

/-- A list without marks is one part. -/
theorem Joined.eq_singleton
    {items : List α}
    {parts : List (List α)}
    (joined : Joined cuts items parts)
    (kept : ∀ item ∈ items, cuts item = false) :
    parts = [items] := by
  rw [← joined.splitOnP_eq]
  exact List.splitOnP_eq_singleton kept

/-- Parts that hold no mark are joined by any. -/
theorem joined_intercalate
    {mark : α}
    (cut : cuts mark = true)
    {parts : List (List α)}
    (some : parts ≠ [])
    (kept : ∀ part ∈ parts, ∀ item ∈ part, cuts item = false) :
    Joined cuts ([mark].intercalate parts) parts := by
  induction parts with
  | nil => exact absurd rfl some
  | cons part parts inductionHypothesis =>
      obtain ⟨first, others⟩ := List.forall_mem_cons.mp kept
      cases parts with
      | nil =>
          rw [List.intercalate_singleton]
          exact .one first
      | cons next parts =>
          rw [List.intercalate_cons_cons, List.append_assoc]
          exact .more first cut
            (inductionHypothesis (List.cons_ne_nil _ _) others)

end Joining
end XmipNet

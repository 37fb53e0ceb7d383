import Mathlib.Data.List.DropRight

/-!
# Lists without what is dropped at their ends

Dropping items off both ends of a list leaves a list whose ends are kept, and
dropping again leaves it as it is.
-/

namespace XmipNet
namespace Trimming

variable {α : Type} {drops : α → Bool}

/-- A list without what is dropped at its ends. -/
def trimmed (drops : α → Bool) (items : List α) : List α :=
  (items.dropWhile drops).rdropWhile drops

theorem mem_of_mem_trimmed
    {items : List α}
    {item : α}
    (member : item ∈ trimmed drops items) :
    item ∈ items :=
  (List.dropWhile_sublist drops).subset
    ((List.rdropWhile_prefix drops _).subset member)

/-- What is dropped in front does not matter. -/
theorem trimmed_cons_of_drops
    {item : α}
    (dropped : drops item = true)
    (items : List α) :
    trimmed drops (item :: items) = trimmed drops items := by
  rw [trimmed, List.dropWhile_cons_of_pos dropped, trimmed]

/-- A list none of whose items is dropped stays as it is. -/
theorem trimmed_of_forall
    {items : List α}
    (kept : ∀ item ∈ items, drops item = false) :
    trimmed drops items = items := by
  have front : items.dropWhile drops = items := by
    cases items with
    | nil => rfl
    | cons first rest =>
        exact List.dropWhile_cons_of_neg
          (by rw [kept first List.mem_cons_self]; exact Bool.false_ne_true)
  rw [trimmed, front, List.rdropWhile_eq_self_iff]
  intro nonempty
  rw [kept _ (List.getLast_mem nonempty)]
  exact Bool.false_ne_true

/-- The first item left is one that is kept. -/
theorem dropWhile_trimmed (items : List α) :
    (trimmed drops items).dropWhile drops = trimmed drops items := by
  cases left : trimmed drops items with
  | nil => rfl
  | cons first rest =>
      obtain ⟨later, split⟩ :=
        List.rdropWhile_prefix drops (items.dropWhile drops)
      rw [← trimmed, left] at split
      have kept : drops first = false := by
        have opens := List.head?_dropWhile_not drops items
        rw [← split] at opens
        exact opens
      exact List.dropWhile_cons_of_neg (by rw [kept]; exact Bool.false_ne_true)

/-- Trimming twice is trimming once. -/
theorem trimmed_trimmed (items : List α) :
    trimmed drops (trimmed drops items) = trimmed drops items := by
  rw [trimmed, dropWhile_trimmed, trimmed]
  exact List.rdropWhile_idempotent drops _

/-- Items that are kept, between others that are dropped, are what is left. -/
theorem trimmed_append
    {front items back : List α}
    (before : ∀ item ∈ front, drops item = true)
    (kept : ∀ item ∈ items, drops item = false)
    (after : ∀ item ∈ back, drops item = true) :
    trimmed drops (front ++ items ++ back) = items := by
  have self : ∀ {others : List α}, (∀ item ∈ others, drops item = false) →
      others.dropWhile drops = others := by
    intro others each
    cases others with
    | nil => rfl
    | cons first rest =>
        exact List.dropWhile_cons_of_neg
          (by rw [each first List.mem_cons_self]; exact Bool.false_ne_true)
  have late : ∀ item ∈ back.reverse, drops item = true := fun item member =>
    after item (List.mem_reverse.mp member)
  have reversed : ∀ item ∈ items.reverse, drops item = false :=
    fun item member => kept item (List.mem_reverse.mp member)
  rw [trimmed, List.append_assoc, List.dropWhile_append_of_pos before]
  cases items with
  | nil =>
      have none : back.dropWhile drops = [] :=
        List.dropWhile_eq_nil_iff.mpr after
      rw [List.nil_append, none, List.rdropWhile_nil]
  | cons first rest =>
      have stops : ¬drops first = true := by
        rw [kept first List.mem_cons_self]
        exact Bool.false_ne_true
      rw [List.cons_append, List.dropWhile_cons_of_neg stops,
        ← List.cons_append, List.rdropWhile, List.reverse_append,
        List.dropWhile_append_of_pos late, self reversed, List.reverse_reverse]

end Trimming
end XmipNet

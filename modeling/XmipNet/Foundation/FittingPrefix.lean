import Mathlib.Algebra.BigOperators.Group.List.Basic
import Mathlib.Algebra.Order.BigOperators.Group.List
import Mathlib.Algebra.Order.Group.Nat
import Mathlib.Algebra.Order.Ring.Nat

/-!
# The longest beginning of a list that fits a room

A queue bounded by the total weight of what it holds drops its oldest items
until the rest fits. With the newest first, what remains is the longest
beginning of the list whose weight is within the room.
-/

namespace XmipNet
namespace FittingPrefix

variable {α : Type} {weight : α → Nat}

theorem isPrefix_antisymm
    {first second : List α}
    (begins : first <+: second)
    (begun : second <+: first) :
    first = second :=
  begins.eq_of_length_le begun.length_le

/-- The weight of a whole list. -/
def total (weight : α → Nat) (items : List α) : Nat :=
  (items.map weight).sum

@[simp] theorem total_nil : total weight [] = 0 := rfl

@[simp] theorem total_cons
    (item : α)
    (items : List α) :
    total weight (item :: items) = weight item + total weight items := by
  simp [total]

theorem total_append
    (first second : List α) :
    total weight (first ++ second) =
      total weight first + total weight second := by
  simp [total]

/-- The longest beginning of `items` that weighs at most `room`. -/
def keep (weight : α → Nat) : Nat → List α → List α
  | _, [] => []
  | room, item :: rest =>
      if weight item ≤ room then
        item :: keep weight (room - weight item) rest
      else
        []

/-- What is kept fits. -/
theorem total_keep_le
    (room : Nat)
    (items : List α) :
    total weight (keep weight room items) ≤ room := by
  induction items generalizing room with
  | nil => simp [keep]
  | cons item rest inductionHypothesis =>
      rw [keep]
      split
      case isTrue fits =>
        have restFits := inductionHypothesis (room - weight item)
        rw [total_cons]
        omega
      case isFalse => simp

/-- What is kept is a beginning. -/
theorem keep_isPrefix
    (room : Nat)
    (items : List α) :
    keep weight room items <+: items := by
  induction items generalizing room with
  | nil => simp [keep]
  | cons item rest inductionHypothesis =>
      rw [keep]
      split
      · exact (List.prefix_cons_inj item).mpr (inductionHypothesis _)
      · exact List.nil_prefix

/-- Any beginning that fits is within what is kept. -/
theorem isPrefix_keep
    {room : Nat}
    {start items : List α}
    (begins : start <+: items)
    (fits : total weight start ≤ room) :
    start <+: keep weight room items := by
  induction items generalizing room start with
  | nil => simpa [keep] using begins
  | cons item rest inductionHypothesis =>
      cases start with
      | nil => exact List.nil_prefix
      | cons head tail =>
          obtain ⟨rfl, tailBegins⟩ := List.cons_prefix_cons.mp begins
          rw [total_cons] at fits
          rw [keep, if_pos (by omega)]
          exact (List.prefix_cons_inj head).mpr
            (inductionHypothesis tailBegins (by omega))

/-- A list that fits is kept whole. -/
theorem keep_of_total_le
    {room : Nat}
    {items : List α}
    (fits : total weight items ≤ room) :
    keep weight room items = items :=
  isPrefix_antisymm (keep_isPrefix room items)
    (isPrefix_keep (List.prefix_refl items) fits)

/-- A longer list and a larger room keep more. -/
theorem keep_mono
    {room otherRoom : Nat}
    {items others : List α}
    (begins : items <+: others)
    (smaller : room ≤ otherRoom) :
    keep weight room items <+: keep weight otherRoom others :=
  isPrefix_keep ((keep_isPrefix room items).trans begins)
    ((total_keep_le room items).trans smaller)

/-- A list that does not fit keeps what it keeps without its last item. -/
theorem keep_dropLast_of_lt_total
    {room : Nat}
    {items : List α}
    (exceeds : room < total weight items) :
    keep weight room items.dropLast = keep weight room items := by
  apply isPrefix_antisymm
  · exact keep_mono (List.dropLast_prefix items) (le_refl room)
  · apply isPrefix_keep _ (total_keep_le room items)
    obtain ⟨dropped, split⟩ : keep weight room items <+: items :=
      keep_isPrefix room items
    rcases List.eq_nil_or_concat dropped with rfl | ⟨front, last, rfl⟩
    · rw [List.append_nil] at split
      have fits : total weight (keep weight room items) ≤ room :=
        total_keep_le room items
      rw [split] at fits
      omega
    · rw [List.concat_eq_append, ← List.append_assoc] at split
      have shorter := congrArg List.dropLast split
      rw [List.dropLast_concat] at shorter
      exact shorter ▸ List.prefix_append _ _

theorem total_dropLast
    {items : List α}
    {last : α}
    (found : items.getLast? = some last) :
    total weight items.dropLast = total weight items - weight last := by
  obtain ⟨front, rfl⟩ := List.getLast?_eq_some_iff.mp found
  rw [List.dropLast_concat, total_append]
  simp

/-- Items of positive weight number no more than their total. -/
theorem length_mul_le_total
    {least : Nat}
    (heavy : ∀ item, least ≤ weight item)
    (items : List α) :
    least * items.length ≤ total weight items := by
  induction items with
  | nil => simp
  | cons item rest inductionHypothesis =>
      have first := heavy item
      rw [total_cons, List.length_cons, Nat.mul_succ]
      omega

end FittingPrefix
end XmipNet

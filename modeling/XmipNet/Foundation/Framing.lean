import XmipNet.Foundation.Cuts
import XmipNet.Foundation.Reading

/-!
# Items written one after another

A reader of one item that tells the end from an item cut short reads any number
of them written one after another, then the end; and of what came before a cut
anywhere but between two, the items whole and then a refusal.
-/

namespace XmipNet

open Cuts (Cut)
open Fallible (Reads Refuses times)

variable {σ ι ε α : Type} [Delivering σ ι]

/-- `read` reads what `encode` writes of the items that are `Sendable`, whatever
follows them, none at the end, and refuses what came of one cut short. -/
structure Framing
    (encode : α → List ι)
    (Sendable : α → Prop)
    (read : Fallible σ ε (Option α)) : Prop where
  whole : ∀ {item}, Sendable item → ∀ rest,
    Reads read (encode item ++ rest) (some item) rest
  ended : Reads read [] none []
  short : ∀ {item}, Sendable item → ∀ {came}, Cut came (encode item) →
    came ≠ [] → Refuses read came

namespace Framing

variable {encode : α → List ι} {Sendable : α → Prop}
  {read : Fallible σ ε (Option α)} {items : List α}

theorem times_ended
    (framing : Framing encode Sendable read)
    (count : Nat) :
    Reads (times read count) [] (List.replicate count none) [] := by
  induction count with
  | zero => exact Fallible.reads_pure [] []
  | succ count inductionHypothesis =>
      rw [List.replicate_succ]
      exact framing.ended.bind
        (inductionHypothesis.bind (Fallible.reads_pure _ []))

/-- The items written are the items read, and after them there is none. -/
theorem times_encode
    (framing : Framing encode Sendable read)
    (sendable : ∀ item ∈ items, Sendable item)
    (more : Nat) :
    Reads (times read (items.length + more)) (items.flatMap encode)
      (items.map some ++ List.replicate more none) [] := by
  induction items with
  | nil =>
      rw [List.length_nil, Nat.zero_add]
      exact framing.times_ended more
  | cons item items inductionHypothesis =>
      obtain ⟨first, others⟩ := List.forall_mem_cons.mp sendable
      rw [List.length_cons, Nat.add_right_comm, List.flatMap_cons,
        List.map_cons, List.cons_append]
      exact (framing.whole first _).bind
        ((inductionHypothesis others).bind (Fallible.reads_pure _ []))

/-- A cut anywhere but between two items falls inside one: those before it are
read, and what came of it is refused. -/
theorem times_cut
    (framing : Framing encode Sendable read)
    (sendable : ∀ item ∈ items, Sendable item)
    {came : List ι}
    (cut : Cut came (items.flatMap encode))
    (inside : ∀ before, before <+: items → came ≠ before.flatMap encode) :
    ∃ before item after part, items = before ++ item :: after ∧
      Cut part (encode item) ∧ part ≠ [] ∧
      came = before.flatMap encode ++ part ∧
      Reads (times read before.length) came (before.map some) part ∧
      Refuses read part := by
  obtain ⟨before, item, after, part, split, partly, rfl⟩ := cut.flatMap_cases
  rw [split] at sendable
  obtain ⟨first, others⟩ := List.forall_mem_append.mp sendable
  have nonempty : part ≠ [] := by
    rintro rfl
    exact inside before ⟨_, split.symm⟩ (List.append_nil _)
  refine ⟨before, item, after, part, split, partly, nonempty, rfl, ?_, ?_⟩
  · exact Fallible.times_reads
      (fun item member => framing.whole (first item member)) part
  · exact framing.short (others item List.mem_cons_self) partly nonempty

end Framing
end XmipNet

import XmipNet.Foundation.Fallible

/-!
# Computations that read an input

A state that delivers a list of items, however it holds them, and a computation
that takes items off it. What a computation does is said of the items alone: it
reads a value and leaves the rest, or it refuses them. Both are put together
along a sequence, and a computation that decides every input can be taken apart
again.
-/

namespace XmipNet

/-- States that deliver a list of items: each state one list, each list by some
state. -/
class Delivering (σ : Type) (ι : outParam Type) where
  Delivers : σ → List ι → Prop
  unique : ∀ {state items others},
    Delivers state items → Delivers state others → items = others
  every : ∀ items, ∃ state, Delivers state items

namespace Fallible

open Delivering (Delivers)

variable {σ ι ε α β : Type} [Delivering σ ι]

/-- From any state that delivers `items`, `action` gives `value` and leaves a
state that delivers `rest`. -/
def Reads
    (action : Fallible σ ε α)
    (items : List ι)
    (value : α)
    (rest : List ι) : Prop :=
  ∀ state, Delivers state items →
    ∃ after, action state = (.ok value, after) ∧ Delivers after rest

/-- From any state that delivers `items`, `action` fails. -/
def Refuses (action : Fallible σ ε α) (items : List ι) : Prop :=
  ∀ state, Delivers state items →
    ∃ error after, action state = (.error error, after)

/-- Whatever is delivered, `action` reads it or refuses it. -/
def Decided (action : Fallible σ ε α) : Prop :=
  ∀ items, (∃ value rest, Reads action items value rest) ∨ Refuses action items

variable {action : Fallible σ ε α} {items middle rest : List ι}

theorem reads_pure (value : α) (items : List ι) :
    Reads (pure value : Fallible σ ε α) items value items :=
  fun state delivers => ⟨state, rfl, delivers⟩

theorem refuses_fail (error : ε) (items : List ι) :
    Refuses (fail error : Fallible σ ε α) items :=
  fun state _ => ⟨error, state, rfl⟩

theorem reads_lift (value : α) (items : List ι) :
    Reads (lift (.ok value) : Fallible σ ε α) items value items :=
  fun state delivers => ⟨state, rfl, delivers⟩

theorem refuses_lift (error : ε) (items : List ι) :
    Refuses (lift (.error error) : Fallible σ ε α) items :=
  fun state _ => ⟨error, state, rfl⟩

/-- A failure told otherwise reads the same. -/
theorem Reads.mapError
    {δ : Type}
    {value : α}
    (reads : Reads action items value rest)
    (convert : ε → δ) :
    Reads (mapError convert action) items value rest := by
  intro state delivers
  obtain ⟨after, runs, left⟩ := reads state delivers
  refine ⟨after, ?_, left⟩
  rw [Fallible.mapError, runs]
  rfl

theorem Refuses.mapError
    {δ : Type}
    (refuses : Refuses action items)
    (convert : ε → δ) :
    Refuses (mapError convert action) items := by
  intro state delivers
  obtain ⟨error, after, fails⟩ := refuses state delivers
  refine ⟨convert error, after, ?_⟩
  rw [Fallible.mapError, fails]
  rfl

/-- What a sequence reads is what its parts read one after the other. -/
theorem Reads.bind
    {next : α → Fallible σ ε β}
    {value : α}
    {result : β}
    (reads : Reads action items value middle)
    (goes : Reads (next value) middle result rest) :
    Reads (action >>= next) items result rest := by
  intro state delivers
  obtain ⟨between, runs, left⟩ := reads state delivers
  rw [bind_of_ok runs]
  exact goes between left

/-- A sequence refuses what its second part refuses. -/
theorem Reads.bind_refuses
    {next : α → Fallible σ ε β}
    {value : α}
    (reads : Reads action items value middle)
    (refuses : Refuses (next value) middle) :
    Refuses (action >>= next) items := by
  intro state delivers
  obtain ⟨between, runs, left⟩ := reads state delivers
  rw [bind_of_ok runs]
  exact refuses between left

/-- A sequence refuses what its first part refuses. -/
theorem Refuses.bind
    (refuses : Refuses action items)
    (next : α → Fallible σ ε β) :
    Refuses (action >>= next) items := by
  intro state delivers
  obtain ⟨error, after, fails⟩ := refuses state delivers
  exact ⟨error, after, bind_of_error fails next⟩

/-- An input is read in one way. -/
theorem Reads.unique
    {value other : α}
    {others : List ι}
    (reads : Reads action items value rest)
    (again : Reads action items other others) :
    value = other ∧ rest = others := by
  obtain ⟨state, delivers⟩ := Delivering.every (σ := σ) items
  obtain ⟨after, runs, left⟩ := reads state delivers
  obtain ⟨final, same, ends⟩ := again state delivers
  rw [runs] at same
  cases same
  exact ⟨rfl, Delivering.unique left ends⟩

/-- An input that is read is not refused. -/
theorem Reads.not_refuses
    {value : α}
    (reads : Reads action items value rest) :
    ¬Refuses action items := by
  intro refuses
  obtain ⟨state, delivers⟩ := Delivering.every (σ := σ) items
  obtain ⟨after, runs, _⟩ := reads state delivers
  obtain ⟨error, final, fails⟩ := refuses state delivers
  rw [runs] at fails
  cases fails

theorem decided_pure (value : α) :
    Decided (pure value : Fallible σ ε α) :=
  fun items => Or.inl ⟨value, items, reads_pure value items⟩

theorem decided_fail (error : ε) :
    Decided (fail error : Fallible σ ε α) :=
  fun items => Or.inr (refuses_fail error items)

theorem decided_lift (outcome : Except ε α) :
    Decided (lift outcome : Fallible σ ε α) := by
  intro items
  cases outcome with
  | ok value => exact Or.inl ⟨value, items, reads_lift value items⟩
  | error error => exact Or.inr (refuses_lift error items)

theorem Decided.mapError
    {δ : Type}
    (decided : Decided action)
    (convert : ε → δ) :
    Decided (mapError convert action) := by
  intro items
  rcases decided items with ⟨value, rest, reads⟩ | refuses
  · exact Or.inl ⟨value, rest, reads.mapError convert⟩
  · exact Or.inr (refuses.mapError convert)

theorem Decided.bind
    {next : α → Fallible σ ε β}
    (decided : Decided action)
    (goes : ∀ value, Decided (next value)) :
    Decided (action >>= next) := by
  intro items
  rcases decided items with ⟨value, middle, reads⟩ | refuses
  · rcases goes value middle with ⟨result, rest, reading⟩ | refusing
    · exact Or.inl ⟨result, rest, reads.bind reading⟩
    · exact Or.inr (reads.bind_refuses refusing)
  · exact Or.inr (refuses.bind next)

/-- Where the first part reads, a sequence refuses what the second refuses. -/
theorem Reads.refuses_bind_iff
    {next : α → Fallible σ ε β}
    {value : α}
    (reads : Reads action items value middle)
    (decided : Decided (next value)) :
    Refuses (action >>= next) items ↔ Refuses (next value) middle := by
  refine ⟨fun refuses => ?_, reads.bind_refuses⟩
  rcases decided middle with ⟨result, rest, goes⟩ | stops
  · exact absurd refuses (reads.bind goes).not_refuses
  · exact stops

theorem Decided.refuses_bind_pure_iff
    (decided : Decided action)
    (make : α → β) :
    Refuses (action >>= fun value => pure (make value)) items ↔
      Refuses action items := by
  refine ⟨fun refuses => ?_, fun refuses => refuses.bind _⟩
  rcases decided items with ⟨value, rest, reads⟩ | stops
  · exact absurd refuses (reads.bind (reads_pure (make value) rest)).not_refuses
  · exact stops

/-- A sequence whose parts decide is read part by part. -/
theorem Decided.reads_bind_iff
    {next : α → Fallible σ ε β}
    {result : β}
    (decided : Decided action)
    (goes : ∀ value, Decided (next value)) :
    Reads (action >>= next) items result rest ↔
      ∃ value middle, Reads action items value middle ∧
        Reads (next value) middle result rest := by
  constructor
  · intro reads
    rcases decided items with ⟨value, middle, first⟩ | refuses
    · rcases goes value middle with ⟨other, last, second⟩ | refusing
      · obtain ⟨rfl, rfl⟩ := (first.bind second).unique reads
        exact ⟨value, middle, first, second⟩
      · exact absurd (first.bind_refuses refusing) reads.not_refuses
    · exact absurd (refuses.bind next) reads.not_refuses
  · rintro ⟨value, middle, first, second⟩
    exact first.bind second

/-- `action` run `count` times, its values in order. -/
def times (action : Fallible σ ε α) : Nat → Fallible σ ε (List α)
  | 0 => pure []
  | count + 1 => do
      let value ← action
      let values ← times action count
      pure (value :: values)

/-- What is read of each of some parts, whatever follows it, is read of all of
them one after another. -/
theorem times_reads
    {parts : List β}
    {written : β → List ι}
    {value : β → α}
    (reads : ∀ part ∈ parts, ∀ rest,
      Reads action (written part ++ rest) (value part) rest)
    (rest : List ι) :
    Reads (times action parts.length) (parts.flatMap written ++ rest)
      (parts.map value) rest := by
  induction parts with
  | nil => exact reads_pure [] rest
  | cons part parts inductionHypothesis =>
      obtain ⟨first, others⟩ := List.forall_mem_cons.mp reads
      rw [List.flatMap_cons, List.append_assoc, List.map_cons]
      refine (first _).bind ?_
      exact (inductionHypothesis others).bind (reads_pure _ rest)

theorem decided_times
    (decided : Decided action)
    (count : Nat) :
    Decided (times action count) := by
  induction count with
  | zero => exact decided_pure []
  | succ count inductionHypothesis =>
      exact decided.bind fun _ => inductionHypothesis.bind fun _ =>
        decided_pure _

/-- What is read again and again was read once, and again and again of what was
left. -/
theorem Decided.of_times_succ
    (decided : Decided action)
    {count : Nat}
    {values : List α}
    (reads : Reads (times action (count + 1)) items values rest) :
    ∃ value others middle, values = value :: others ∧
      Reads action items value middle ∧
      Reads (times action count) middle others rest := by
  have later (value : α) : Decided (times action count >>= fun others =>
      pure (value :: others)) :=
    (decided_times decided count).bind fun _ => decided_pure _
  obtain ⟨value, middle, first, second⟩ :=
    (decided.reads_bind_iff later).mp reads
  obtain ⟨others, last, again, ends⟩ :=
    ((decided_times decided count).reads_bind_iff fun _ => decided_pure _).mp second
  obtain ⟨rfl, rfl⟩ := ends.unique (reads_pure _ last)
  exact ⟨value, others, middle, rfl, first, again⟩

end Fallible
end XmipNet

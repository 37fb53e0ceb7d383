import Mathlib.Data.List.Infix

/-!
# Two sides that talk to each other

Two sides, each with a history of what it did. An event of a history may say
something to the other side or be the hearing of something; what one side utters
the other hears in the order it was said, and never before it was said. Whatever
the order the two histories came about in, each side has heard a beginning of
what the other has said.
-/

namespace XmipNet
namespace Duplex

variable {ε μ : Type} {utters hears : ε → Option μ} {mine yours : List ε}

/-- Two histories that came about together, event by event: what is heard is the
next of what the other side has said. -/
inductive Converse (utters hears : ε → Option μ) : List ε → List ε → Prop
  | silence : Converse utters hears [] []
  | mine {mine yours : List ε} {event : ε}
      (converse : Converse utters hears mine yours)
      (heard : ∀ message, hears event = some message →
        mine.filterMap hears ++ [message] <+: yours.filterMap utters) :
      Converse utters hears (mine ++ [event]) yours
  | yours {mine yours : List ε} {event : ε}
      (converse : Converse utters hears mine yours)
      (heard : ∀ message, hears event = some message →
        yours.filterMap hears ++ [message] <+: mine.filterMap utters) :
      Converse utters hears mine (yours ++ [event])

theorem Converse.symm
    (converse : Converse utters hears mine yours) :
    Converse utters hears yours mine := by
  induction converse with
  | silence => exact .silence
  | mine _ heard inductionHypothesis => exact .yours inductionHypothesis heard
  | yours _ heard inductionHypothesis => exact .mine inductionHypothesis heard

/-- One more event, where what it hears is there to be heard. -/
theorem heard_append
    {event : ε}
    {said : List μ}
    (before : mine.filterMap hears <+: said)
    (heard : ∀ message, hears event = some message →
      mine.filterMap hears ++ [message] <+: said) :
    (mine ++ [event]).filterMap hears <+: said := by
  rw [List.filterMap_append, List.filterMap_cons]
  cases hearing : hears event with
  | none =>
      simp only [List.filterMap_nil, List.append_nil]
      exact before
  | some message => exact heard message hearing

/-- What a side has heard is a beginning of what the other has said. -/
theorem Converse.heard
    (converse : Converse utters hears mine yours) :
    mine.filterMap hears <+: yours.filterMap utters ∧
      yours.filterMap hears <+: mine.filterMap utters := by
  induction converse with
  | silence => exact ⟨List.prefix_refl _, List.prefix_refl _⟩
  | mine _ heard inductionHypothesis =>
      obtain ⟨first, second⟩ := inductionHypothesis
      exact ⟨heard_append first heard,
        second.trans ((List.prefix_append _ _).filterMap utters)⟩
  | yours _ heard inductionHypothesis =>
      obtain ⟨first, second⟩ := inductionHypothesis
      exact ⟨first.trans ((List.prefix_append _ _).filterMap utters),
        heard_append second heard⟩

/-- When one side had come as far as `early`, the other had come somewhere, and
the two had talked to each other as far as that. -/
theorem Converse.earlier
    (converse : Converse utters hears mine yours)
    {early : List ε}
    (earlier : early <+: mine) :
    ∃ other, other <+: yours ∧ Converse utters hears early other := by
  induction converse generalizing early with
  | silence =>
      obtain rfl := List.prefix_nil.mp earlier
      exact ⟨[], List.prefix_refl _, .silence⟩
  | @mine before later event converse heard inductionHypothesis =>
      rcases List.prefix_concat_iff.mp earlier with rfl | short
      · exact ⟨later, List.prefix_refl _, .mine converse heard⟩
      · exact inductionHypothesis short
  | yours _ _ inductionHypothesis =>
      obtain ⟨other, within, held⟩ := inductionHypothesis earlier
      exact ⟨other, within.trans (List.prefix_append _ _), held⟩

/-- Whether an event hears nothing, or the next of what was said. -/
def heeds [DecidableEq μ] (utters hears : ε → Option μ) (mine yours : List ε)
    (event : ε) : Bool :=
  match hears event with
  | none => true
  | some message =>
      (mine.filterMap hears ++ [message]).isPrefixOf (yours.filterMap utters)

/-- Whether the rest of two histories can come about in the order that `turns`
says, `true` for an event of the first. -/
def interleaves [DecidableEq μ] (utters hears : ε → Option μ) :
    List Bool → List ε → List ε → List ε → List ε → Bool
  | [], _, _, [], [] => true
  | true :: turns, mine, yours, event :: rest, others =>
      heeds utters hears mine yours event &&
        interleaves utters hears turns (mine ++ [event]) yours rest others
  | false :: turns, mine, yours, rest, event :: others =>
      heeds utters hears yours mine event &&
        interleaves utters hears turns mine (yours ++ [event]) rest others
  | _, _, _, _, _ => false

theorem heard_of_heeds
    [DecidableEq μ]
    {event : ε}
    (heeded : heeds utters hears mine yours event = true) :
    ∀ message, hears event = some message →
      mine.filterMap hears ++ [message] <+: yours.filterMap utters := by
  intro message hearing
  rw [heeds, hearing] at heeded
  exact List.isPrefixOf_iff_prefix.mp heeded

theorem Converse.of_interleaves
    [DecidableEq μ]
    {turns : List Bool}
    (converse : Converse utters hears mine yours)
    {rest others : List ε}
    (comes : interleaves utters hears turns mine yours rest others = true) :
    Converse utters hears (mine ++ rest) (yours ++ others) := by
  fun_induction interleaves utters hears turns mine yours rest others with
  | case1 mine yours =>
      rw [List.append_nil, List.append_nil]
      exact converse
  | case2 turns mine yours event rest others inductionHypothesis =>
      obtain ⟨heeded, later⟩ := Bool.and_eq_true_iff.mp comes
      rw [List.append_cons mine]
      exact inductionHypothesis (.mine converse (heard_of_heeds heeded)) later
  | case3 turns mine yours rest event others inductionHypothesis =>
      obtain ⟨heeded, later⟩ := Bool.and_eq_true_iff.mp comes
      rw [List.append_cons yours]
      exact inductionHypothesis (.yours converse (heard_of_heeds heeded)) later
  | case4 => cases comes

/-- What a side has said that the other has not heard yet. -/
def inFlight (utters hears : ε → Option μ) (speaker listener : List ε) :
    List μ :=
  (speaker.filterMap utters).drop (listener.filterMap hears).length

/-- What was said is what was heard and what is in flight. -/
theorem heard_append_inFlight
    {speaker listener : List ε}
    (heard : listener.filterMap hears <+: speaker.filterMap utters) :
    listener.filterMap hears ++ inFlight utters hears speaker listener =
      speaker.filterMap utters := by
  obtain ⟨rest, said⟩ := heard
  rw [inFlight, ← said, List.drop_left]

end Duplex
end XmipNet

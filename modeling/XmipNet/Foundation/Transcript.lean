import Mathlib.Logic.Basic

/-!
# Calls and what they answer

A transcript is the calls made of a machine one after another, each with what
was answered to it. Where every call of one machine answers as the same call of
another does, or answers for itself and leaves the other where it was, the
transcript of the one is that of the other with the calls between.
-/

namespace XmipNet
namespace Transcript

variable {κ ω σ τ : Type}

/-- The calls made from a state, each with what was answered, and the state
after them. -/
def transcript (act : κ → σ → ω × σ) : List κ → σ → List (κ × ω) × σ
  | [], state => ([], state)
  | call :: calls, state =>
      let later := transcript act calls (act call state).2
      ((call, (act call state).1) :: later.1, later.2)

/-- A transcript is of the calls that were made. -/
theorem map_fst_transcript
    (act : κ → σ → ω × σ)
    (calls : List κ)
    (state : σ) :
    (transcript act calls state).1.map Prod.fst = calls := by
  induction calls generalizing state with
  | nil => rfl
  | cons call calls inductionHypothesis =>
      rw [transcript, List.map_cons, inductionHypothesis]

/-- A transcript, and the same with calls of its own kind between. -/
inductive Amid (own : κ × ω → Prop) :
    List (κ × ω) → List (κ × ω) → Prop
  | nil : Amid own [] []
  | shared {whole part : List (κ × ω)} (entry : κ × ω)
      (amid : Amid own whole part) : Amid own (entry :: whole) (entry :: part)
  | between {whole part : List (κ × ω)} (entry : κ × ω) (is : own entry)
      (amid : Amid own whole part) : Amid own (entry :: whole) part

/-- Where nothing can be between, the transcripts are one. -/
theorem Amid.eq_of_forall_not
    {own : κ × ω → Prop}
    {whole part : List (κ × ω)}
    (amid : Amid own whole part)
    (none : ∀ entry, ¬own entry) :
    whole = part := by
  induction amid with
  | nil => rfl
  | shared entry _ inductionHypothesis => rw [inductionHypothesis]
  | between entry is _ _ => exact absurd is (none entry)

section Simulation

variable {act : κ → σ → ω × σ} {other : κ → τ → ω × τ}
  {Like : σ → τ → Prop} {own : κ × ω → Prop}

/-- What one call does, every run of calls does. -/
theorem transcript_amid
    (step : ∀ {state copy}, Like state copy → ∀ call,
      ((act call state).1 = (other call copy).1 ∧
        Like (act call state).2 (other call copy).2) ∨
      (own (call, (act call state).1) ∧ Like (act call state).2 copy))
    (calls : List κ)
    {state : σ}
    {copy : τ}
    (like : Like state copy) :
    ∃ shared, Amid own (transcript act calls state).1 shared ∧
      (transcript other (shared.map Prod.fst) copy).1 = shared ∧
      Like (transcript act calls state).2
        (transcript other (shared.map Prod.fst) copy).2 := by
  induction calls generalizing state copy with
  | nil => exact ⟨[], .nil, rfl, like⟩
  | cons call calls inductionHypothesis =>
      rcases step like call with ⟨same, after⟩ | ⟨is, after⟩
      · obtain ⟨shared, amid, answers, last⟩ := inductionHypothesis after
        refine ⟨(call, (act call state).1) :: shared, .shared _ amid, ?_, last⟩
        simp only [List.map_cons, transcript, answers, same]
      · obtain ⟨shared, amid, answers, last⟩ := inductionHypothesis after
        exact ⟨shared, .between _ is amid, answers, last⟩

end Simulation

end Transcript
end XmipNet

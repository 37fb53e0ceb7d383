import Mathlib.Logic.Basic
import Mathlib.Logic.Relation

/-!
# Computations that change a state and may fail

A computation takes a state to an outcome and the state after it; what it did
before it failed stays done, as with a mutable receiver. `Ensures` is its
weakest precondition, one condition on the state after a success and one on the
state after a failure, with a rule for every way a computation is put together.
What is kept, upheld or stepped through whatever the outcome, and what a failure
says, have rules of the same shape.
-/

namespace XmipNet

/-- A computation over a state of type `σ`, failing with an `ε`. -/
def Fallible (σ ε α : Type) : Type :=
  σ → Except ε α × σ

namespace Fallible

variable {σ ε δ α β : Type}

instance : Monad (Fallible σ ε) where
  pure value := fun state => (.ok value, state)
  bind first next := fun state =>
    match first state with
    | (.ok value, after) => next value after
    | (.error error, after) => (.error error, after)

/-- Fail, leaving the state. -/
def fail (error : ε) : Fallible σ ε α :=
  fun state => (.error error, state)

/-- The state as it stands. -/
def get : Fallible σ ε σ :=
  fun state => (.ok state, state)

/-- Change the state. -/
def modify (change : σ → σ) : Fallible σ ε Unit :=
  fun state => (.ok (), change state)

/-- An outcome that does not touch the state. -/
def lift (outcome : Except ε α) : Fallible σ ε α :=
  fun state => (outcome, state)

/-- The same computation, its failure turned into another. -/
def mapError (convert : ε → δ) (action : Fallible σ ε α) : Fallible σ δ α :=
  fun state => ((action state).1.mapError convert, (action state).2)

/-- Run `action` and go on with its outcome, a failure included. -/
def attempt (action : Fallible σ ε α) : Fallible σ δ (Except ε α) :=
  fun state => (.ok (action state).1, (action state).2)

/-- A bind runs its first part and, where that succeeds, the second. -/
theorem bind_apply
    (first : Fallible σ ε α)
    (next : α → Fallible σ ε β)
    (state : σ) :
    (first >>= next) state =
      match first state with
      | (.ok value, after) => next value after
      | (.error error, after) => (.error error, after) := rfl

instance : LawfulMonad (Fallible σ ε) := by
  refine LawfulMonad.mk' (Fallible σ ε) ?_ ?_ ?_
  · intro _ action
    funext state
    change (action >>= fun value => pure value) state = action state
    rw [bind_apply]
    rcases action state with ⟨_ | _, _⟩ <;> rfl
  · exact fun _ _ => rfl
  · intro _ _ _ first next last
    funext state
    simp only [bind_apply]
    rcases first state with ⟨_ | _, _⟩ <;> rfl

theorem bind_of_ok
    {first : Fallible σ ε α}
    {state after : σ}
    {value : α}
    (runs : first state = (.ok value, after))
    (next : α → Fallible σ ε β) :
    (first >>= next) state = next value after := by
  rw [bind_apply, runs]

theorem bind_of_error
    {first : Fallible σ ε α}
    {state after : σ}
    {error : ε}
    (runs : first state = (.error error, after))
    (next : α → Fallible σ ε β) :
    (first >>= next) state = (.error error, after) := by
  rw [bind_apply, runs]

/-- A sequence that succeeds is two parts that do. -/
theorem of_bind
    {first : Fallible σ ε α}
    {next : α → Fallible σ ε β}
    {state after : σ}
    {result : β}
    (runs : (first >>= next) state = (.ok result, after)) :
    ∃ value between, first state = (.ok value, between) ∧
      next value between = (.ok result, after) := by
  rw [bind_apply] at runs
  split at runs
  next value between given => exact ⟨value, between, given, runs⟩
  · cases runs

@[simp] theorem get_bind_apply
    (next : σ → Fallible σ ε β)
    (state : σ) :
    (get >>= next) state = next state state := rfl

@[simp] theorem modify_bind_apply
    (change : σ → σ)
    (next : Unit → Fallible σ ε β)
    (state : σ) :
    (modify change >>= next) state = next () (change state) := rfl

@[simp] theorem modify_apply
    (change : σ → σ)
    (state : σ) :
    (modify change : Fallible σ ε Unit) state = (.ok (), change state) := rfl

@[simp] theorem fail_apply
    (error : ε)
    (state : σ) :
    (fail error : Fallible σ ε α) state = (.error error, state) := rfl

@[simp] theorem attempt_apply
    (action : Fallible σ ε α)
    (state : σ) :
    (attempt action : Fallible σ δ (Except ε α)) state =
      (.ok (action state).1, (action state).2) := rfl

theorem eq_ok_of_toOption
    {outcome : Except ε α}
    {value : α}
    (gives : outcome.toOption = some value) :
    outcome = .ok value := by
  cases outcome with
  | error failure => cases gives
  | ok given => exact congrArg _ (Option.some.inj gives)

theorem eq_ok_of_mapError
    {convert : ε → δ}
    {outcome : Except ε α}
    {value : α}
    (gives : outcome.mapError convert = .ok value) :
    outcome = .ok value := by
  cases outcome with
  | error failure => cases gives
  | ok given => exact congrArg _ (Except.ok.inj gives)

/-! ## The weakest precondition -/

/-- After `action` from `state`, `done` holds of a success and `failed` of a
failure, each with the state after it. -/
def Ensures
    (action : Fallible σ ε α)
    (state : σ)
    (done : α → σ → Prop)
    (failed : ε → σ → Prop) : Prop :=
  match action state with
  | (.ok value, after) => done value after
  | (.error error, after) => failed error after

variable {done : α → σ → Prop} {failed : ε → σ → Prop} {state : σ}

theorem ensures_of_ok
    {action : Fallible σ ε α}
    {value : α}
    {after : σ}
    (ensures : Ensures action state done failed)
    (runs : action state = (.ok value, after)) :
    done value after := by
  rwa [Ensures, runs] at ensures

theorem ensures_of_error
    {action : Fallible σ ε α}
    {error : ε}
    {after : σ}
    (ensures : Ensures action state done failed)
    (runs : action state = (.error error, after)) :
    failed error after := by
  rwa [Ensures, runs] at ensures

/-- What is ensured may be weakened. -/
theorem Ensures.mono
    {action : Fallible σ ε α}
    {weaklyDone : α → σ → Prop}
    {weaklyFailed : ε → σ → Prop}
    (ensures : Ensures action state done failed)
    (ofDone : ∀ value after, done value after → weaklyDone value after)
    (ofFailed : ∀ error after, failed error after → weaklyFailed error after) :
    Ensures action state weaklyDone weaklyFailed := by
  rw [Ensures] at ensures ⊢
  split
  next runs =>
    rw [runs] at ensures
    exact ofDone _ _ ensures
  next runs =>
    rw [runs] at ensures
    exact ofFailed _ _ ensures

@[simp] theorem ensures_pure
    (value : α) :
    Ensures (pure value) state done failed ↔ done value state := Iff.rfl

@[simp] theorem ensures_fail
    (error : ε) :
    Ensures (fail error) state done failed ↔ failed error state := Iff.rfl

@[simp] theorem ensures_get
    {done : σ → σ → Prop} :
    Ensures get state done failed ↔ done state state := Iff.rfl

@[simp] theorem ensures_modify
    {done : Unit → σ → Prop}
    (change : σ → σ) :
    Ensures (modify change) state done failed ↔ done () (change state) :=
  Iff.rfl

theorem ensures_lift
    (outcome : Except ε α) :
    Ensures (lift outcome) state done failed ↔
      match outcome with
      | .ok value => done value state
      | .error error => failed error state := by
  cases outcome <;> exact Iff.rfl

/-- The rule of sequence. -/
theorem ensures_bind
    {done : β → σ → Prop}
    {first : Fallible σ ε α}
    {next : α → Fallible σ ε β} :
    Ensures (first >>= next) state done failed ↔
      Ensures first state
        (fun value after => Ensures (next value) after done failed) failed := by
  simp only [Ensures, bind_apply]
  rcases first state with ⟨_ | _, after⟩ <;> exact Iff.rfl

theorem ensures_mapError
    {failed : δ → σ → Prop}
    {convert : ε → δ}
    {action : Fallible σ ε α} :
    Ensures (mapError convert action) state done failed ↔
      Ensures action state done
        (fun error after => failed (convert error) after) := by
  simp only [Ensures, mapError]
  rcases action state with ⟨_ | _, after⟩ <;> exact Iff.rfl

/-! ## What a computation leaves as it was -/

/-- Whatever its outcome, `action` leaves what `view` shows of the state. -/
def Keeps {γ : Type} (view : σ → γ) (action : Fallible σ ε α) : Prop :=
  ∀ state, view (action state).2 = view state

section Keeps

variable {γ : Type} {view : σ → γ}

theorem keeps_pure
    (value : α) :
    Keeps view (pure value : Fallible σ ε α) :=
  fun _ => rfl

theorem keeps_fail
    (error : ε) :
    Keeps view (fail error : Fallible σ ε α) :=
  fun _ => rfl

theorem keeps_get : Keeps view (get : Fallible σ ε σ) :=
  fun _ => rfl

theorem keeps_lift
    (outcome : Except ε α) :
    Keeps view (lift outcome : Fallible σ ε α) :=
  fun _ => rfl

theorem keeps_modify
    {change : σ → σ}
    (same : ∀ state, view (change state) = view state) :
    Keeps view (modify change : Fallible σ ε Unit) :=
  same

theorem keeps_bind
    {first : Fallible σ ε α}
    {next : α → Fallible σ ε β}
    (keeps : Keeps view first)
    (goes : ∀ value, Keeps view (next value)) :
    Keeps view (first >>= next) := by
  intro state
  have before := keeps state
  rw [bind_apply]
  split
  next value after runs =>
    rw [runs] at before
    exact (goes value after).trans before
  next error after runs =>
    rw [runs] at before
    exact before

theorem Keeps.of_eq
    {action : Fallible σ ε α}
    (keeps : Keeps view action)
    {state after : σ}
    {outcome : Except ε α}
    (runs : action state = (outcome, after)) :
    view after = view state := by
  have kept := keeps state
  rwa [runs] at kept

/-- What is left of the state leaves every part of it. -/
theorem Keeps.map
    {η : Type}
    {action : Fallible σ ε α}
    (keeps : Keeps view action)
    (part : γ → η) :
    Keeps (fun state => part (view state)) action :=
  fun state => congrArg part (keeps state)

theorem keeps_mapError
    {action : Fallible σ ε α}
    (keeps : Keeps view action)
    (convert : ε → δ) :
    Keeps view (mapError convert action) :=
  keeps

end Keeps

/-! ## What steps a computation is made of -/

/-- Whatever its outcome, `action` moves the state by steps. -/
def Runs (step : σ → σ → Prop) (action : Fallible σ ε α) : Prop :=
  ∀ state, Relation.ReflTransGen step state (action state).2

section Runs

variable {step : σ → σ → Prop}

theorem runs_pure
    (value : α) :
    Runs step (pure value : Fallible σ ε α) :=
  fun _ => .refl

theorem runs_fail
    (error : ε) :
    Runs step (fail error : Fallible σ ε α) :=
  fun _ => .refl

theorem runs_get : Runs step (get : Fallible σ ε σ) :=
  fun _ => .refl

theorem runs_lift
    (outcome : Except ε α) :
    Runs step (lift outcome : Fallible σ ε α) :=
  fun _ => .refl

theorem runs_modify
    {change : σ → σ}
    (steps : ∀ state, step state (change state)) :
    Runs step (modify change : Fallible σ ε Unit) :=
  fun state => .single (steps state)

theorem runs_bind
    {first : Fallible σ ε α}
    {next : α → Fallible σ ε β}
    (runs : Runs step first)
    (goes : ∀ value, Runs step (next value)) :
    Runs step (first >>= next) := by
  intro state
  have before := runs state
  rw [bind_apply]
  split
  next value after ran =>
    rw [ran] at before
    exact before.trans (goes value after)
  next error after ran =>
    rwa [ran] at before

theorem runs_mapError
    {action : Fallible σ ε α}
    (runs : Runs step action)
    (convert : ε → δ) :
    Runs step (mapError convert action) :=
  runs

theorem runs_attempt
    {action : Fallible σ ε α}
    (runs : Runs step action) :
    Runs step (attempt action : Fallible σ δ (Except ε α)) :=
  runs

/-- Steps of one kind are steps of a wider one. -/
theorem Runs.mono
    {wider : σ → σ → Prop}
    {action : Fallible σ ε α}
    (runs : Runs step action)
    (widens : ∀ state after, step state after → wider state after) :
    Runs wider action :=
  fun state => Relation.ReflTransGen.mono widens _ _ (runs state)

/-- What every step keeps, the computation keeps. -/
theorem Runs.invariant
    {motive : σ → Prop}
    {action : Fallible σ ε α}
    (runs : Runs step action)
    (keeps : ∀ {state after : σ}, step state after → motive state → motive after)
    {state : σ}
    (holds : motive state) :
    motive (action state).2 := by
  have steps := runs state
  generalize (action state).2 = after at steps
  induction steps with
  | refl => exact holds
  | tail _ moved inductionHypothesis => exact keeps moved inductionHypothesis

end Runs

/-! ## What a computation upholds -/

/-- Whatever its outcome, `action` leads from states of `motive` to such
states. -/
def Upholds (motive : σ → Prop) (action : Fallible σ ε α) : Prop :=
  ∀ state, motive state → motive (action state).2

section Upholds

variable {motive : σ → Prop}

theorem upholds_pure
    (value : α) :
    Upholds motive (pure value : Fallible σ ε α) :=
  fun _ holds => holds

theorem upholds_fail
    (error : ε) :
    Upholds motive (fail error : Fallible σ ε α) :=
  fun _ holds => holds

theorem upholds_lift
    (outcome : Except ε α) :
    Upholds motive (lift outcome : Fallible σ ε α) :=
  fun _ holds => holds

theorem upholds_modify
    {change : σ → σ}
    (upholds : ∀ state, motive state → motive (change state)) :
    Upholds motive (modify change : Fallible σ ε Unit) :=
  upholds

/-- What is read of a state is read of one that `motive` holds of. -/
theorem upholds_get_bind
    {next : σ → Fallible σ ε β}
    (goes : ∀ state, motive state → Upholds motive (next state)) :
    Upholds motive (get >>= next) :=
  fun state holds => goes state holds state holds

theorem upholds_bind
    {first : Fallible σ ε α}
    {next : α → Fallible σ ε β}
    (upholds : Upholds motive first)
    (goes : ∀ value, Upholds motive (next value)) :
    Upholds motive (first >>= next) := by
  intro state holds
  have before := upholds state holds
  rw [bind_apply]
  split
  next value after runs =>
    rw [runs] at before
    exact goes value after before
  next error after runs =>
    rwa [runs] at before

/-- What is known of an outcome is known of its value. -/
theorem upholds_lift_bind
    {outcome : Except ε α}
    {next : α → Fallible σ ε β}
    (goes : ∀ value, outcome = .ok value → Upholds motive (next value)) :
    Upholds motive (lift outcome >>= next) := by
  cases outcome with
  | error failure => exact upholds_fail failure
  | ok value => exact goes value rfl

theorem upholds_attempt
    {action : Fallible σ ε α}
    (upholds : Upholds motive action) :
    Upholds motive (attempt action : Fallible σ δ (Except ε α)) :=
  upholds

theorem Upholds.of_eq
    {action : Fallible σ ε α}
    (upholds : Upholds motive action)
    {state after : σ}
    (holds : motive state)
    {outcome : Except ε α}
    (runs : action state = (outcome, after)) :
    motive after := by
  have held := upholds state holds
  rwa [runs] at held

end Upholds

/-! ## What a failure says -/

/-- Where `outcome` is a failure, `told` holds of it. -/
def FailsAs (told : ε → Prop) (outcome : Except ε α) : Prop :=
  ∀ error, outcome = .error error → told error

section FailsAs

variable {told : ε → Prop}

theorem failsAs_ok
    (value : α) :
    FailsAs told (.ok value : Except ε α) :=
  fun _ failed => nomatch failed

theorem failsAs_error
    {error : ε}
    (said : told error) :
    FailsAs told (.error error : Except ε α) :=
  fun _ failed => Except.error.inj failed ▸ said

theorem failsAs_bind
    {first : Except ε α}
    {next : α → Except ε β}
    (fails : FailsAs told first)
    (goes : ∀ value, first = .ok value → FailsAs told (next value)) :
    FailsAs told (first >>= next) := by
  cases first with
  | error failure => exact failsAs_error (fails failure rfl)
  | ok value => exact goes value rfl

theorem failsAs_mapError
    {toldAfter : δ → Prop}
    {convert : ε → δ}
    {outcome : Except ε α}
    (fails : FailsAs told outcome)
    (converts : ∀ error, told error → toldAfter (convert error)) :
    FailsAs toldAfter (outcome.mapError convert) := by
  cases outcome with
  | error failure => exact failsAs_error (converts failure (fails failure rfl))
  | ok value => exact failsAs_ok value

end FailsAs

/-! ## What a computation upholds, and what its failure says -/

/-- Whatever its outcome, `action` leads from states of `motive` to such
states, and `told` holds of its failure. -/
structure Confines
    (motive : σ → Prop)
    (told : ε → Prop)
    (action : Fallible σ ε α) : Prop where
  upholds : Upholds motive action
  fails : ∀ state, motive state → FailsAs told (action state).1

section Confines

variable {motive : σ → Prop} {told : ε → Prop}

theorem confines_pure
    (value : α) :
    Confines motive told (pure value : Fallible σ ε α) :=
  ⟨upholds_pure value, fun _ _ => failsAs_ok value⟩

theorem confines_fail
    {error : ε}
    (said : told error) :
    Confines motive told (fail error : Fallible σ ε α) :=
  ⟨upholds_fail error, fun _ _ => failsAs_error said⟩

theorem confines_modify
    {change : σ → σ}
    (upholds : ∀ state, motive state → motive (change state)) :
    Confines motive told (modify change : Fallible σ ε Unit) :=
  ⟨upholds_modify upholds, fun _ _ => failsAs_ok ()⟩

theorem confines_get_bind
    {next : σ → Fallible σ ε β}
    (goes : ∀ state, motive state → Confines motive told (next state)) :
    Confines motive told (get >>= next) :=
  ⟨upholds_get_bind fun state holds => (goes state holds).upholds,
    fun state holds => (goes state holds).fails state holds⟩

theorem confines_bind
    {first : Fallible σ ε α}
    {next : α → Fallible σ ε β}
    (confines : Confines motive told first)
    (goes : ∀ value, Confines motive told (next value)) :
    Confines motive told (first >>= next) := by
  refine ⟨upholds_bind confines.upholds fun value => (goes value).upholds, ?_⟩
  intro state holds
  have after := confines.upholds state holds
  have fails := confines.fails state holds
  rw [bind_apply]
  split
  next value reached runs =>
    rw [runs] at after
    exact (goes value).fails reached after
  next error reached runs =>
    rw [runs] at fails
    exact failsAs_error (fails error rfl)

theorem confines_mapError
    {toldAfter : δ → Prop}
    {convert : ε → δ}
    {action : Fallible σ ε α}
    (confines : Confines motive told action)
    (converts : ∀ error, told error → toldAfter (convert error)) :
    Confines motive toldAfter (mapError convert action) :=
  ⟨confines.upholds, fun state holds =>
    failsAs_mapError (confines.fails state holds) converts⟩

/-- An attempt goes on with what its failure says. -/
theorem upholds_attempt_bind
    {action : Fallible σ ε α}
    {next : Except ε α → Fallible σ δ β}
    (confines : Confines motive told action)
    (goes : ∀ outcome, FailsAs told outcome →
      Upholds motive (next outcome)) :
    Upholds motive (attempt action >>= next) :=
  fun state holds => goes (action state).1 (confines.fails state holds)
    (action state).2 (confines.upholds state holds)

end Confines

end Fallible
end XmipNet

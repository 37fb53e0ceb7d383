import XmipNet.NetError
import Mathlib.Data.List.Basic

/-!
# A connection to a peer

Every address the peer's name resolves to is tried in turn within one deadline,
and the first that accepts is the connection. What is tried is the beginning of
the addresses, each with the time that is left; whatever is answered, the last
address tried decides.
-/

namespace XmipNet
namespace Connect

variable {α σ : Type}

/-- What becomes of an attempt on one address with so much time, and what the
clock shows before each attempt, counted from the first. -/
structure Network (α σ : Type) where
  clock : Nat → Nat
  attempt : Nat → α → Option Nat → Except IoError σ
  settle : σ → Option Nat → Except IoError Unit

/-- The time an attempt may take: none where the deadline has passed. -/
def left (network : Network α σ) (deadline : Option Nat) (turn : Nat) :
    Option (Option Nat) :=
  match deadline with
  | none => some none
  | some deadline =>
      if network.clock turn < deadline then
        some (some (deadline - network.clock turn))
      else
        none

/-- The addresses tried from `turn` on, each with the time it was given, and the
stream of the one that accepted or the last failure. -/
def tries (network : Network α σ) (deadline : Option Nat) :
    Nat → Option IoError → List α →
      List (α × Option Nat) × Except (Option IoError) σ
  | _, last, [] => ([], .error last)
  | turn, last, address :: rest =>
      match left network deadline turn with
      | none => ([], .error last)
      | some within =>
          match network.attempt turn address within with
          | .ok stream => ([(address, within)], .ok stream)
          | .error failed =>
              let later := tries network deadline (turn + 1) (some failed) rest
              ((address, within) :: later.1, later.2)

/-- The failure of a peer that did not answer in time. -/
def timedOut : IoError where
  kind := .timedOut
  text := "timed out"

/-- Why none of the addresses was connected to, by the last failure. -/
def reason (last : Option IoError) (addresses : List α) : NetError :=
  match last, addresses with
  | _, [] => .new "the peer's name resolves to no address"
  | some failed, _ :: _ => .fromIo "connecting to the peer" failed
  | none, _ :: _ => .fromIo "connecting to the peer" timedOut

/-- A connection to the first of the addresses `resolved` that accepts one, all of
them tried within `timeout` of `start` together. -/
def connect
    (network : Network α σ)
    (resolved : Except IoError (List α))
    (timeout : Option Nat)
    (start : Nat) : Except NetError σ :=
  match resolved with
  | .error failed => .error (.fromIo "resolving the peer" failed)
  | .ok addresses =>
      match (tries network (timeout.map (start + ·)) 0 none addresses).2 with
      | .ok stream =>
          match network.settle stream timeout with
          | .ok () => .ok stream
          | .error failed => .error (.fromIo "setting the timeouts" failed)
      | .error last => .error (reason last addresses)

/-! ## What is tried -/

/-- The time given to the attempt `turn`, where it is made. -/
def given (network : Network α σ) (deadline : Option Nat) (turn : Nat) :
    Option Nat :=
  deadline.map (· - network.clock turn)

/-- An attempt is made where there is no deadline or it has not passed. -/
def Open (network : Network α σ) (deadline : Option Nat) (turn : Nat) : Prop :=
  ∀ limit, deadline = some limit → network.clock turn < limit

section Tries

variable {network : Network α σ} {deadline : Option Nat}

theorem open_of_left
    {turn : Nat}
    {within : Option Nat}
    (gives : left network deadline turn = some within) :
    Open network deadline turn ∧ within = given network deadline turn := by
  cases deadline with
  | none =>
      cases gives
      exact ⟨fun limit none => (by cases none), rfl⟩
  | some limit =>
      rw [left] at gives
      split at gives
      next before =>
        cases gives
        refine ⟨?_, rfl⟩
        rintro _ ⟨⟩
        exact before
      · cases gives

theorem passed_of_left
    {turn : Nat}
    (none : left network deadline turn = none) :
    ∃ limit, deadline = some limit ∧ limit ≤ network.clock turn := by
  cases deadline with
  | none => cases none
  | some limit =>
      rw [left] at none
      split at none
      · cases none
      next passed => exact ⟨limit, rfl, Nat.not_lt.mp passed⟩

/-- The attempt `turn` on an address failed so. -/
def Fails
    (network : Network α σ)
    (deadline : Option Nat)
    (turn : Nat)
    (address : α)
    (failed : IoError) : Prop :=
  network.attempt turn address (given network deadline turn) = .error failed

/-- How trying some addresses from `turn` on ended: at the first that accepted, or
with all of them, or as many as there was time for, having failed. -/
inductive Ended (network : Network α σ) (deadline : Option Nat) (turn : Nat)
    (last : Option IoError) (addresses : List α) (count : Nat) :
    Except (Option IoError) σ → Prop
  | accepted {index : Nat} {address : α} {stream : σ}
      (number : count = index + 1)
      (there : addresses[index]? = some address)
      (accepts : network.attempt (turn + index) address
        (given network deadline (turn + index)) = .ok stream)
      (before : ∀ (earlier : Nat) other, earlier < index →
        addresses[earlier]? = some other →
          ∃ failed, Fails network deadline (turn + earlier) other failed) :
      Ended network deadline turn last addresses count (.ok stream)
  | untried
      (number : count = 0)
      (whole : addresses = [] ∨ ¬Open network deadline turn) :
      Ended network deadline turn last addresses count (.error last)
  | failed {index : Nat} {address : α} {failure : IoError}
      (number : count = index + 1)
      (there : addresses[index]? = some address)
      (fails : Fails network deadline (turn + index) address failure)
      (before : ∀ (earlier : Nat) other, earlier < index →
        addresses[earlier]? = some other →
          ∃ failed, Fails network deadline (turn + earlier) other failed)
      (whole : count = addresses.length ∨
        ¬Open network deadline (turn + count)) :
      Ended network deadline turn last addresses count (.error (some failure))

/-- One more address that failed before the others. -/
theorem Ended.after
    {turn count : Nat}
    {address : α}
    {rest : List α}
    {last : Option IoError}
    {failure : IoError}
    {result : Except (Option IoError) σ}
    (fails : Fails network deadline turn address failure)
    (ended : Ended network deadline (turn + 1) (some failure) rest count
      result) :
    Ended network deadline turn last (address :: rest) (count + 1) result := by
  have shift (index : Nat) : turn + 1 + index = turn + (index + 1) := by omega
  have earlier {index : Nat}
      (before : ∀ (earlier : Nat) other, earlier < index →
        rest[earlier]? = some other →
          ∃ failed, Fails network deadline (turn + 1 + earlier) other failed)
      (place : Nat)
      (other : α)
      (within : place < index + 1)
      (there : (address :: rest)[place]? = some other) :
      ∃ failed, Fails network deadline (turn + place) other failed := by
    cases place with
    | zero =>
        cases there
        exact ⟨failure, fails⟩
    | succ place =>
        obtain ⟨failed, first⟩ :=
          before place other (Nat.lt_of_succ_lt_succ within) there
        rw [shift] at first
        exact ⟨failed, first⟩
  cases ended with
  | @accepted index there stream number found accepts before =>
      rw [shift] at accepts
      exact .accepted (congrArg (· + 1) number) found accepts (earlier before)
  | untried number whole =>
      rw [number]
      refine .failed rfl rfl fails ?_ ?_
      · intro place other none
        exact absurd none (Nat.not_lt_zero place)
      · rcases whole with rfl | passed
        · exact Or.inl rfl
        · exact Or.inr passed
  | @failed index there other number found last before whole =>
      rw [Fails, shift] at last
      refine .failed (congrArg (· + 1) number) found last (earlier before) ?_
      rcases whole with all | passed
      · exact Or.inl (congrArg (· + 1) all)
      · rw [shift] at passed
        exact Or.inr passed

/-- What is tried is the beginning of the addresses, each with the time left of
one deadline that has not passed, and how that ends. -/
theorem tries_ended
    (network : Network α σ)
    (deadline : Option Nat)
    (addresses : List α)
    (turn : Nat)
    (last : Option IoError) :
    let tried := (tries network deadline turn last addresses).1
    tried = (addresses.take tried.length).mapIdx (fun index address =>
        (address, given network deadline (turn + index))) ∧
      (∀ index < tried.length, Open network deadline (turn + index)) ∧
      Ended network deadline turn last addresses tried.length
        (tries network deadline turn last addresses).2 := by
  induction addresses generalizing turn last with
  | nil =>
      exact ⟨rfl, fun index none => absurd none (Nat.not_lt_zero index),
        .untried rfl (Or.inl rfl)⟩
  | cons address rest inductionHypothesis =>
      rw [tries]
      split
      next passed =>
        obtain ⟨limit, is, after⟩ := passed_of_left passed
        refine ⟨rfl, fun index none => absurd none (Nat.not_lt_zero index),
          .untried rfl (Or.inr fun unpassed => ?_)⟩
        exact absurd (unpassed limit is) (Nat.not_lt.mpr after)
      next within gives =>
        obtain ⟨unpassed, rfl⟩ := open_of_left gives
        split
        next stream accepts =>
          refine ⟨rfl, fun index first => ?_, ?_⟩
          · rw [Nat.lt_one_iff.mp first]
            exact unpassed
          · refine .accepted rfl rfl accepts ?_
            intro place other none
            exact absurd none (Nat.not_lt_zero place)
        next failed fails =>
          obtain ⟨order, unpast, ended⟩ := inductionHypothesis (turn + 1)
            (some failed)
          refine ⟨?_, fun index first => ?_, ended.after fails⟩
          · rw [List.length_cons, List.take_succ_cons, List.mapIdx_cons]
            refine congrArg₂ _ rfl (order.trans ?_)
            congr 1
            funext index other
            rw [Nat.add_assoc, Nat.add_comm 1]
          · cases index with
            | zero => exact unpassed
            | succ index =>
                have later := unpast index (Nat.lt_of_succ_lt_succ first)
                rwa [Nat.add_assoc, Nat.add_comm 1] at later

end Tries

/-- Every address is tried in turn, each in the time that is left of one deadline,
up to the first that accepts: the connection is that one, its timeouts set, or the
failure is that of the last address tried, or says that there was none, or that
there was no time. -/
theorem connect_ended
    (network : Network α σ)
    (addresses : List α)
    (timeout : Option Nat)
    (start : Nat) :
    let deadline := timeout.map (start + ·)
    let tried := (tries network deadline 0 none addresses).1
    tried = (addresses.take tried.length).mapIdx (fun index address =>
        (address, given network deadline index)) ∧
      (∀ index < tried.length, Open network deadline index) ∧
      ((∃ stream,
        Ended network deadline 0 none addresses tried.length (.ok stream) ∧
          connect network (.ok addresses) timeout start =
            ((network.settle stream timeout).map fun _ => stream).mapError
              (.fromIo "setting the timeouts")) ∨
        (addresses = [] ∧ connect network (.ok addresses) timeout start =
          .error (.new "the peer's name resolves to no address")) ∨
        (addresses ≠ [] ∧ ¬Open network deadline 0 ∧
          connect network (.ok addresses) timeout start =
            .error (.fromIo "connecting to the peer" timedOut)) ∨
        ∃ failure, Ended network deadline 0 none addresses tried.length
            (.error (some failure)) ∧
          connect network (.ok addresses) timeout start =
            .error (.fromIo "connecting to the peer" failure)) := by
  intro deadline tried
  obtain ⟨order, unpassed, ended⟩ :=
    tries_ended network deadline addresses 0 none
  simp only [Nat.zero_add] at order unpassed
  refine ⟨order, unpassed, ?_⟩
  cases result : (tries network deadline 0 none addresses).2 with
  | ok stream =>
      rw [result] at ended
      refine Or.inl ⟨stream, ended, ?_⟩
      have same : (tries network (timeout.map (start + ·)) 0 none addresses).2 =
        .ok stream := result
      simp only [connect, same]
      cases network.settle stream timeout <;> rfl
  | error last =>
      rw [result] at ended
      have same : (tries network (timeout.map (start + ·)) 0 none addresses).2 =
        .error last := result
      have fails : connect network (.ok addresses) timeout start =
          .error (reason last addresses) := by
        simp only [connect, same]
      cases ended with
      | untried number whole =>
          refine Or.inr ?_
          cases addresses with
          | nil => exact Or.inl ⟨rfl, fails⟩
          | cons address rest =>
              have late := whole.resolve_left (List.cons_ne_nil _ _)
              exact Or.inr (Or.inl ⟨List.cons_ne_nil _ _, late, fails⟩)
      | @failed index address failure number there reason before whole =>
          refine Or.inr (Or.inr (Or.inr ⟨failure,
            .failed number there reason before whole, ?_⟩))
          cases addresses with
          | nil => cases there
          | cons address rest => exact fails

end Connect
end XmipNet

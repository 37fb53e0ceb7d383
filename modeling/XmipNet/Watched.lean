import XmipNet.Foundation.Transcript
import XmipNet.Source

/-!
# A connection read until its side ends or its peer falls silent

The connection's own reads wait a short time; one that waited that long with
nothing come is tried again, unless its side is ending or the peer has said
nothing for longer than it may. To its reader the connection is the one without
the waits, but for the reads that were given up: nothing is lost by either.
-/

namespace XmipNet

/-- Whether a read failed for having waited with nothing come. -/
def IoError.Waited (error : IoError) : Prop :=
  error.kind = .wouldBlock ∨ error.kind = .timedOut

instance (error : IoError) : Decidable error.Waited := by
  unfold IoError.Waited
  infer_instance

/-- A connection read until `ending` says its side ends or, where `silence` is
given, the peer says nothing for that long. What `ending` says and what the clock
shows are told by how often the connection was read. -/
structure Watched (σ : Type) where
  reading : σ
  ending : Nat → Bool
  silence : Option Nat
  heard : Nat
  clock : Nat → Nat
  turn : Nat

namespace Watched

open Transcript (Amid map_fst_transcript transcript transcript_amid)

variable {σ : Type}

/-- `reading`, watched for `ending`, the peer never taken for silent. -/
def new (reading : σ) (ending : Nat → Bool) (clock : Nat → Nat) :
    Watched σ where
  reading
  ending
  silence := none
  heard := clock 0
  clock
  turn := 0

/-- Whether, at the look after the read number `turn`, the peer has said nothing
for longer than it may. -/
def silentAt (watched : Watched σ) (turn : Nat) : Bool :=
  match watched.silence with
  | some silence => decide (silence < watched.clock turn - watched.heard)
  | none => false

/-- The failure of a read whose side is ending. -/
def aborted : IoError where
  kind := .connectionAborted
  text := "connection aborted"

/-- The failure of a read whose peer fell silent. -/
def fellSilent : IoError where
  kind := .timedOut
  text := "the peer fell silent"

/-- What is left after a read of the connection that gave nothing. -/
def waited (watched : Watched σ) (left : σ) : Watched σ :=
  { watched with reading := left, turn := watched.turn + 1 }

/-- What is left after a read of the connection that said something. -/
def spoken (watched : Watched σ) (left : σ) : Watched σ :=
  { watched.waited left with heard := watched.clock watched.turn }

/-- One read into at most `room` octets. -/
def read [Source σ] (room : Nat) (watched : Watched σ) :
    Except IoError (List UInt8) × Watched σ :=
  match _reads : Source.read room watched.reading with
  | (.error error, left) =>
      if error.Waited then
        if watched.ending watched.turn then
          (.error aborted, watched.waited left)
        else if watched.silentAt watched.turn then
          (.error fellSilent, watched.waited left)
        else
          read room (watched.waited left)
      else
        (.error error, watched.spoken left)
  | (.ok piece, left) => (.ok piece, watched.spoken left)
termination_by Source.size watched.reading
decreasing_by exact Source.size_of_failed _reads

/-! ## What one read does -/

/-- The connection's arrivals without the waits. -/
def calm (incoming : List Arrival) : List Arrival :=
  incoming.filter fun
    | .octets _ => true
    | .failed error => ¬error.Waited

/-- The looks from the next one up to another found neither an ending side nor a
silent peer. -/
def Patient (watched : Watched σ) (upto : Nat) : Prop :=
  ∀ turn, watched.turn ≤ turn → turn < upto →
    watched.ending turn = false ∧ watched.silentAt turn = false

/-- How a read into `room` octets ends: with what the connection without the
waits answers, or given up at the first look that found its side ending or its
peer silent. -/
inductive Settles (room : Nat) (watched : Watched (List Arrival)) :
    Except IoError (List UInt8) × Watched (List Arrival) → Prop
  | answered {turn : Nat} {left : List Arrival}
      {answer : Except IoError (List UInt8)}
      (onward : watched.turn ≤ turn)
      (patient : watched.Patient turn)
      (reads : Wire.receive room (calm watched.reading) = (answer, calm left)) :
      Settles room watched (answer, { watched with
        reading := left, turn := turn + 1, heard := watched.clock turn })
  | ended {turn : Nat} {left : List Arrival}
      (onward : watched.turn ≤ turn)
      (patient : watched.Patient turn)
      (ending : watched.ending turn = true)
      (same : calm left = calm watched.reading) :
      Settles room watched (.error aborted, { watched with
        reading := left, turn := turn + 1 })
  | silent {turn : Nat} {left : List Arrival}
      (onward : watched.turn ≤ turn)
      (patient : watched.Patient turn)
      (lasting : watched.ending turn = false)
      (silence : watched.silentAt turn = true)
      (same : calm left = calm watched.reading) :
      Settles room watched (.error fellSilent, { watched with
        reading := left, turn := turn + 1 })

section Read

variable {room turn : Nat} {incoming left : List Arrival} {error : IoError}
  {watched : Watched (List Arrival)}

theorem receive_error_iff :
    Wire.receive room incoming = (.error error, left) ↔
      incoming = .failed error :: left := by
  constructor
  · intro fails
    cases incoming with
    | nil => cases fails
    | cons arrival rest =>
        cases arrival with
        | failed failure =>
            cases fails
            rfl
        | octets piece =>
            rw [Wire.receive, Reader.receive] at fails
            simp only [Reader.new] at fails
            split at fails <;> cases fails
  · rintro rfl
    rfl

theorem calm_of_waited
    (fails : Wire.receive room incoming = (.error error, left))
    (waits : error.Waited) :
    calm incoming = calm left := by
  rw [receive_error_iff.mp fails]
  exact List.filter_cons_of_neg (by simpa using waits)

/-- A read that did not wait is a read of the connection without the waits. -/
theorem receive_calm
    {answer : Except IoError (List UInt8)}
    (reads : Wire.receive room incoming = (answer, left))
    (once : ∀ error, answer = .error error → ¬error.Waited) :
    Wire.receive room (calm incoming) = (answer, calm left) := by
  cases incoming with
  | nil =>
      cases reads
      rfl
  | cons arrival rest =>
      cases arrival with
      | failed failure =>
          cases reads
          have kept : calm (.failed failure :: rest) =
              .failed failure :: calm rest :=
            List.filter_cons_of_pos (by simpa using once failure rfl)
          rw [kept]
          rfl
      | octets piece =>
          have kept (octets : List UInt8) : calm (.octets octets :: rest) =
              .octets octets :: calm rest :=
            List.filter_cons_of_pos rfl
          rw [kept]
          rw [Wire.receive, Reader.receive] at reads ⊢
          simp only [Reader.new] at reads ⊢
          split at reads
          next fits =>
            cases reads
            rw [if_pos fits]
          next large =>
            cases reads
            rw [if_neg large, kept]

theorem Patient.refl (watched : Watched σ) : watched.Patient watched.turn :=
  fun _ onward before => absurd before (Nat.not_lt.mpr onward)

/-- A look that found nothing, and those after it. -/
theorem Patient.step
    (looked : watched.ending watched.turn = false ∧
      watched.silentAt watched.turn = false)
    (patient : (watched.waited left).Patient turn) :
    watched.Patient turn := by
  intro look onward before
  rcases Nat.eq_or_lt_of_le onward with rfl | later
  · exact looked
  · exact patient look later before

/-- A wait that was looked past is no part of the read. -/
theorem Settles.onward
    {result : Except IoError (List UInt8) × Watched (List Arrival)}
    (looked : watched.ending watched.turn = false ∧
      watched.silentAt watched.turn = false)
    (same : calm watched.reading = calm left)
    (settles : Settles room (watched.waited left) result) :
    Settles room watched result := by
  cases settles with
  | answered onward patient reads =>
      refine .answered (Nat.le_of_succ_le onward) (patient.step looked) ?_
      rw [same]
      exact reads
  | ended onward patient ending left =>
      exact .ended (Nat.le_of_succ_le onward) (patient.step looked) ending
        (left.trans same.symm)
  | silent onward patient lasting silence left =>
      exact .silent (Nat.le_of_succ_le onward) (patient.step looked) lasting
        silence (left.trans same.symm)

theorem settles_read
    (room : Nat)
    (watched : Watched (List Arrival)) :
    Settles room watched (watched.read room) := by
  have start := Nat.le_refl watched.turn
  fun_induction read room watched with
  | case1 watched error left reads waits ending =>
      exact .ended start (.refl watched) ending (calm_of_waited reads waits).symm
  | case2 watched error left reads waits lasting silence =>
      exact .silent start (.refl watched) (Bool.eq_false_iff.mpr lasting) silence
        (calm_of_waited reads waits).symm
  | case3 watched error left reads waits lasting spoke inductionHypothesis =>
      have looked : watched.ending watched.turn = false ∧
          watched.silentAt watched.turn = false :=
        ⟨Bool.eq_false_iff.mpr lasting, Bool.eq_false_iff.mpr spoke⟩
      exact .onward looked (calm_of_waited reads waits)
        (inductionHypothesis (Nat.le_refl _))
  | case4 watched error left reads other =>
      refine .answered start (.refl watched) (receive_calm reads ?_)
      rintro failure ⟨⟩
      exact other
  | case5 watched piece left reads =>
      refine .answered start (.refl watched) (receive_calm reads ?_)
      rintro failure ⟨⟩

end Read

/-! ## What any run of reads does -/

/-- A state reached from `watched` by reads of it that stands where the
connection without the waits does. -/
structure Follows (watched : Watched (List Arrival))
    (after : Watched (List Arrival)) (left : List Arrival) : Prop where
  reading : calm after.reading = left
  ending : after.ending = watched.ending
  silence : after.silence = watched.silence
  clock : after.clock = watched.clock
  onward : watched.turn ≤ after.turn
  heard : after.heard = watched.heard ∨
    ∃ turn, watched.turn ≤ turn ∧ turn < after.turn ∧
      after.heard = watched.clock turn

/-- A read that was given up: its side was ending, or the peer had said nothing
for longer than it may, since the watch began or since it last did. -/
def GivenUp (watched : Watched (List Arrival))
    (entry : Nat × Except IoError (List UInt8)) : Prop :=
  (entry.2 = .error aborted ∧
    ∃ turn, watched.turn ≤ turn ∧ watched.ending turn = true) ∨
  (entry.2 = .error fellSilent ∧
    ∃ silence since turn, watched.silence = some silence ∧
      watched.turn ≤ turn ∧
      (since = watched.heard ∨
        ∃ earlier, watched.turn ≤ earlier ∧ earlier < turn ∧
          since = watched.clock earlier) ∧
      silence < watched.clock turn - since)

section Run

variable {watched after : Watched (List Arrival)} {left : List Arrival}

theorem Follows.refl (watched : Watched (List Arrival)) :
    Follows watched watched (calm watched.reading) where
  reading := rfl
  ending := rfl
  silence := rfl
  clock := rfl
  onward := Nat.le_refl _
  heard := Or.inl rfl

/-- Why a peer was taken for silent. -/
theorem Follows.silent
    (follows : Follows watched after left)
    {turn : Nat}
    (onward : after.turn ≤ turn)
    (silence : after.silentAt turn = true)
    (room : Nat) :
    GivenUp watched (room, .error fellSilent) := by
  rw [silentAt, follows.silence, follows.clock] at silence
  split at silence
  next most given =>
    refine Or.inr ⟨rfl, most, after.heard, turn, given,
      follows.onward.trans onward, ?_, of_decide_eq_true silence⟩
    rcases follows.heard with same | ⟨earlier, from_, before, same⟩
    · exact Or.inl same
    · exact Or.inr ⟨earlier, from_, before.trans_le onward, same⟩
  · cases silence

/-- A read that was given up leaves the connection without the waits as it was. -/
theorem Follows.waited
    (follows : Follows watched after left)
    {turn : Nat}
    {rest : List Arrival}
    (onward : after.turn ≤ turn)
    (same : calm rest = calm after.reading) :
    Follows watched { after with reading := rest, turn := turn + 1 } left where
  reading := same.trans follows.reading
  ending := follows.ending
  silence := follows.silence
  clock := follows.clock
  onward := (follows.onward.trans onward).trans (Nat.le_succ turn)
  heard := by
    rcases follows.heard with unheard | ⟨earlier, since, before, same⟩
    · exact Or.inl unheard
    · have later := before.trans_le (onward.trans (Nat.le_succ turn))
      exact Or.inr ⟨earlier, since, later, same⟩

/-- One read answers as the connection without the waits, or is given up and
leaves it where it was. -/
theorem Follows.read
    (follows : Follows watched after left)
    (room : Nat) :
    ((after.read room).1 = (Wire.receive room left).1 ∧
      Follows watched (after.read room).2 (Wire.receive room left).2) ∨
    (GivenUp watched (room, (after.read room).1) ∧
      Follows watched (after.read room).2 left) := by
  have settles := settles_read room after
  generalize after.read room = result at settles
  cases settles with
  | @answered turn rest answer onward patient reads =>
      rw [follows.reading] at reads
      rw [reads]
      have later := follows.onward.trans onward
      exact Or.inl ⟨rfl, rfl, follows.ending, follows.silence, follows.clock,
        later.trans (Nat.le_succ turn), Or.inr ⟨turn, later,
          Nat.lt_succ_self turn, congrFun follows.clock turn⟩⟩
  | @ended turn rest onward patient ending same =>
      refine Or.inr ⟨Or.inl ⟨rfl, turn, follows.onward.trans onward, ?_⟩,
        follows.waited onward same⟩
      rw [← follows.ending]
      exact ending
  | silent onward patient lasting silence same =>
      exact Or.inr ⟨follows.silent onward silence room,
        follows.waited onward same⟩

/-- A read that begins once its side is ending looks once. -/
theorem turn_read_le
    {since : Nat}
    (ending : ∀ turn, since ≤ turn → watched.ending turn = true)
    (room : Nat) :
    (watched.read room).2.turn ≤ max since watched.turn + 1 ∧
      (watched.read room).2.ending = watched.ending := by
  have looks {turn : Nat} (patient : watched.Patient turn) :
      turn ≤ max since watched.turn := by
    by_contra later
    obtain ⟨lasting, _⟩ := patient (max since watched.turn)
      (Nat.le_max_right _ _) (Nat.not_le.mp later)
    rw [ending _ (Nat.le_max_left _ _)] at lasting
    cases lasting
  have settles := settles_read room watched
  generalize watched.read room = result at settles
  cases settles with
  | answered _ patient _ => exact ⟨Nat.succ_le_succ (looks patient), rfl⟩
  | ended _ patient _ _ => exact ⟨Nat.succ_le_succ (looks patient), rfl⟩
  | silent _ patient _ _ _ => exact ⟨Nat.succ_le_succ (looks patient), rfl⟩

theorem turn_transcript_le
    {since : Nat}
    (ending : ∀ turn, since ≤ turn → watched.ending turn = true)
    (rooms : List Nat) :
    (transcript read rooms watched).2.turn ≤
      max since watched.turn + rooms.length := by
  induction rooms generalizing watched with
  | nil => exact Nat.le_max_right _ _
  | cons room rooms inductionHypothesis =>
      obtain ⟨first, same⟩ := turn_read_le ending room
      rw [← same] at ending
      have later := inductionHypothesis ending
      rw [List.length_cons]
      refine later.trans ?_
      omega

/-- What one read does, every run of reads does. -/
theorem transcript_calm
    (rooms : List Nat)
    (watched : Watched (List Arrival)) :
    ∃ answered,
      Amid (GivenUp watched) (transcript read rooms watched).1 answered ∧
        transcript Wire.receive (answered.map Prod.fst) (calm watched.reading) =
          (answered, calm (transcript read rooms watched).2.reading) := by
  obtain ⟨answered, amid, answers, follows⟩ :=
    @transcript_amid _ _ _ _ read Wire.receive (Follows watched)
      (GivenUp watched) (fun follows room => follows.read room) rooms watched _
      (Follows.refl watched)
  exact ⟨answered, amid, Prod.ext answers follows.reading.symm⟩

/-- Where nothing is given up, whatever reads are made are answered as if the
connection had never waited. -/
theorem transcript_of_lasting
    (lasting : ∀ turn, watched.turn ≤ turn → watched.ending turn = false)
    (unhurried : watched.silence = none)
    (rooms : List Nat) :
    transcript Wire.receive rooms (calm watched.reading) =
      ((transcript read rooms watched).1,
        calm (transcript read rooms watched).2.reading) := by
  obtain ⟨answered, amid, answers⟩ := transcript_calm rooms watched
  have whole : (transcript read rooms watched).1 = answered := by
    refine amid.eq_of_forall_not ?_
    rintro entry (⟨_, turn, onward, ending⟩ | ⟨_, silence, _, _, given, _⟩)
    · rw [lasting turn onward] at ending
      cases ending
    · rw [unhurried] at given
      cases given
  rw [← whole, map_fst_transcript] at answers
  exact answers

end Run

end Watched
end XmipNet

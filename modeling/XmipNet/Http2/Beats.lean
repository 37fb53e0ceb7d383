import XmipNet.Http2.Sight
import XmipNet.Http2.Turns

/-!
# Every action in beats

What either half of a connection does is made of beats: a frame read and
handled, a frame emitted, a piece of a body held and taken from both windows,
this side's half of a stream ended, a stream reset, a `GOAWAY`, and what does
not touch what is seen of the connection. Each beat moves the core by steps, and
what holds over every beat holds after every action.
-/

namespace XmipNet
namespace Http2
namespace Connection

open Fallible Core
open Hpack (Field)

/-- One beat of a connection. -/
inductive Beat : Connection → Connection → Prop
  /-- Octets were written or held, or a block was encoded. -/
  | aside {connection after : Connection}
      (same : after.sight = connection.sight) :
      Beat connection after
  /-- A frame was read and handled, if there was one. -/
  | pumped (connection : Connection) : Beat connection (pump connection).2
  /-- A frame was emitted of this side's own. -/
  | emitted (connection : Connection) {frame : Frame}
      (plain : frame.Plain)
      (own : frame.kind ≠ .windowUpdate) :
      Beat connection (emit frame connection).2
  /-- A piece of a body was held. -/
  | sent {connection : Connection} {id : Nat} {stream : Stream} {frame : Frame}
      (piece : Piece connection id stream frame)
      (bytes : List UInt8) :
      Beat connection (afterPiece connection id stream bytes frame)
  /-- This side ended its half of a stream. -/
  | endedLocally {connection : Connection} {id : Nat}
      (unended : Unended connection id) :
      Beat connection (connection.endLocally id)
  /-- This side reset a stream. -/
  | ended {connection : Connection} (id : Nat) {code : ErrorCode}
      (seen : connection.settingsSeen = true)
      (refuses : connection.client = true → code ≠ .refusedStream) :
      Beat connection (reset id code connection).2
  /-- This side went away. -/
  | leaving (connection : Connection) (code : ErrorCode) (debug : String) :
      Beat connection (goAway code debug connection).2

/-- Any number of beats. -/
abbrev Beats : Connection → Connection → Prop :=
  Relation.ReflTransGen Beat

theorem step_afterPiece
    {connection : Connection}
    {id : Nat}
    {stream : Stream}
    {frame : Frame}
    (piece : Piece connection id stream frame)
    (bytes : List UInt8) :
    Step connection.core (afterPiece connection id stream bytes frame).core :=
  .sent _ piece.kind piece.onStream piece.found piece.live piece.sized
    (Window.take_eq_ok_iff.mpr ⟨piece.inConnection, rfl⟩)
    (Window.take_eq_ok_iff.mpr ⟨piece.inStream, rfl⟩)

/-- A beat moves the core by steps. -/
theorem Beat.steps
    {connection after : Connection}
    (beat : Beat connection after)
    (waits : Waits connection.core) :
    Steps connection.core after.core := by
  cases beat with
  | aside same =>
      have cores : after.core = connection.core := congrArg Sight.core same
      rw [cores]
  | pumped => exact moves_pump waits
  | emitted plain own => exact moves_emit plain connection
  | sent piece bytes => exact .single (step_afterPiece piece bytes)
  | endedLocally unended => exact .single (.endedLocally _ _ unended)
  | ended id seen refuses => exact moves_reset seen refuses id
  | leaving code debug => exact moves_goAway code debug connection

theorem Beats.steps
    {connection after : Connection}
    (beats : Beats connection after)
    (waits : Waits connection.core) :
    Steps connection.core after.core := by
  induction beats with
  | refl => exact .refl
  | tail _ beat inductionHypothesis =>
      exact inductionHypothesis.trans
        (beat.steps (inductionHypothesis.waits waits))

/-! ## The actions -/

/-- An action is made of beats, whatever its outcome. -/
def Plays {α : Type} (action : Action α) (connection : Connection) : Prop :=
  Beats connection (action connection).2

section Plays

variable {α β : Type} {connection after : Connection}

theorem Plays.of_eq
    {action : Action α}
    (plays : Plays action connection)
    {outcome : Except NetError α}
    (runs : action connection = (outcome, after)) :
    Beats connection after := by
  rwa [Plays, runs] at plays

theorem Plays.moves
    {action : Action α}
    (plays : Plays action connection)
    (waits : Waits connection.core) :
    Moves action connection :=
  Beats.steps plays waits

theorem plays_of_keeps
    {action : Action α}
    (keeps : Keeps sight action)
    (connection : Connection) :
    Plays action connection :=
  .single (.aside (keeps connection))

theorem plays_bind
    {first : Action α}
    {next : α → Action β}
    (plays : Plays first connection)
    (goes : ∀ value after, first connection = (.ok value, after) →
      Plays (next value) after) :
    Plays (first >>= next) connection := by
  rw [Plays] at plays ⊢
  rw [bind_apply]
  split
  next value after runs =>
    rw [runs] at plays
    exact plays.trans (goes value after runs)
  next error after runs =>
    rwa [runs] at plays

theorem keeps_sight_release : Keeps sight release := by
  refine keeps_bind keeps_get fun connection => ?_
  split
  · exact keeps_pure _
  · exact keeps_pure _
  · refine keeps_bind (keeps_modify ?_) fun _ => ?_
    · exact fun _ => rfl
    · exact keeps_bind (fun _ => rfl) fun _ => fun _ => rfl

/-- How a stall ends: what was held could not be written, or it was and the next
frame was read, or could not be, or there was none. -/
inductive Stalled (connection : Connection) :
    Except NetError Unit → Connection → Prop
  | unwritten {failure : NetError} {released : Connection}
      (releases : release
        { connection with stalls := connection.stalls + 1 } =
          (.error failure, released))
      (same : released.sight = connection.sight) :
      Stalled connection (.error failure) released
  | broken {failure : NetError} {released after : Connection}
      (releases : release
        { connection with stalls := connection.stalls + 1 } =
          (.ok (), released))
      (same : released.sight = connection.sight)
      (reads : pump released = (.error failure, after)) :
      Stalled connection (.error failure) after
  | closed {released after : Connection}
      (releases : release
        { connection with stalls := connection.stalls + 1 } =
          (.ok (), released))
      (same : released.sight = connection.sight)
      (reads : pump released = (.ok false, after)) :
      Stalled connection
        (.error (.new "the connection closed while a window was shut")) after
  | read {released after : Connection}
      (releases : release
        { connection with stalls := connection.stalls + 1 } =
          (.ok (), released))
      (same : released.sight = connection.sight)
      (reads : pump released = (.ok true, after)) :
      Stalled connection (.ok ()) after

theorem stalled_of_stall
    {outcome : Except NetError Unit}
    (stalls : stall connection = (outcome, after)) :
    Stalled connection outcome after := by
  have kept := keeps_sight_release
    { connection with stalls := connection.stalls + 1 }
  rw [stall, modify_bind_apply, bind_apply] at stalls
  split at stalls
  next _ released releases =>
    rw [releases] at kept
    rw [bind_apply] at stalls
    rcases reads : pump released with ⟨failure | more, read⟩
    · rw [reads] at stalls
      cases stalls
      exact .broken releases kept reads
    · rw [reads] at stalls
      cases more with
      | true =>
          cases stalls
          exact .read releases kept reads
      | false =>
          cases stalls
          exact .closed releases kept reads
  next failure released releases =>
    rw [releases] at kept
    cases stalls
    exact .unwritten releases kept

theorem plays_pump (connection : Connection) : Plays pump connection :=
  .single (.pumped connection)

theorem own_pieceFrame
    (id : Nat)
    {kind : Kind}
    (block : kind = .headers ∨ kind = .continuation)
    (ends last : Bool)
    (piece : List UInt8) :
    (pieceFrame id kind ends last piece).kind ≠ .windowUpdate := by
  rcases block with rfl | rfl <;> exact Kind.noConfusion

theorem plays_emitPieces
    (id : Nat)
    (ends : Bool)
    {kind : Kind}
    (block : kind = .headers ∨ kind = .continuation)
    (cut : List (List UInt8))
    (connection : Connection) :
    Plays (emitPieces id ends kind cut) connection := by
  induction cut generalizing kind connection with
  | nil => exact .refl
  | cons piece rest inductionHypothesis =>
      refine plays_bind (.single (.emitted connection
        (plain_pieceFrame id block _ _ _) (own_pieceFrame id block _ _ _))) ?_
      intro _ after _
      exact inductionHypothesis (Or.inr rfl) after

/-- A header block is its frames, and the stream's end where it is asked
for. -/
theorem plays_sendHeaders
    {id : Nat}
    {ends : Bool}
    (unended : ends = true → Unended connection id)
    (fields : List Field) :
    Plays (sendHeaders id fields ends) connection := by
  refine plays_bind (.single (.aside rfl)) ?_
  rintro block encoded ⟨⟩
  refine plays_bind .refl ?_
  rintro current after ⟨⟩
  refine plays_bind (plays_emitPieces id ends (Or.inl rfl) _ _) ?_
  intro _ sent sends
  split
  next asked =>
    have kept := (keeps_streams_emitPieces _ _ _ _).of_eq sends
    refine .single (.endedLocally fun stream found => ?_)
    exact unended asked stream (kept ▸ found)
  · exact .refl

theorem plays_stall (connection : Connection) : Plays stall connection := by
  refine plays_bind (.single (.aside rfl)) ?_
  rintro _ counted ⟨⟩
  refine plays_bind (plays_of_keeps keeps_sight_release _) ?_
  intro _ released _
  refine plays_bind (plays_pump released) ?_
  intro more after _
  cases more <;> exact .refl

/-- One turn is a stall or a piece. -/
theorem plays_sendStep
    (held : connection.held.isSome = true)
    {rest : List UInt8}
    (nonempty : rest ≠ [])
    (id : Nat)
    (ends : Bool) :
    Plays (sendStep id ends rest) connection := by
  obtain ⟨bytes, held⟩ := Option.isSome_iff_exists.mp held
  cases opens : connection.openWindow id with
  | error failure =>
      rw [Plays, sendStep_of_refused opens]
  | ok available =>
      by_cases shut : min connection.remoteSettings.maxFrameSize available = 0
      · rw [Plays, sendStep_of_shut opens shut nonempty]
        refine plays_bind (plays_stall connection) ?_
        intro _ _ _
        exact .refl
      · obtain ⟨stream, piece, runs⟩ :=
          sendStep_of_open held opens shut nonempty ends
        rw [Plays, runs]
        exact .single (.sent piece bytes)

theorem plays_sendLoop
    (held : connection.held.isSome = true)
    {rest : List UInt8}
    (nonempty : rest ≠ [])
    (id : Nat)
    (ends : Bool) :
    Plays (sendLoop id ends rest) connection := by
  rw [Plays, sendLoop]
  fun_induction sendFrom id ends rest connection with
  | case1 rest connection failure after runs =>
      exact (plays_sendStep held nonempty id ends).of_eq runs
  | case2 rest connection after runs =>
      exact (plays_sendStep held nonempty id ends).of_eq runs
  | case3 rest connection later after runs inductionHypothesis =>
      have kept := (keeps_steady_sendStep id ends rest).of_eq runs
      exact ((plays_sendStep held nonempty id ends).of_eq runs).trans
        (inductionHypothesis ((held_of_steady kept).trans held)
          (nonempty_of_sendStep nonempty runs))

/-- A body is its pieces and stalls, and the stream's end where it is asked
for. -/
theorem plays_sendData
    (held : connection.held.isSome = true)
    {body : List UInt8}
    (nonempty : body ≠ [])
    (id : Nat)
    (ends : Bool) :
    Plays (sendData id body ends) connection := by
  refine plays_bind (plays_sendLoop held nonempty id ends) ?_
  intro _ after sent
  split
  · exact .single (.endedLocally (unended_of_sendLoop held nonempty sent))
  · exact .refl

/-- What is built together plays as what is built does. -/
theorem plays_together
    {build : Action α}
    (plays : Plays build { connection with held := some [] }) :
    Plays (together build) connection := by
  have holds : Beat connection { connection with held := some [] } :=
    .aside rfl
  have released := plays_of_keeps keeps_sight_release
    (build { connection with held := some [] }).2
  rw [Plays, together_apply]
  exact (Relation.ReflTransGen.head holds (plays.trans released)).tail
    (.aside rfl)

/-- Waiting for the peer is reading frames. -/
theorem plays_pumpUntil
    (done : Connection → Bool)
    (connection : Connection) :
    Plays (pumpUntil done) connection := by
  rw [Plays, pumpUntil]
  fun_induction pumpFrom done connection with
  | case1 connection met => exact .refl
  | case2 connection unmet failure after reads =>
      exact (plays_pump connection).of_eq reads
  | case3 connection unmet after reads =>
      exact (plays_pump connection).of_eq reads
  | case4 connection unmet after reads inductionHypothesis =>
      exact ((plays_pump connection).of_eq reads).trans inductionHypothesis

/-- Starting a connection plays from where it starts. -/
theorem beats_start
    {wire : Wire}
    {client : Bool}
    (starts : start wire client = .ok connection) :
    Beats (initial wire client) connection := by
  have preface : Keeps sight writePreface := by
    refine keeps_bind keeps_get fun _ => ?_
    split
    · exact fun _ => rfl
    · exact keeps_pure _
  have plays : Plays opening (initial wire client) := by
    refine plays_bind (plays_of_keeps preface _) fun _ after _ => ?_
    refine plays_bind .refl fun _ _ _ => ?_
    exact .single (.emitted _ (plain_settings _ _) Kind.noConfusion)
  rw [start] at starts
  split at starts
  next opened =>
    cases starts
    exact plays.of_eq opened
  · cases starts

end Plays

end Connection
end Http2
end XmipNet

import XmipNet.Http2.Deals
import XmipNet.Http2.Heeding
import XmipNet.Http2.Holding

/-!
# After a violation

A connection that was ended over a violation has said `GOAWAY` and opens nothing
more to its peer, but it still reads what the peer sends, a client still sends,
and a block is still decoded. What that comes to depends on what the peer sends
then: a stream still open may be ended, and a block decoded with the table a
failed decoding left. Where nothing of the kind is read, the connection stays as
the violation left it.
-/

namespace XmipNet
namespace Http2

open Hpack (Field)
open Http (Request Response)

namespace Connection

open Fallible Core

/-- The peer may still send on `id`. -/
def Awaits (connection : Connection) (id : Nat) : Prop :=
  ∃ stream, connection.streams[id]? = some stream ∧ stream.reset = none ∧
    stream.state.receiving = true

/-- A header block failed to decode: only that is a violation with this code. -/
def Garbled (connection : Connection) : Prop :=
  ∃ violation, .breached violation ∈ connection.events ∧
    violation.code = .compression

/-- A frame read after `origin` that neither ends a stream that was open then
nor, where a block has failed to decode, makes another one whole. -/
structure Harmless (origin : Connection) (frame : Frame) : Prop where
  ends : frame.kind = .data ∨ frame.kind = .headers →
    frame.has endStream = true → ¬origin.Awaits frame.stream
  continues : frame.kind = .continuation → ∀ waiting,
    origin.continuing = some waiting → waiting.ends = true →
      ¬origin.Awaits waiting.stream
  undecoded : origin.Garbled →
    frame.kind = .headers ∨ frame.kind = .continuation →
      frame.has endHeaders = false

/-- A frame that carries nothing of a message is harmless. -/
theorem harmless_of_control
    {frame : Frame}
    (control : frame.Control)
    (origin : Connection) :
    origin.Harmless frame where
  ends kind := absurd kind (not_or.mpr ⟨control.1, control.2.1⟩)
  continues kind := absurd kind control.2.2
  undecoded _ kind := absurd kind (not_or.mpr ⟨control.2.1, control.2.2⟩)

/-- A connection as `origin` left it: no stream that was open then has ended
since, and where a block failed to decode the table has not moved. -/
structure Unmoved (origin connection : Connection) : Prop where
  leaving : connection.goingAway = true
  unended : ∀ (id : Nat) (stream : Stream),
    connection.streams[id]? = some stream → stream.reset = none →
      ∃ earlier, origin.streams[id]? = some earlier ∧ earlier.reset = none ∧
        (stream.state.receiving = false → earlier.state.receiving = false)
  waits : ∀ waiting, connection.continuing = some waiting →
    waiting.ends = true →
      ¬origin.Awaits waiting.stream ∨ origin.continuing = some waiting
  decoder : origin.Garbled → connection.decoder = origin.decoder

theorem unmoved_refl
    {origin : Connection}
    (leaving : origin.goingAway = true) :
    Unmoved origin origin where
  leaving := leaving
  unended _ stream found live := ⟨stream, found, live, id⟩
  waits _ continuing _ := Or.inr continuing
  decoder _ := rfl

/-- What of a connection may be ununmoved. -/
def standing (connection : Connection) :
    Streams × Option Continuing × Bool × Hpack.Decoder :=
  (connection.streams, connection.continuing, connection.goingAway,
    connection.decoder)

section Unmoved

variable {origin connection after : Connection}

theorem Unmoved.of_standing
    (unmoved : Unmoved origin connection)
    (same : standing after = standing connection) :
    Unmoved origin after := by
  simp only [standing, Prod.mk.injEq] at same
  obtain ⟨streams, continuing, leaving, decoder⟩ := same
  refine ⟨?_, ?_, ?_, ?_⟩
  · rw [leaving]
    exact unmoved.leaving
  · rw [streams]
    exact unmoved.unended
  · rw [continuing]
    exact unmoved.waits
  · rw [decoder]
    exact unmoved.decoder

/-- Other records, each of them one that was there, no live one ended since. -/
theorem Unmoved.of_streams
    (unmoved : Unmoved origin connection)
    {streams : Streams}
    (lasting : ∀ (id : Nat) (changed : Stream), streams[id]? = some changed →
      changed.reset = none →
        ∃ stream, connection.streams[id]? = some stream ∧
          stream.reset = none ∧
            (changed.state.receiving = false →
              stream.state.receiving = false)) :
    Unmoved origin { connection with streams } where
  leaving := unmoved.leaving
  unended := by
    intro id changed found live
    obtain ⟨stream, there, unreset, ended⟩ := lasting id changed found live
    obtain ⟨earlier, before, clean, done⟩ :=
      unmoved.unended id stream there unreset
    exact ⟨earlier, before, clean, fun shut => done (ended shut)⟩
  waits := unmoved.waits
  decoder := unmoved.decoder

/-- The record of a live stream written, ended only where it was not open. -/
theorem Unmoved.setStream
    (unmoved : Unmoved origin connection)
    {id : Nat}
    {stream changed : Stream}
    (found : connection.streams[id]? = some stream)
    (live : stream.reset = none)
    (ended : changed.state.receiving = stream.state.receiving ∨
      ¬origin.Awaits id) :
    Unmoved origin (connection.setStream id changed) where
  leaving := unmoved.leaving
  unended := by
    intro other record there unreset
    rw [Connection.setStream, NatMap.getElem?_insert] at there
    split at there
    next same =>
      cases there
      rw [← same]
      obtain ⟨earlier, before, clean, done⟩ :=
        unmoved.unended id stream found live
      refine ⟨earlier, before, clean, fun shut => ?_⟩
      rcases ended with same | unawaited
      · exact done (same ▸ shut)
      · by_contra receiving
        rw [Bool.not_eq_false] at receiving
        exact unawaited ⟨earlier, before, clean, receiving⟩
    · exact unmoved.unended other record there unreset
  waits := unmoved.waits
  decoder := unmoved.decoder

theorem Unmoved.markReset
    (unmoved : Unmoved origin connection)
    (id : Nat)
    (code : ErrorCode) :
    Unmoved origin (connection.markReset id code) := by
  refine unmoved.of_streams fun other changed found live => ?_
  rw [NatMap.getElem?_modify] at found
  split at found
  · rw [Option.map_eq_some_iff] at found
    obtain ⟨stream, _, rfl⟩ := found
    cases live
  · exact ⟨changed, found, live, fun shut => shut⟩

theorem Unmoved.sameButSend
    (unmoved : Unmoved origin connection)
    {streams : Streams}
    (same : SameButSend connection.streams streams) :
    Unmoved origin { connection with streams } := by
  refine unmoved.of_streams fun id changed found live => ?_
  have alike := same id
  rw [found, Option.map_some, Option.map_eq_some_iff] at alike
  obtain ⟨stream, there, equal⟩ := alike
  have state : (unsent stream).state = (unsent changed).state := by
    rw [equal]
  have reset : (unsent stream).reset = (unsent changed).reset := by
    rw [equal]
  exact ⟨stream, there, reset.trans live, fun shut =>
    (congrArg State.receiving state).trans shut⟩

end Unmoved

/-! ## Handling a frame -/

/-- A computation that leaves the connection as `origin` left it. -/
def Spares {ε α : Type} (origin : Connection)
    (action : Fallible Connection ε α) : Prop :=
  ∀ connection, Unmoved origin connection →
    Unmoved origin (action connection).2

section Rules

variable {ε δ α β : Type} {origin : Connection}

theorem spares_of_keeps
    {action : Fallible Connection ε α}
    (keeps : Keeps standing action) :
    Spares origin action :=
  fun connection unmoved => unmoved.of_standing (keeps connection)

theorem spares_pure
    (value : α) :
    Spares origin (pure value : Fallible Connection ε α) :=
  fun _ unmoved => unmoved

theorem spares_lift
    (outcome : Except ε α) :
    Spares origin (lift outcome : Fallible Connection ε α) :=
  fun _ unmoved => unmoved

theorem spares_fail
    (error : ε) :
    Spares origin (Fallible.fail error : Fallible Connection ε α) :=
  fun _ unmoved => unmoved

theorem spares_bind
    {first : Fallible Connection ε α}
    {next : α → Fallible Connection ε β}
    (spares : Spares origin first)
    (goes : ∀ value, Spares origin (next value)) :
    Spares origin (first >>= next) := by
  intro connection unmoved
  have before := spares connection unmoved
  rw [bind_apply]
  split
  next value after runs =>
    rw [runs] at before
    exact goes value after before
  next runs =>
    rwa [runs] at before

theorem spares_get_bind
    {next : Connection → Fallible Connection ε β}
    (goes : ∀ connection, Unmoved origin connection →
      Unmoved origin (next connection connection).2) :
    Spares origin (Fallible.get >>= next) :=
  goes

/-- A part that may fail and otherwise leaves the connection. -/
theorem unmoved_lift_bind
    {outcome : Except ε α}
    {next : α → Fallible Connection ε β}
    {connection : Connection}
    (unmoved : Unmoved origin connection)
    (goes : ∀ value, outcome = .ok value →
      Unmoved origin (next value connection).2) :
    Unmoved origin ((lift outcome >>= next) connection).2 := by
  cases outcome with
  | error failure => exact unmoved
  | ok value => exact goes value rfl

end Rules

theorem keeps_standing_emit (frame : Frame) :
    Keeps standing (emit frame) := by
  intro connection
  rw [emit_apply]
  split
  · rfl
  · exact keeps_bind (fun _ => rfl) (fun _ _ => rfl)
      (connection.log (.emitted frame))

theorem keeps_standing_answer (frame : Frame) :
    Keeps standing (answer frame) :=
  keeps_mapError (keeps_standing_emit frame) lost

section Handlers

variable {origin connection : Connection}

/-- What a `DATA` adds to a live record. -/
theorem unmoved_extendBody
    (unmoved : Unmoved origin connection)
    {frame : Frame}
    (kind : frame.kind = .data)
    (harmless : origin.Harmless frame)
    {stream taken : Stream}
    (found : connection.streams[frame.stream]? = some stream)
    (live : stream.reset = none)
    (state : taken.state = stream.state)
    (unreset : taken.reset = none) :
    Unmoved origin (extendBody frame taken connection).2 := by
  have here : (connection.setStream frame.stream taken).streams[
      frame.stream]? = some taken :=
    NatMap.getElem?_insert_self _ _
  have first : Unmoved origin (connection.setStream frame.stream taken) :=
    unmoved.setStream found live (Or.inl (congrArg State.receiving state))
  rw [extendBody, modify_bind_apply]
  refine unmoved_lift_bind first fun content _ => ?_
  split
  · exact first
  · split
    next ends =>
      exact first.setStream here unreset
        (Or.inr (harmless.ends (Or.inl kind) ends))
    · split
      · have extended : Unmoved origin
            ((connection.setStream frame.stream taken).setStream frame.stream
              { taken with body := taken.body ++ content }) :=
          first.setStream here unreset (Or.inl rfl)
        rw [modify_bind_apply]
        refine unmoved_lift_bind extended fun granted _ => ?_
        rw [modify_bind_apply]
        refine spares_of_keeps (keeps_standing_answer _) _ ?_
        exact extended.setStream (NatMap.getElem?_insert_self _ _) unreset
          (Or.inl rfl)
      · exact first.setStream here unreset (Or.inl rfl)

theorem spares_dataOn
    {frame : Frame}
    (kind : frame.kind = .data)
    (harmless : origin.Harmless frame) :
    Spares origin (dataOn frame) := by
  refine spares_get_bind fun connection unmoved => ?_
  split
  · exact unmoved
  · cases found : connection.streams[frame.stream]? with
    | none => exact unmoved
    | some stream =>
        simp only
        split
        · exact unmoved
        next live =>
          split
          · exact unmoved
          · refine unmoved_lift_bind unmoved fun taken _ => ?_
            have unreset : stream.reset = none := by simpa using live
            exact unmoved_extendBody unmoved kind harmless found unreset rfl
              unreset

theorem spares_data
    {frame : Frame}
    (kind : frame.kind = .data)
    (harmless : origin.Harmless frame) :
    Spares origin (data frame) := by
  refine spares_bind (spares_of_keeps ?_) fun _ =>
    spares_bind (spares_of_keeps ?_) fun _ => spares_dataOn kind harmless
  · exact keeps_bind keeps_get fun _ => keeps_bind (keeps_lift _) fun _ =>
      keeps_modify fun _ => rfl
  · rw [giveBack]
    split
    · exact keeps_bind (keeps_standing_answer _) fun _ =>
        keeps_bind keeps_get fun _ => keeps_bind (keeps_lift _) fun _ =>
          keeps_modify fun _ => rfl
    · exact keeps_pure _

theorem unmoved_headersOnRecord
    (unmoved : Unmoved origin connection)
    {id : Nat}
    {stream : Stream}
    (found : connection.streams[id]? = some stream)
    (live : stream.reset = none)
    {ends : Bool}
    (unawaited : ends = true → ¬origin.Awaits id)
    (fields : List Field) :
    Unmoved origin (headersOnRecord id stream fields ends connection).2 := by
  refine unmoved_lift_bind unmoved fun changed heads => ?_
  cases outcome : stream.headers fields ends with
  | error violation =>
      rw [outcome] at heads
      cases heads
  | ok record =>
      rw [outcome] at heads
      cases heads
      obtain ⟨_, state, _⟩ := Stream.headers_eq_ok outcome
      refine unmoved.setStream found live ?_
      cases ends with
      | true => exact Or.inr (unawaited rfl)
      | false => exact Or.inl (congrArg State.receiving state)

theorem spares_fieldsOn
    {id : Nat}
    {ends : Bool}
    (unawaited : ends = true → ¬origin.Awaits id)
    (fields : List Field) :
    Spares origin (fieldsOn id fields ends) := by
  refine spares_get_bind fun connection unmoved => ?_
  cases found : connection.streams[id]? with
  | some stream =>
      simp only
      split
      · exact unmoved
      next live =>
        have unreset : stream.reset = none := by simpa using live
        exact unmoved_headersOnRecord unmoved found unreset unawaited fields
  | none =>
      simp only
      split
      · exact unmoved
      · rw [openByPeer, modify_bind_apply, get_bind_apply]
        have leaving : ({ connection with
            lastPeer := id
            highest := max connection.highest id } : Connection).goingAway =
              true := unmoved.leaving
        rw [if_pos leaving]
        exact unmoved.of_standing rfl

theorem spares_block
    {id : Nat}
    {ends whole : Bool}
    (unawaited : ends = true → ¬origin.Awaits id)
    (undecoded : origin.Garbled → whole = false)
    (octets : List UInt8) :
    Spares origin (block id octets ends whole) := by
  rw [block]
  split
  · exact spares_fail _
  · split
    · intro connection unmoved
      refine ⟨unmoved.leaving, unmoved.unended, ?_, unmoved.decoder⟩
      intro waiting continuing ends
      cases continuing
      exact Or.inl (unawaited ends)
    next isWhole =>
      refine spares_bind ?_ fun fields => spares_get_bind
        fun connection unmoved => unmoved_lift_bind unmoved fun _ _ =>
          spares_fieldsOn unawaited fields connection unmoved
      intro connection unmoved
      refine ⟨unmoved.leaving, unmoved.unended, unmoved.waits, ?_⟩
      intro garbled
      rw [undecoded garbled] at isWhole
      exact absurd Bool.false_ne_true isWhole

theorem spares_continuation
    {frame : Frame}
    (kind : frame.kind = .continuation)
    (harmless : origin.Harmless frame) :
    Spares origin (continuation frame) := by
  refine spares_get_bind fun connection unmoved => ?_
  cases continuing : connection.continuing with
  | none => exact unmoved
  | some waiting =>
      have closed : Unmoved origin { connection with continuing := none } :=
        ⟨unmoved.leaving, unmoved.unended, (fun _ none => by cases none),
          unmoved.decoder⟩
      simp only [modify_bind_apply]
      refine spares_block (fun ends => ?_) (fun garbled => ?_) _ _ closed
      · rcases unmoved.waits waiting continuing ends with unawaited | before
        · exact unawaited
        · exact harmless.continues kind waiting before ends
      · exact harmless.undecoded garbled (Or.inr kind)

theorem spares_settings (frame : Frame) :
    Spares origin (settings frame) := by
  rw [settings]
  split
  · split
    · exact spares_fail _
    · exact spares_pure _
  · refine spares_get_bind fun before unmoved => ?_
    refine spares_bind (spares_of_keeps fun _ => rfl) (fun _ => ?_) before
      unmoved
    refine spares_get_bind fun after applied => ?_
    refine spares_bind ?_ (fun _ => ?_) after applied
    · intro connection unmoved
      exact unmoved.sameButSend (sameButSend_shiftEach _
        (listed_toList connection.streams))
    · exact spares_bind (spares_of_keeps (keeps_modify fun _ => rfl))
        fun _ => spares_of_keeps (keeps_standing_answer _)

theorem spares_windowUpdate (frame : Frame) :
    Spares origin (windowUpdate frame) := by
  refine spares_bind (spares_lift _) fun _ => spares_get_bind
    fun connection unmoved => ?_
  split
  · exact unmoved_lift_bind unmoved fun _ _ => unmoved.of_standing rfl
  · split
    · exact unmoved
    · cases found : connection.streams[frame.stream]? with
      | none => exact unmoved
      | some stream =>
          refine unmoved_lift_bind unmoved fun granted _ => ?_
          refine unmoved.of_streams fun id changed there live => ?_
          rw [NatMap.getElem?_insert] at there
          split at there
          next same =>
            cases there
            rw [← same]
            exact ⟨stream, found, live, fun shut => shut⟩
          · exact ⟨changed, there, live, fun shut => shut⟩

theorem spares_rstStream (frame : Frame) :
    Spares origin (rstStream frame) := by
  refine spares_bind (spares_lift _) fun code => spares_get_bind
    fun connection unmoved => ?_
  split
  · exact unmoved
  · exact unmoved.markReset _ _

theorem spares_goawayFrame (frame : Frame) :
    Spares origin (goawayFrame frame) := by
  rw [goawayFrame]
  split
  next last code _ _ =>
    intro connection unmoved
    have passes : Unmoved origin { connection with
        streams := connection.streams.map
          (passedOverBy connection.client (last &&& maxStreamId)) } := by
      refine unmoved.of_streams ?_
      intro id changed found live
      rw [NatMap.getElem?_map, Option.map_eq_some_iff] at found
      obtain ⟨stream, there, rfl⟩ := found
      refine ⟨stream, there, ?_⟩
      rw [passedOverBy] at live ⊢
      split at live
      · cases live
      next kept =>
        rw [if_neg kept]
        exact ⟨live, fun shut => shut⟩
    exact passes.of_standing rfl
  · exact spares_fail _

theorem spares_dispatch
    {frame : Frame}
    (harmless : origin.Harmless frame) :
    Spares origin (dispatch frame) := by
  rw [dispatch]
  split
  next kind => exact spares_data kind harmless
  next kind =>
    exact spares_bind (spares_lift _) fun octets =>
      spares_block (harmless.ends (Or.inr kind))
        (fun garbled => harmless.undecoded garbled (Or.inl kind)) octets
  next kind => exact spares_continuation kind harmless
  · split
    · exact spares_fail _
    · exact spares_pure _
  · exact spares_pure _
  · exact spares_rstStream frame
  · exact spares_settings frame
  · exact spares_fail _
  · rw [pingFrame]
    split
    · exact spares_fail _
    · split
      · exact spares_of_keeps (keeps_modify fun _ => rfl)
      · exact spares_of_keeps (keeps_standing_answer _)
  · exact spares_goawayFrame frame
  · exact spares_windowUpdate frame

theorem spares_handle
    {frame : Frame}
    (harmless : origin.Harmless frame) :
    Spares origin (handle frame) := by
  refine spares_get_bind fun connection unmoved => ?_
  split
  · exact unmoved
  · split
    · exact unmoved
    · split
      · exact unmoved
      · exact spares_dispatch harmless connection unmoved

theorem spares_reset
    (id : Nat)
    (code : ErrorCode) :
    Spares origin (reset id code) :=
  spares_bind (fun _ unmoved => unmoved.markReset id code) fun _ =>
    spares_of_keeps (keeps_standing_emit _)

theorem spares_goAway
    (code : ErrorCode)
    (debug : String) :
    Spares origin (goAway code debug) := by
  refine spares_bind ?_ fun _ => spares_get_bind fun connection unmoved =>
    spares_of_keeps (keeps_standing_emit _) connection unmoved
  intro connection unmoved
  exact ⟨rfl, unmoved.unended, unmoved.waits, unmoved.decoder⟩

theorem spares_failing
    {α : Type}
    (violation : Violation) :
    Spares origin (fail violation : Action α) :=
  spares_bind (spares_of_keeps (keeps_modify fun _ => rfl)) fun _ =>
    spares_bind (spares_goAway _ _) fun _ => spares_fail _

theorem spares_take
    {frame : Frame}
    (harmless : origin.Harmless frame) :
    Spares origin (take frame) := by
  refine spares_bind (spares_of_keeps (keeps_modify fun _ => rfl)) fun _ =>
    spares_bind (spares_handle harmless) fun handled => ?_
  rcases handled with (violation | ⟨id, violation⟩) | _
  · exact spares_failing violation
  · exact spares_reset id _
  · exact spares_pure _

end Handlers

/-! ## Every run -/

/-- What was read since `origin` is harmless. -/
def Calm (origin connection : Connection) : Prop :=
  ∀ later, connection.events = origin.events ++ later →
    ∀ frame, .received frame ∈ later → origin.Harmless frame

theorem calm_of_events
    {origin connection : Connection}
    (added : List Event)
    (grown : connection.events = origin.events ++ added)
    (harmless : ∀ frame, .received frame ∈ added → origin.Harmless frame) :
    Calm origin connection := by
  intro later events frame member
  have same : later = added := List.append_cancel_left (events.symm.trans grown)
  exact harmless frame (same ▸ member)

/-- A connection that goes on from `origin`, unmoved as long as what it reads is
harmless. -/
structure GoesOn (origin connection : Connection) : Prop where
  grown : origin.events <+: connection.events
  unmoved : Calm origin connection → Unmoved origin connection

theorem Calm.of_prefix
    {origin connection after : Connection}
    (calm : Calm origin after)
    (shorter : connection.events <+: after.events) :
    Calm origin connection := by
  obtain ⟨more, longer⟩ := shorter
  intro later grown frame member
  refine calm (later ++ more) ?_ frame (List.mem_append_left more member)
  rw [← longer, grown, List.append_assoc]

/-- The frame that was read is the first event of handling it. -/
theorem received_of_take
    (frame : Frame)
    (connection : Connection) :
    ∃ later, (take frame connection).2.events =
      connection.events ++ .received frame :: later := by
  have follows : Follows (connection.log (.received frame))
      (take frame connection).2 := by
    rw [take, modify_bind_apply]
    refine Agrees.follows (agrees_bind
      (agrees_attempt (agrees_handle frame)) fun handled => ?_) _
    rcases handled with (violation | ⟨id, violation⟩) | _
    · exact agrees_failing violation
    · exact agrees_reset id _
    · exact agrees_pure _
  obtain ⟨later, events, _⟩ := follows.grows
  refine ⟨later, events.trans ?_⟩
  exact List.append_assoc _ _ _

section Runs

variable {origin connection after : Connection}

/-- Where nothing that could move the connection is done. -/
theorem GoesOn.of_unmoved
    (going : GoesOn origin connection)
    (longer : connection.events <+: after.events)
    (keeps : Unmoved origin connection → Unmoved origin after) :
    GoesOn origin after :=
  ⟨going.grown.trans longer, fun calm =>
    keeps (going.unmoved (calm.of_prefix longer))⟩

theorem GoesOn.take
    (going : GoesOn origin connection)
    (frame : Frame) :
    GoesOn origin (Connection.take frame connection).2 := by
  obtain ⟨later, events⟩ := received_of_take frame connection
  obtain ⟨earlier, grown⟩ := going.grown
  have longer : connection.events <+:
      (Connection.take frame connection).2.events := ⟨_, events.symm⟩
  refine ⟨going.grown.trans longer, fun calm => ?_⟩
  have unmoved := going.unmoved (calm.of_prefix longer)
  refine spares_take (calm (earlier ++ .received frame :: later) ?_ frame ?_)
    connection unmoved
  · rw [events, ← grown, List.append_assoc]
  · exact List.mem_append_right earlier List.mem_cons_self

theorem GoesOn.pump
    (going : GoesOn origin connection) :
    GoesOn origin (Connection.pump connection).2 := by
  have read (wire : Wire) : GoesOn origin { connection with wire } :=
    going.of_unmoved (List.prefix_refl _) fun unmoved =>
      unmoved.of_standing rfl
  rw [pump_apply]
  split
  · exact read _
  · exact read _
  next violation wire _ =>
    obtain ⟨later, events, _⟩ := (follows_fail (α := Bool) violation
      { connection with wire }).grows
    exact (read wire).of_unmoved ⟨later, events.symm⟩
      (spares_failing violation _)
  next frame wire _ =>
    have took := (read wire).take frame
    split
    next runs => rwa [runs] at took
    next runs => rwa [runs] at took

/-- Ending this side's half ends the peer's only where it had ended. -/
theorem receiving_of_endedLocally
    {state : State}
    (unended : state ≠ .halfClosedLocal) :
    state.endedLocally.receiving = false → state.receiving = false := by
  cases state with
  | halfClosedLocal => exact absurd rfl unended
  | _ => decide

/-- A beat leaves a connection unmoved but by what it reads. -/
theorem GoesOn.beat
    (going : GoesOn origin connection)
    (waits : Waits connection.core)
    (beat : Beat connection after) :
    GoesOn origin after := by
  have longer : connection.events <+: after.events :=
    (beat.steps waits).events
  cases beat with
  | aside same =>
      refine going.of_unmoved longer fun unmoved => unmoved.of_standing ?_
      exact congrArg (fun sight : Sight => (sight.core.streams,
        sight.core.continuing, sight.core.goingAway, sight.decoder)) same
  | pumped => exact going.pump
  | emitted plain own =>
      exact going.of_unmoved longer
        (spares_of_keeps (keeps_standing_emit _) connection)
  | @sent id stream frame piece bytes =>
      refine going.of_unmoved longer fun unmoved => ?_
      have taken : Unmoved origin (connection.setStream id { stream with
          send := { value := stream.send.value - frame.payload.length } }) :=
        unmoved.setStream piece.found piece.live (Or.inl rfl)
      exact taken.of_standing rfl
  | @endedLocally id unended =>
      refine going.of_unmoved longer fun unmoved => ?_
      refine unmoved.of_streams fun other changed found live => ?_
      rw [NatMap.getElem?_modify] at found
      split at found
      next same =>
        rw [Option.map_eq_some_iff] at found
        obtain ⟨stream, there, rfl⟩ := found
        rw [← same]
        exact ⟨stream, there, live,
          receiving_of_endedLocally (unended stream there)⟩
      · exact ⟨changed, found, live, fun shut => shut⟩
  | ended id seen refuses =>
      exact going.of_unmoved longer (spares_reset id _ connection)
  | leaving code debug =>
      exact going.of_unmoved longer (spares_goAway code debug connection)

theorem GoesOn.beats
    (going : GoesOn origin connection)
    (waits : Waits connection.core)
    (beats : Beats connection after) :
    GoesOn origin after := by
  induction beats with
  | refl => exact going
  | tail before beat inductionHypothesis =>
      exact inductionHypothesis.beat ((Beats.steps before waits).waits waits)
        beat

theorem GoesOn.remove
    (going : GoesOn origin connection)
    (id : Nat) :
    GoesOn origin (connection.remove id) := by
  refine going.of_unmoved (List.prefix_refl _) fun unmoved => ?_
  refine unmoved.of_streams fun other changed found live => ?_
  rw [NatMap.getElem?_erase] at found
  split at found
  · cases found
  · exact ⟨changed, found, live, fun shut => shut⟩

end Runs

/-- A `GOAWAY` names a last stream. -/
theorem farewell_goaway
    (last : Nat)
    (code : ErrorCode)
    (debug : List UInt8) :
    (Event.emitted (.goaway last code debug)).farewell ≠ none := by
  have holds : 0 + 4 ≤ (Frame.goaway last code debug).payload.length := by
    simp only [Frame.goaway, List.length_append, BigEndian.length_write]
    omega
  have kind : (Frame.goaway last code debug).kind = .goaway := rfl
  rw [Event.farewell, if_pos kind, Frame.lastStream, Frame.word, if_pos holds]
  exact Option.some_ne_none _

theorem Beat.announced
    {connection after : Connection}
    (beat : Beat connection after) :
    ∃ later, after.events = connection.events ++ later ∧
      Event.Announced later := by
  cases beat with
  | aside same =>
      have events : after.events = connection.events :=
        congrArg (fun sight : Sight => sight.core.events) same
      exact ⟨[], events.trans (List.append_nil _).symm, Event.announced_nil⟩
  | pumped =>
      obtain ⟨later, events, announced, _⟩ :=
        (agrees_pump.follows connection).grows
      exact ⟨later, events, announced⟩
  | emitted plain own =>
      exact ⟨_, events_emit _ connection, announced_emitted _⟩
  | sent piece bytes => exact ⟨_, rfl, announced_emitted _⟩
  | endedLocally unended =>
      exact ⟨[], (List.append_nil _).symm, Event.announced_nil⟩
  | ended id seen refuses =>
      exact ⟨_, congrArg Core.events (core_reset _ _ _), announced_emitted _⟩
  | leaving code debug =>
      exact ⟨_, congrArg Core.events (core_goAway _ _ _), announced_emitted _⟩

theorem Beats.grows
    {connection after : Connection}
    (beats : Beats connection after) :
    connection.events <+: after.events := by
  induction beats with
  | refl => exact List.prefix_refl _
  | tail _ beat inductionHypothesis =>
      obtain ⟨later, events, _⟩ := beat.announced
      exact inductionHypothesis.trans ⟨later, events.symm⟩

/-- Wherever a run has come, every violation was answered with `GOAWAY`. -/
theorem Reached.announced
    {client : Bool}
    {connection : Connection}
    (reached : Reached client connection) :
    Event.Announced connection.events := by
  obtain ⟨wire, strides⟩ := reached
  induction strides with
  | refl => exact Event.announced_nil
  | tail _ stride inductionHypothesis =>
      cases stride with
      | beat beat =>
          obtain ⟨later, events, announced⟩ := beat.announced
          rw [events]
          exact inductionHypothesis.append announced
      | emptied found done => exact inductionHypothesis
      | removed id => exact inductionHypothesis
      | opened asClient fresh => exact inductionHypothesis

theorem Reached.parted
    {client : Bool}
    {connection : Connection}
    (reached : Reached client connection) :
    Core.Parted connection.core := by
  obtain ⟨wire, turns⟩ := reached.turns
  exact turns.parted (parted_initial wire client)

/-- A connection ended over a violation is going away. -/
theorem Reached.leaving
    {client : Bool}
    {connection : Connection}
    (reached : Reached client connection)
    {violation : Violation}
    (breached : .breached violation ∈ connection.events) :
    connection.goingAway = true := by
  obtain ⟨last, told⟩ := reached.announced violation breached
  refine reached.parted.farewells.leaving fun none => ?_
  rw [Event.goodbyes, List.filterMap_eq_nil_iff] at none
  obtain ⟨event, member, emits⟩ := List.mem_filterMap.mp told
  cases event with
  | emitted frame =>
      cases emits
      exact farewell_goaway _ _ _ (none _ member)
  | _ => cases emits

theorem goesOn_of_breached
    {client : Bool}
    {origin : Connection}
    (reached : Reached client origin)
    {violation : Violation}
    (breached : .breached violation ∈ origin.events) :
    GoesOn origin origin :=
  ⟨List.prefix_refl _, fun _ => unmoved_refl (reached.leaving breached)⟩

end Connection

/-! ## A server -/

namespace Server

open Core Connection

/-- The request on `id` was whole in `origin`. -/
def WholeIn (origin : Connection) (id : Nat) : Prop :=
  ∃ stream, origin.streams[id]? = some stream ∧ stream.reset = none ∧
    stream.state.receiving = false

section Deals

variable {codec : Percent} {origin : Connection} {server after : Server}
  {delivered : List Nat} {given : List (Nat × Request)}

theorem goesOn_emptied
    (going : GoesOn origin server.connection)
    {id : Nat}
    {stream : Stream}
    (found : server.connection.streams[id]? = some stream) :
    GoesOn origin (server.connection.setStream id (emptied stream)) := by
  refine going.of_unmoved (List.prefix_refl _) fun unmoved => ?_
  refine unmoved.of_streams fun other changed there live => ?_
  rw [NatMap.getElem?_insert] at there
  split at there
  next same =>
    cases there
    rw [← same]
    exact ⟨stream, found, live, fun shut => shut⟩
  · exact ⟨changed, there, live, fun shut => shut⟩

theorem goesOn_reset
    {connection reset : Connection}
    (going : GoesOn origin connection)
    {id : Nat}
    {code : ErrorCode}
    {outcome : Except NetError Unit}
    (resets : Connection.reset id code connection = (outcome, reset)) :
    GoesOn origin reset := by
  obtain ⟨later, events, _⟩ :=
    ((agrees_reset id code).follows connection).grows
  have unmoved : Unmoved origin connection →
      Unmoved origin (Connection.reset id code connection).2 :=
    spares_reset id code connection
  rw [resets] at events unmoved
  exact going.of_unmoved ⟨later, events.symm⟩ unmoved

/-- A deal goes on, and gives a request only that was whole before. -/
theorem Serving.goesOn_deal
    (serving : Serving server delivered)
    (going : GoesOn origin server.connection)
    (deal : Deal codec server given after) :
    GoesOn origin after.connection ∧
      (Calm origin after.connection →
        ∀ entry ∈ given, WholeIn origin entry.1) := by
  have waits := serving.parted.sound.waits
  cases deal with
  | looked runs =>
      cases looked_of_look runs with
      | nothing nothing => exact ⟨going, fun _ _ member => by cases member⟩
      | @headless id stream first headless =>
          obtain ⟨found, _, _⟩ := found_of_ready first
          exact ⟨(goesOn_emptied going found).remove id,
            fun _ _ member => by cases member⟩
      | @request id stream head request first headed reads =>
          obtain ⟨found, finished, _⟩ := found_of_ready first
          obtain ⟨live, _⟩ := live_of_takenHead headed
          refine ⟨goesOn_emptied going found, fun calm entry member => ?_⟩
          cases List.mem_singleton.mp member
          obtain ⟨earlier, before, unreset, ended⟩ :=
            (going.unmoved calm).unended id stream found live
          exact ⟨earlier, before, unreset,
            ended (shut_of_finished finished live)⟩
      | @malformed id stream head malformed reset first headed fails resets =>
          obtain ⟨found, _, _⟩ := found_of_ready first
          exact ⟨(goesOn_reset (goesOn_emptied going found) resets).remove id,
            fun _ _ member => by cases member⟩
      | lost first headed fails resets =>
          obtain ⟨found, _, _⟩ := found_of_ready first
          exact ⟨goesOn_reset (goesOn_emptied going found) resets,
            fun _ _ member => by cases member⟩
  | beat beat => exact ⟨going.beat waits beat, fun _ _ member => by cases member⟩
  | @answered id reached waiting beats =>
      exact ⟨(going.beats waits beats).remove id,
        fun _ _ member => by cases member⟩

/-- So does any number of deals. -/
theorem Serving.goesOn
    (serving : Serving server delivered)
    (going : GoesOn origin server.connection)
    (deals : Deals codec server given after) :
    GoesOn origin after.connection ∧
      (Calm origin after.connection →
        ∀ entry ∈ given, WholeIn origin entry.1) := by
  suffices ∃ delivered, Serving after delivered ∧
      GoesOn origin after.connection ∧
        (Calm origin after.connection →
          ∀ entry ∈ given, WholeIn origin entry.1) by
    obtain ⟨_, _, goes⟩ := this
    exact goes
  induction deals with
  | none => exact ⟨delivered, serving, going, fun _ _ member => by cases member⟩
  | @more middle after given more _ deal inductionHypothesis =>
      obtain ⟨delivered, serving, going, whole⟩ := inductionHypothesis
      obtain ⟨goes, also⟩ := serving.goesOn_deal going deal
      obtain ⟨served, turns⟩ := serving.deal deal
      refine ⟨_, served, goes, fun calm entry member => ?_⟩
      rcases List.mem_append.mp member with earlier | now
      · exact whole (calm.of_prefix turns.events) entry earlier
      · exact also calm entry now

end Deals

/-- From `origin` on no request is given that was not whole then, and no block
is decoded after one that failed to. -/
structure StaysEnded (codec : Percent) (origin : Server) (asks : List Ask) :
    Prop where
  given : ∀ entry ∈ (run codec origin asks).1,
    WholeIn origin.connection entry.1
  decoder : origin.connection.Garbled →
    (run codec origin asks).2.connection.decoder = origin.connection.decoder

theorem staysEnded_of_calm
    {codec : Percent}
    {wire : Wire}
    {server : Server}
    (opens : handshake wire = .ok server)
    (earlier later : List Ask)
    {violation : Violation}
    (breached : .breached violation ∈
      (run codec server earlier).2.connection.events)
    (calm : Calm (run codec server earlier).2.connection
      (run codec (run codec server earlier).2 later).2.connection) :
    StaysEnded codec (run codec server earlier).2 later := by
  have serving := served_of_handshake codec opens earlier
  have going := goesOn_of_breached (reached_run codec opens earlier) breached
  obtain ⟨goes, whole⟩ :=
    serving.goesOn going (serving.deals_run codec later)
  exact ⟨whole calm, (goes.unmoved calm).decoder⟩

end Server

/-! ## A client -/

namespace Client

open Core Connection

/-- A client that turns every request away: the server has gone away, or the
stream numbers are spent. -/
def Declines (client : Client) : Prop :=
  client.connection.goaway ≠ none ∨ maxStreamId < client.next

/-- A request that fails, nothing of it written. -/
structure Withheld (codec : Percent) (client : Client) (request : Request) :
    Prop where
  fails : (send codec request client).1.isOk = false
  unwritten : ∀ later,
    (send codec request client).2.connection.events =
        client.connection.events ++ later →
      ∀ event ∈ later, ¬Event.Carries client.next event

section Send

variable {codec : Percent} {client : Client}

theorem send_of_declines
    (codec : Percent)
    (declines : Declines client)
    (request : Request) :
    ∃ failure, send codec request client = (.error failure, client) := by
  cases away : client.connection.goaway with
  | some departure => exact ⟨_, send_of_goaway away request⟩
  | none =>
      rcases declines with gone | spent
      · exact absurd away gone
      · exact ⟨_, send_of_spent away spent request⟩

theorem withheld_of_declines
    (declines : Declines client)
    (request : Request) :
    Withheld codec client request := by
  obtain ⟨failure, fails⟩ := send_of_declines codec declines request
  refine ⟨?_, fun later grown event member => ?_⟩
  · rw [fails]
    rfl
  · rw [fails] at grown
    have none : later = [] := List.append_cancel_left
      (grown.symm.trans (List.append_nil _).symm)
    rw [none] at member
    cases member

/-- A request on a new stream is written, whatever comes of it. -/
theorem carried_exchange
    (id : Nat)
    (fields : List Field)
    (body : List UInt8)
    (connection : Connection) :
    ∃ frame, Event.Carries id (.emitted frame) ∧
      connection.events ++ [.emitted frame] <+:
        (exchange id fields body connection).2.events := by
  let opened : Connection := { connection.openStream id with held := some [] }
  obtain ⟨frame, carries, grown⟩ :=
    carried_sendHeaders id fields (body = []) opened
  refine ⟨frame, carries, ?_⟩
  rw [exchange, Fallible.modify_bind_apply]
  refine grows_bind ?_ fun _ sent _ => ?_
  · rw [events_together]
    refine grows_bind grown fun _ after _ => ?_
    rw [sendBody]
    split
    · exact List.prefix_refl _
    · obtain ⟨later, events, _⟩ :=
        ((agrees_sendData id body true).follows after).grows
      exact ⟨later, events.symm⟩
  · obtain ⟨reached, beats, ends⟩ := beats_receiveAnswer id sent
    rcases ends with ends | ends
    · rw [ends]
      exact beats.grows
    · rw [ends]
      exact beats.grows

/-- A request is withheld exactly by a client that turns every one away. -/
theorem withheld_iff
    (codec : Percent)
    (client : Client)
    (request : Request) :
    Withheld codec client request ↔ Declines client := by
  refine ⟨fun withheld => ?_, fun declines =>
    withheld_of_declines declines request⟩
  by_contra accepts
  rw [Declines, not_or, not_not, not_lt] at accepts
  obtain ⟨staying, free⟩ := accepts
  obtain ⟨frame, carries, later, grown⟩ := carried_exchange client.next
    (Message.requestFields codec client.scheme request) request.body
    client.connection
  refine withheld.unwritten (.emitted frame :: later) ?_ (.emitted frame)
    List.mem_cons_self carries
  rw [send_of_free staying free, ← grown]
  exact List.append_assoc _ _ _

end Send

/-- From `origin` on no request is written or answered, and no block is decoded
after one that failed to. -/
structure StaysEnded (codec : Percent) (origin : Client) (asks : List Ask) :
    Prop where
  withheld : ∀ before request after,
    asks = before ++ .send request :: after →
      Withheld codec (run codec origin before) request
  decoder : origin.connection.Garbled →
    (run codec origin asks).connection.decoder = origin.connection.decoder

section Runs

variable {codec : Percent} {origin client : Client}

theorem Asking.goesOn
    (asking : Asking client)
    (going : GoesOn origin.connection client.connection)
    {ask : Ask}
    (declines : ∀ request, ask = .send request → Declines client) :
    GoesOn origin.connection (Client.perform codec client ask).connection := by
  have waits := asking.sound.waits
  cases ask with
  | send request =>
      obtain ⟨failure, fails⟩ := send_of_declines codec
        (declines request rfl) request
      rw [Client.perform, fails]
      exact going
  | ping => exact going.beats waits (plays_ping _ client.connection)
  | close =>
      exact going.beat waits (.leaving client.connection .noError "")

theorem Asking.goesOn_run
    (asking : Asking client)
    (going : GoesOn origin.connection client.connection)
    {asks : List Ask}
    (declines : ∀ before request after,
      asks = before ++ .send request :: after →
        Declines (Client.run codec client before)) :
    GoesOn origin.connection (Client.run codec client asks).connection := by
  induction asks generalizing client with
  | nil => exact going
  | cons ask rest inductionHypothesis =>
      refine inductionHypothesis (asking.perform codec ask).1 ?_ ?_
      · refine asking.goesOn going fun request same => ?_
        exact declines [] request rest (by rw [same, List.nil_append])
      · intro before request after split
        exact declines (ask :: before) request after (by
          rw [split, List.cons_append])

theorem staysEnded_of_declines
    {wire : Wire}
    {scheme : String}
    (opens : handshake wire scheme = .ok client)
    (earlier later : List Ask)
    {violation : Violation}
    (breached : .breached violation ∈
      (run codec client earlier).connection.events)
    (declines : ∀ before request after,
      later = before ++ .send request :: after →
        Declines (run codec (run codec client earlier) before))
    (calm : Calm (run codec client earlier).connection
      (run codec (run codec client earlier) later).connection) :
    StaysEnded codec (run codec client earlier) later := by
  have asking := (asking_of_handshake opens).run codec earlier
  have going := goesOn_of_breached (reached_run codec opens earlier) breached
  have goes : GoesOn (run codec client earlier).connection
      (run codec (run codec client earlier) later).connection :=
    asking.1.goesOn_run going declines
  exact ⟨fun before request after split => withheld_of_declines
    (declines before request after split) request,
      (goes.unmoved calm).decoder⟩

end Runs

end Client

/-- A connection ended over a violation stays ended where it turns every request
away and what is read after it is harmless: a client writes no request and has
none answered, which is so exactly where it turns them away; a server gives no
request that was not whole; and after a block that failed to decode no other is
decoded. -/
theorem stays_ended_of_harmless
    (codec : Percent) :
    (∀ (wire : Wire) (scheme : String) (client : Client),
      Client.handshake wire scheme = .ok client →
      ∀ (earlier later : List Client.Ask) (violation : Violation),
        let origin := Client.run codec client earlier
        .breached violation ∈ origin.connection.events →
        (∀ before request after, later = before ++ .send request :: after →
          (Client.Withheld codec (Client.run codec origin before) request ↔
            Client.Declines (Client.run codec origin before))) ∧
        ((∀ before request after, later = before ++ .send request :: after →
            Client.Declines (Client.run codec origin before)) →
          Connection.Calm origin.connection
            (Client.run codec origin later).connection →
          Client.StaysEnded codec origin later)) ∧
    (∀ (wire : Wire) (server : Server),
      Server.handshake wire = .ok server →
      ∀ (earlier later : List Server.Ask) (violation : Violation),
        let origin := (Server.run codec server earlier).2
        .breached violation ∈ origin.connection.events →
        Connection.Calm origin.connection
          (Server.run codec origin later).2.connection →
        Server.StaysEnded codec origin later) := by
  refine ⟨?_, ?_⟩
  · intro wire scheme client opens earlier later violation origin breached
    refine ⟨fun before request after _ => Client.withheld_iff _ _ _, ?_⟩
    exact Client.staysEnded_of_declines opens earlier later breached
  · intro wire server opens earlier later violation origin breached
    exact Server.staysEnded_of_calm opens earlier later breached

namespace Event

/-- Whether an event is the failure of a block to decode. -/
def garbles : Event → Bool
  | breached violation => violation.code = .compression
  | received _ | emitted _ | passedOver _ => false

end Event

theorem Connection.garbled_of_any
    {connection : Connection}
    (any : connection.events.any Event.garbles = true) :
    connection.Garbled := by
  obtain ⟨event, member, garbles⟩ := List.any_eq_true.mp any
  cases event with
  | breached violation =>
      exact ⟨violation, member, of_decide_eq_true garbles⟩
  | _ => cases garbles

/-- A server whose first answer fails to decode after a field of it has entered
the table, and whose second names that field. -/
def garblingWire : Wire where
  incoming := [.octets ((⟨.settings, 0, 0, []⟩ : Frame).encode ++
    (⟨.headers, endStream ||| endHeaders, 1,
      [0x88, 0x40, 0x01, 0x61, 0x01, 0x62, 0x80]⟩ : Frame).encode ++
    (⟨.headers, endStream ||| endHeaders, 3, [0x88, 0xbe]⟩ : Frame).encode)]
  accepts := []
  written := []

/-- A client that opens stream 1, sends a block that fails to decode, and then
ends stream 1. -/
def lingeringWire : Wire where
  incoming := [.octets (preface ++
    (⟨.settings, 0, 0, []⟩ : Frame).encode ++
    (⟨.headers, endHeaders, 1, [0x82, 0x86, 0x84]⟩ : Frame).encode ++
    (⟨.headers, endStream ||| endHeaders, 3, [0x80]⟩ : Frame).encode ++
    (⟨.data, endStream, 1, []⟩ : Frame).encode)]
  accepts := []
  written := []

/-- The client sends on and decodes an answer with what the failure left in the
table. -/
theorem not_staysEnded_of_garbling :
    ∃ client, Client.handshake garblingWire "http" = .ok client ∧
      let origin := Client.run .bare client [.send Client.plainRequest]
      origin.connection.Garbled ∧
        (Client.send .bare Client.plainRequest origin).1.toOption.map
          (fun response => response.headers) = some [("a", "b")] ∧
        ¬Client.StaysEnded .bare origin [.send Client.plainRequest] := by
  obtain ⟨client, opens, checked⟩ := Client.exists_of_handshake
    (show (Client.handshake garblingWire "http").toOption.map (fun client =>
      let origin := Client.run .bare client [.send Client.plainRequest]
      let outcome := (Client.send .bare Client.plainRequest origin).1
      origin.connection.events.any Event.garbles &&
        (outcome.isOk && decide (outcome.toOption.map
          (fun response => response.headers) = some [("a", "b")]))) =
            some true by decide +kernel)
  simp only [Bool.and_eq_true, decide_eq_true_eq] at checked
  obtain ⟨garbled, answered, headers⟩ := checked
  refine ⟨client, opens, Connection.garbled_of_any garbled, headers,
    fun ended => ?_⟩
  have fails := (ended.withheld [] Client.plainRequest [] rfl).fails
  rw [Client.run, List.foldl_nil, answered] at fails
  cases fails

/-- The server gives a request that was not whole. -/
theorem not_staysEnded_of_lingering :
    ∃ server, Server.handshake lingeringWire = .ok server ∧
      let origin := (Server.run .bare server
        [.readFrame, .readFrame, .readFrame]).2
      origin.connection.Garbled ∧
        ¬Server.StaysEnded .bare origin [.nextRequest] := by
  obtain ⟨server, opens, checked⟩ := Server.exists_of_handshake
    (show (Server.handshake lingeringWire).toOption.map (fun server =>
      let origin := (Server.run .bare server
        [.readFrame, .readFrame, .readFrame]).2
      origin.connection.events.any Event.garbles &&
        (decide ((Server.run .bare origin [.nextRequest]).1.map Prod.fst =
          [1]) &&
          decide (origin.connection.streams[1]?.map
            (fun stream => stream.state.receiving) = some true))) =
              some true by decide +kernel)
  simp only [Bool.and_eq_true, decide_eq_true_eq] at checked
  obtain ⟨garbled, given, receiving⟩ := checked
  refine ⟨server, opens, Connection.garbled_of_any garbled, fun ended => ?_⟩
  obtain ⟨entry, member, named⟩ := List.mem_map.mp
    (given ▸ List.mem_singleton_self 1)
  obtain ⟨stream, found, _, shut⟩ := ended.given entry member
  rw [named] at found
  rw [found, Option.map_some, shut] at receiving
  cases receiving

/-- After a block that failed to decode a client sends on and decodes an answer
with what the failure left in the table, and a server gives a request that was
not whole. -/
theorem not_staysEnded_of_garbled :
    (∃ client, Client.handshake garblingWire "http" = .ok client ∧
      let origin := Client.run .bare client [.send Client.plainRequest]
      origin.connection.Garbled ∧
        (Client.send .bare Client.plainRequest origin).1.toOption.map
          (fun response => response.headers) = some [("a", "b")] ∧
        ¬Client.StaysEnded .bare origin [.send Client.plainRequest]) ∧
    (∃ server, Server.handshake lingeringWire = .ok server ∧
      let origin := (Server.run .bare server
        [.readFrame, .readFrame, .readFrame]).2
      origin.connection.Garbled ∧
        ¬Server.StaysEnded .bare origin [.nextRequest]) :=
  ⟨not_staysEnded_of_garbling, not_staysEnded_of_lingering⟩

/-- A server whose answer fails to decode and that then goes away. -/
def departingWire : Wire where
  incoming := [.octets ((⟨.settings, 0, 0, []⟩ : Frame).encode ++
    (⟨.headers, endStream ||| endHeaders, 1, [0x80]⟩ : Frame).encode ++
    (Frame.goaway 1 .noError []).encode)]
  accepts := []
  written := []

/-- A client that asks for `/` on stream 1, sends a block that fails to decode,
and then a `PING`. -/
def patientWire : Wire where
  incoming := [.octets (preface ++
    (⟨.settings, 0, 0, []⟩ : Frame).encode ++
    (⟨.headers, endStream ||| endHeaders, 1, [0x82, 0x86, 0x84]⟩ :
      Frame).encode ++
    (⟨.headers, endStream ||| endHeaders, 3, [0x80]⟩ : Frame).encode ++
    (Frame.ping [0, 0, 0, 0, 0, 0, 0, 0] false).encode)]
  accepts := []
  written := []

/-- A client whose server has gone away turns its next request away, and a
server gives the request that was whole before the violation. -/
theorem stays_ended_of_harmless_departing :
    (∃ client, Client.handshake departingWire "http" = .ok client ∧
      let origin := Client.run .bare client
        [.send Client.plainRequest, .ping]
      origin.connection.Garbled ∧
        Client.StaysEnded .bare origin [.send Client.plainRequest]) ∧
    (∃ server, Server.handshake patientWire = .ok server ∧
      let origin := (Server.run .bare server
        [.readFrame, .readFrame, .readFrame]).2
      (Server.run .bare origin [.readFrame, .finished]).1.map Prod.fst = [1] ∧
        Server.StaysEnded .bare origin [.readFrame, .finished]) := by
  refine ⟨?_, ?_⟩
  · obtain ⟨client, opens, checked⟩ := Client.exists_of_handshake
      (show (Client.handshake departingWire "http").toOption.map (fun client =>
        let origin := Client.run .bare client
          [.send Client.plainRequest, .ping]
        let after := Client.run .bare origin [.send Client.plainRequest]
        origin.connection.events.any Event.garbles &&
          (decide (origin.connection.goaway ≠ none) &&
            decide (after.connection.events = origin.connection.events))) =
              some true by decide +kernel)
    simp only [Bool.and_eq_true, decide_eq_true_eq] at checked
    obtain ⟨garbled, gone, same⟩ := checked
    have spoiled := Connection.garbled_of_any garbled
    obtain ⟨violation, breached, _⟩ := spoiled
    refine ⟨client, opens, Connection.garbled_of_any garbled, ?_⟩
    refine ((stays_ended_of_harmless .bare).1 departingWire "http" client opens
      [.send Client.plainRequest, .ping] [.send Client.plainRequest] violation
      breached).2 ?_ ?_
    · intro before request after split
      cases before with
      | nil => exact Or.inl gone
      | cons first rest =>
          cases rest <;> cases split
    · exact Connection.calm_of_events []
        (same.trans (List.append_nil _).symm) fun _ member => by cases member
  · obtain ⟨server, opens, checked⟩ := Server.exists_of_handshake
      (show (Server.handshake patientWire).toOption.map (fun server =>
        let origin := (Server.run .bare server
          [.readFrame, .readFrame, .readFrame]).2
        let after := Server.run .bare origin [.readFrame, .finished]
        origin.connection.events.any Event.garbles &&
          (decide (after.1.map Prod.fst = [1]) &&
            decide (after.2.connection.events = origin.connection.events ++
              [.received (.ping [0, 0, 0, 0, 0, 0, 0, 0] false),
                .emitted (.ping [0, 0, 0, 0, 0, 0, 0, 0] true)]))) =
                  some true by decide +kernel)
    simp only [Bool.and_eq_true, decide_eq_true_eq] at checked
    obtain ⟨garbled, given, grown⟩ := checked
    obtain ⟨violation, breached, _⟩ := Connection.garbled_of_any garbled
    refine ⟨server, opens, given, ?_⟩
    refine (stays_ended_of_harmless .bare).2 patientWire server opens
      [.readFrame, .readFrame, .readFrame] [.readFrame, .finished] violation
      breached (Connection.calm_of_events _ grown fun frame member => ?_)
    rcases List.mem_cons.mp member with same | later
    · cases same
      exact Connection.harmless_of_control (Frame.control_ping _ _) _
    · cases List.mem_singleton.mp later

end Http2
end XmipNet

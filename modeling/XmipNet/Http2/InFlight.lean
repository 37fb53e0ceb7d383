import XmipNet.Http2.Aftermath

/-!
# Frames still in flight

What the peer had sent before it read that a stream was ended arrives after it,
and must not end the connection. Whether it does rests on how far streams have
been opened, which a header block moves once its list is well formed, and on
whether the record of the stream is still there.
-/

namespace XmipNet
namespace Http2

open Hpack (Field)

namespace Core

/-- How far streams have been opened never goes back, over turns as over
steps. -/
theorem Turns.monotone
    {core after : Core}
    (turns : Turns core after) :
    core.lastPeer ≤ after.lastPeer ∧ core.highest ≤ after.highest := by
  refine turns.invariant (motive := fun reached =>
    core.lastPeer ≤ reached.lastPeer ∧ core.highest ≤ reached.highest) ?_
    ⟨le_refl _, le_refl _⟩
  rintro reached next turn ⟨last, highest⟩
  cases turn with
  | step step =>
      obtain ⟨nextLast, nextHighest, _⟩ := step.monotone
      exact ⟨last.trans nextLast, highest.trans nextHighest⟩
  | taken thinned => exact ⟨last, highest⟩
  | opened asClient fresh => exact ⟨last, highest.trans (le_max_left _ _)⟩

/-! ## What this side gives to receive -/

/-- No window this side receives on is over what a window may be. -/
structure WindowsCapped (core : Core) : Prop where
  ours : core.localSettings = .ours
  connection : core.receive.value ≤ maxStreamId
  streams : ∀ (id : Nat) (stream : Stream), core.streams[id]? = some stream →
    stream.receive.value ≤ maxStreamId

theorem initialWindow_le : (Settings.ours.initialWindowSize : Int) ≤
    maxStreamId := by
  decide

theorem Step.receive_le
    {core after : Core}
    (step : Step core after)
    (capped : core.receive.value ≤ maxStreamId) :
    after.receive.value ≤ maxStreamId := by
  cases step with
  | receive bounded => exact bounded.elim (fun lower => lower.trans capped) id
  | _ => exact capped

theorem Change.receive_le
    {core after : Core}
    {id : Nat}
    {before now : Option Stream}
    (change : Change core after id before now)
    (ours : core.localSettings = .ours)
    (capped : ∀ stream, before = some stream →
      stream.receive.value ≤ maxStreamId)
    {stream : Stream}
    (found : now = some stream) :
    stream.receive.value ≤ maxStreamId := by
  cases change with
  | kept => exact capped stream found
  | @grown before changed grows =>
      cases found
      exact grows.bounded.elim
        (fun lower => lower.trans (capped before rfl)) fun low => low
  | @headed before changed fields ends live heads seen =>
      cases found
      obtain ⟨_, _, same⟩ := Stream.headers_eq_ok heads
      rw [same]
      exact capped before rfl
  | @opened changed fields ends opens staying heads seen reached raised fits =>
      cases found
      obtain ⟨_, _, same⟩ := Stream.headers_eq_ok heads
      rw [same, ours]
      exact initialWindow_le
  | ended before =>
      cases found
      exact capped before rfl
  | reset before =>
      cases found
      exact capped before rfl
  | passedOver before =>
      cases found
      exact capped before rfl
  | @windowed before changed same =>
      cases found
      have receive : (unsent before).receive = (unsent stream).receive := by
        rw [same]
      have equal : before.receive = stream.receive := receive
      rw [← equal]
      exact capped before rfl
  | endedLocally before =>
      cases found
      exact capped before rfl

theorem Turn.windowsCapped
    {core after : Core}
    (turn : Turn core after)
    (capped : WindowsCapped core) :
    WindowsCapped after := by
  cases turn with
  | step step =>
      exact ⟨step.localSettings.trans capped.ours,
        step.receive_le capped.connection, fun id stream found =>
          (step.change id).receive_le capped.ours (capped.streams id) found⟩
  | taken thinned =>
      refine ⟨capped.ours, capped.connection, fun id stream found => ?_⟩
      obtain ⟨whole, there, same⟩ := thinned id stream found
      have receive : (untaken stream).receive = (untaken whole).receive := by
        rw [same]
      have equal : stream.receive = whole.receive := receive
      rw [equal]
      exact capped.streams id whole there
  | @opened id asClient fresh =>
      refine ⟨capped.ours, capped.connection,
        NatMap.All.insertIfNew capped.streams id ?_⟩
      show ((core.localSettings.initialWindowSize : Nat) : Int) ≤ maxStreamId
      rw [capped.ours]
      exact initialWindow_le

/-! ## Streams this side has ended -/

/-- This side has reset `id`, or passed it over. -/
def EndedHere (events : List Event) (id : Nat) : Prop :=
  (∃ code, .emitted (.reset id code) ∈ events) ∨ .passedOver id ∈ events

theorem EndedHere.of_append
    {events : List Event}
    {event : Event}
    {id : Nat}
    (ended : EndedHere (events ++ [event]) id) :
    EndedHere events id ∨ (∃ code, event = .emitted (.reset id code)) ∨
      event = .passedOver id := by
  rcases ended with ⟨code, member⟩ | member
  · rcases List.mem_append.mp member with earlier | now
    · exact Or.inl (Or.inl ⟨code, earlier⟩)
    · exact Or.inr (Or.inl ⟨code, (List.mem_singleton.mp now).symm⟩)
  · rcases List.mem_append.mp member with earlier | now
    · exact Or.inl (Or.inr earlier)
    · exact Or.inr (Or.inr (List.mem_singleton.mp now).symm)

/-- A stream is ended only once the peer's settings have been seen. -/
theorem Step.settled
    {core after : Core}
    (step : Step core after)
    (settled : ∀ id, EndedHere core.events id → core.settingsSeen = true)
    (id : Nat)
    (ended : EndedHere after.events id) :
    after.settingsSeen = true := by
  cases step with
  | received frame =>
      rcases ended.of_append with earlier | ⟨_, other⟩ | other
      · exact settled id earlier
      · cases other
      · cases other
  | emitted plain =>
      rcases ended.of_append with earlier | ⟨_, other⟩ | other
      · exact settled id earlier
      · cases other
        exact absurd rfl plain.2.1
      · cases other
  | ended other code seen refuses => exact seen
  | goingAway code debug =>
      rcases ended.of_append with earlier | ⟨_, other⟩ | other
      · exact settled id earlier
      · cases other
      · cases other
  | breached violation payload same settings applied =>
      rcases ended.of_append with earlier | ⟨_, other⟩ | other
      · exact settled id earlier
      · cases other
      · cases other
  | passedOver opens leaving => exact opens.seen
  | settings applies shifts => rfl
  | grantedConnection kind onConnection holds grants =>
      rcases ended.of_append with earlier | ⟨_, other⟩ | other
      · exact settled id earlier
      · cases other
      · cases other
  | grantedStream kind onStream opened holds found grants =>
      rcases ended.of_append with earlier | ⟨_, other⟩ | other
      · exact settled id earlier
      · cases other
      · cases other
  | sent kind onStream found live sized takes takesStream =>
      rcases ended.of_append with earlier | ⟨_, other⟩ | other
      · exact settled id earlier
      · cases other
        cases kind
      · cases other
  | _ => exact settled id ended

end Core

namespace Connection

open Fallible Core

/-- A frame that is handled without a violation of the connection: at most its
stream is reset. -/
def Tolerates (connection : Connection) (frame : Frame) : Prop :=
  ∀ violation, (handle frame (connection.log (.received frame))).1 ≠
    .error (.connection violation)

/-- Whether an outcome is no violation of the connection. -/
def tolerable : Except Breach Unit → Bool
  | .error (.connection _) => false
  | .error (.stream _ _) | .ok _ => true

theorem tolerable_iff (outcome : Except Breach Unit) :
    tolerable outcome = true ↔
      ∀ violation, outcome ≠ .error (.connection violation) := by
  rcases outcome with (violation | ⟨id, violation⟩) | _
  · exact ⟨(fun no => by cases no), fun none => absurd rfl (none violation)⟩
  · exact ⟨(fun _ _ same => by cases same), fun _ => rfl⟩
  · exact ⟨(fun _ _ same => by cases same), fun _ => rfl⟩

instance (connection : Connection) (frame : Frame) :
    Decidable (Tolerates connection frame) :=
  decidable_of_iff _ (tolerable_iff _)

theorem Reached.capped
    {client : Bool}
    {connection : Connection}
    (reached : Reached client connection) :
    WindowsCapped connection.core := by
  obtain ⟨wire, turns⟩ := reached.turns
  refine turns.invariant Turn.windowsCapped ⟨rfl, ?_, fun id stream found => ?_⟩
  · show ((defaultWindow : Nat) : Int) ≤ maxStreamId
    decide
  · rw [show (initial wire client).core.streams[id]? = none from
      NatMap.getElem?_empty id] at found
    cases found

theorem Reached.settled
    {client : Bool}
    {connection : Connection}
    (reached : Reached client connection)
    {id : Nat}
    (ended : EndedHere connection.events id) :
    connection.settingsSeen = true := by
  obtain ⟨wire, turns⟩ := reached.turns
  refine turns.invariant (motive := fun core => ∀ id,
    EndedHere core.events id → core.settingsSeen = true) ?_ ?_ id ended
  · intro core after turn settled
    cases turn with
    | step step => exact step.settled settled
    | taken thinned => exact settled
    | opened asClient fresh => exact settled
  · rintro other (⟨_, member⟩ | member)
    · cases member
    · cases member

/-- What a frame that is tolerated does. -/
theorem Tolerates.took
    {connection : Connection}
    {frame : Frame}
    (tolerates : Tolerates connection frame)
    (bounded : frame.stream ≤ maxStreamId)
    (waits : Waits connection.core) :
    Took frame (connection.sight.log (.received frame))
      (take frame connection).2.sight := by
  have logged : Waits (connection.log (.received frame)).core :=
    (Step.received connection.core frame).waits waits
  have settles := settles_handle bounded logged
  have tolerated := tolerates
  rw [Tolerates] at tolerated
  rw [Settles, Ensures] at settles
  rw [take, modify_bind_apply, bind_apply, attempt_apply]
  rcases runs : handle frame (connection.log (.received frame)) with
    ⟨outcome, after⟩
  rw [runs] at settles tolerated
  rcases outcome with (violation | ⟨id, violation⟩) | _
  · exact absurd rfl (tolerated violation)
  · have spoils := settles id violation rfl
    rw [← sight_reset] at spoils
    exact spoils
  · exact settles

/-- A header block made whole does on its stream what `Heads` says. -/
theorem heads_of_took
    {frame : Frame}
    {sight after : Sight}
    (took : Took frame sight after)
    {id : Nat}
    {octets : List UInt8}
    {ends : Bool}
    (assembles : sight.core.assembled frame = some (id, octets, ends))
    (whole : frame.has endHeaders = true)
    {fields : List Field}
    {decoder : Hpack.Decoder}
    (decodes : sight.decoder.decode octets = (.ok fields, decoder)) :
    Heads id fields ends { sight.core with continuing := none } after.core := by
  have kind := kind_of_assembled assembles
  cases took with
  | @decoded _ _ _ core list moved assembled _ decoded heads =>
      rw [assembles] at assembled
      cases assembled
      rw [decodes] at decoded
      cases decoded
      exact heads
  | waiting _ onward _ =>
      rw [whole] at onward
      cases onward
  | data other => simp [other] at kind
  | unheard other => rcases other with other | other | other | ⟨_, other⟩ <;>
      simp [other] at kind
  | spoiled _ other => rcases other with other | other <;>
      simp [other] at kind
  | reset _ other => simp [other] at kind
  | settings other => simp [other] at kind
  | pinged other => simp [other] at kind
  | ponged other => simp [other] at kind
  | wentAway other => simp [other] at kind
  | granted other => simp [other] at kind

/-! ## A stream that was opened -/

/-- A frame makes a header block whole on `id`, an odd stream above the last the
peer opened, and the block decodes to `fields`. -/
structure Arrives (connection : Connection) (frame : Frame) (id : Nat)
    (fields : List Field) : Prop where
  decodes : ∃ octets ends decoder,
    connection.core.assembled frame = some (id, octets, ends) ∧
      connection.decoder.decode octets = (.ok fields, decoder)
  whole : frame.has endHeaders = true
  odd : id % 2 = 1
  above : connection.lastPeer < id

/-- However a run goes on, `id` is not idle, and where it has no record it gets
none. -/
def NeverIdle (connection : Connection) (id : Nat) : Prop :=
  ∀ later, Strides connection later →
    (id ≤ later.lastPeer ∧ id ≤ later.highest) ∧ later.idle id = false ∧
      (later.streams[id]? = none → ∀ further, Strides later further →
        further.streams[id]? = none)

theorem neverIdle_of_reached
    {connection : Connection}
    (sound : Sound connection.core)
    (server : connection.client = false)
    {id : Nat}
    (reached : id ≤ connection.lastPeer) :
    NeverIdle connection id := by
  intro later strides
  have turns := Strides.turns strides sound
  have laterSound := turns.sound sound
  have last : id ≤ later.lastPeer := reached.trans turns.monotone.1
  have highest : id ≤ later.highest := last.trans laterSound.placed.last
  refine ⟨⟨last, highest⟩, ?_, fun absent further more => ?_⟩
  · rw [idle, decide_eq_false_iff_not]
    exact not_lt.mpr highest
  · exact (Strides.turns more laterSound).absent_of_reached
      (turns.client.trans server) last absent

/-- A malformed list moves nothing. -/
theorem lastPeer_of_malformed
    {id : Nat}
    {fields : List Field}
    {ends : Bool}
    {core after : Core}
    (heads : Heads id fields ends core after)
    {violation : Violation}
    (fails : Message.check fields core.headerListLimit = .error violation) :
    after.lastPeer = core.lastPeer := by
  have fails (checks : Message.check fields core.headerListLimit = .ok ()) :
      False := by
    rw [checks] at fails
    cases fails
  cases heads with
  | malformed => rfl
  | letGo => rfl
  | headed => rfl
  | unheaded => rfl
  | opened checks => exact (fails checks).elim
  | passedOver checks => exact (fails checks).elim
  | refused checks => exact (fails checks).elim

/-- A well-formed list on a stream without a record moves the last the peer
opened to it, whatever becomes of it. -/
theorem reached_of_checked
    {id : Nat}
    {fields : List Field}
    {ends : Bool}
    {core after : Core}
    (heads : Heads id fields ends core after)
    (checks : Message.check fields core.headerListLimit = .ok ())
    (absent : ∀ stream, core.streams[id]? ≠ some stream) :
    id ≤ after.lastPeer := by
  cases heads with
  | malformed violation fails =>
      rw [checks] at fails
      cases fails
  | letGo _ found => exact absurd found (absent _)
  | headed _ found => exact absurd found (absent _)
  | unheaded _ found => exact absurd found (absent _)
  | opened => exact le_refl id
  | passedOver => exact le_refl id
  | refused => exact le_refl id

/-- A stream whose header block has arrived whole is never idle again exactly
where the header list is well formed. -/
theorem neverIdle_iff_checks
    {connection : Connection}
    (reached : Reached false connection)
    {frame : Frame}
    (bounded : frame.stream ≤ maxStreamId)
    (tolerates : Tolerates connection frame)
    {id : Nat}
    {fields : List Field}
    (arrives : Arrives connection frame id fields) :
    NeverIdle (take frame connection).2 id ↔
      Message.check fields connection.headerListLimit = .ok () := by
  have sound := reached.sound
  have steps := moves_take bounded sound.waits
  have after : Sound (take frame connection).2.core :=
    (Steps.turns steps).sound sound
  have server : connection.client = false := reached.client
  have serves : (take frame connection).2.client = false :=
    steps.client.trans server
  obtain ⟨octets, ends, decoder, assembles, decodes⟩ := arrives.decodes
  have heads := heads_of_took (tolerates.took bounded sound.waits) assembles
    arrives.whole decodes
  have absent (stream : Stream) : connection.streams[id]? ≠ some stream :=
    fun found => absurd arrives.above
      (not_lt.mpr (sound.placed.peers server id stream found))
  constructor
  · intro never
    have last := (never _ .refl).1.1
    cases checks : Message.check fields connection.headerListLimit with
    | ok => rfl
    | error violation =>
        have same : (take frame connection).2.lastPeer =
            connection.lastPeer := lastPeer_of_malformed heads checks
        rw [same] at last
        exact absurd arrives.above (not_lt.mpr last)
  · intro checks
    refine neverIdle_of_reached after serves ?_
    exact reached_of_checked heads checks absent

/-! ## A `DATA` in flight -/

/-- The next `count` frames emitted are held, or written and flushed. -/
def Writes (connection : Connection) (count : Nat) : Prop :=
  connection.held.isSome = true ∨
    ∀ acceptance ∈ connection.wire.accepts.take (2 * count),
      acceptance = .taken

theorem writeAll_eq
    (doing : String)
    (bytes : List UInt8)
    (connection : Connection) :
    ((writeAll doing bytes connection).1 = .ok () ↔
        ∀ acceptance ∈ connection.wire.accepts.take 1, acceptance = .taken) ∧
      (writeAll doing bytes connection).2.wire.accepts =
        connection.wire.accepts.drop 1 := by
  have outcome : (writeAll doing bytes connection).1 =
      (connection.wire.writeAll bytes).1.mapError (.fromIo doing) := rfl
  have accepts : (writeAll doing bytes connection).2.wire.accepts =
      (connection.wire.writeAll bytes).2.accepts := rfl
  rw [outcome, accepts, Wire.writeAll]
  rcases connection.wire.accepts with _ | ⟨_ | ⟨octets, error⟩, rest⟩
  · exact ⟨⟨(fun _ _ member => by cases member), fun _ => rfl⟩, rfl⟩
  · refine ⟨⟨fun _ acceptance member => ?_, fun _ => rfl⟩, rfl⟩
    exact List.mem_singleton.mp member
  · refine ⟨⟨(fun fails => by cases fails), fun taken => ?_⟩, rfl⟩
    cases taken _ (List.mem_singleton_self _)

theorem put_eq
    (doing ending : String)
    (bytes : List UInt8)
    (connection : Connection) :
    ((put doing ending bytes connection).1 = .ok () ↔
        ∀ acceptance ∈ connection.wire.accepts.take 2, acceptance = .taken) ∧
      ((put doing ending bytes connection).1 = .ok () →
        (put doing ending bytes connection).2.wire.accepts =
          connection.wire.accepts.drop 2) := by
  obtain ⟨writes, left⟩ := writeAll_eq doing bytes connection
  have both : connection.wire.accepts.take 2 =
      connection.wire.accepts.take 1 ++
        (connection.wire.accepts.drop 1).take 1 :=
    List.take_add (i := 1) (j := 1)
  rw [both, List.forall_mem_append, put, bind_apply]
  split
  next after runs =>
    rw [runs] at writes left
    obtain ⟨flushes, rest⟩ := writeAll_eq ending [] after
    have wrote := writes.mp rfl
    refine ⟨?_, fun _ => ?_⟩
    · rw [← left]
      exact flushes.trans ⟨fun taken => ⟨wrote, taken⟩, And.right⟩
    · refine rest.trans ?_
      rw [left, List.drop_drop]
  next failure after runs =>
    rw [runs] at writes
    exact ⟨⟨(fun fails => by cases fails), fun taken =>
      by cases writes.mpr taken.1⟩, fun fails => by cases fails⟩

/-- A frame that goes out, and what may go out after it. -/
theorem emit_of_writes
    {connection : Connection}
    (writes : Writes connection 1)
    (frame : Frame) :
    (emit frame connection).1 = .ok () ∧
      ∀ count, Writes (emit frame connection).2 count ↔
        Writes connection (count + 1) := by
  rw [emit_apply]
  cases held : connection.held with
  | some bytes =>
      refine ⟨rfl, fun count => ⟨fun _ => Or.inl ?_, fun _ => Or.inl rfl⟩⟩
      rw [held]
      rfl
  | none =>
      have unheld : ¬connection.held.isSome = true := by simp [held]
      have taken := writes.resolve_left unheld
      obtain ⟨puts, left⟩ := put_eq "writing a frame" "flushing a frame"
        frame.encode (connection.log (.emitted frame))
      have goes := puts.mpr taken
      refine ⟨goes, fun count => ?_⟩
      have split : connection.wire.accepts.take (2 * (count + 1)) =
          connection.wire.accepts.take 2 ++
            (connection.wire.accepts.drop 2).take (2 * count) := by
        rw [← List.take_add]
        congr 1
        omega
      have still : (put "writing a frame" "flushing a frame" frame.encode
          (connection.log (.emitted frame))).2.held = none := by
        rw [held_put]
        exact held
      simp only [Writes, still, held, left goes, split, List.forall_mem_append]
      exact or_congr_right ⟨fun rest => ⟨taken, rest⟩, And.right⟩

theorem emit_of_not_writes
    {connection : Connection}
    (fails : ¬Writes connection 1)
    (frame : Frame) :
    (emit frame connection).1 ≠ .ok () := by
  rw [Writes, not_or, Bool.not_eq_true, Option.isSome_eq_false_iff,
    Option.isNone_iff_eq_none] at fails
  obtain ⟨unheld, refuses⟩ := fails
  rw [emit_apply, unheld]
  intro goes
  exact refuses ((put_eq "writing a frame" "flushing a frame" frame.encode
    (connection.log (.emitted frame))).1.mp goes)

theorem tolerable_answer_iff
    (connection : Connection)
    (frame : Frame) :
    tolerable (answer frame connection).1 = true ↔ Writes connection 1 := by
  constructor
  · intro tolerated
    by_contra fails
    have lost := emit_of_not_writes fails frame
    rw [answer, mapError] at tolerated
    cases outcome : (emit frame connection).1 with
    | ok => exact lost outcome
    | error failure =>
        rw [outcome] at tolerated
        cases tolerated
  · intro writes
    rw [answer, mapError, (emit_of_writes writes frame).1]
    rfl

theorem intolerable_bind
    {first : Handler Unit}
    {connection : Connection}
    (fails : tolerable (first connection).1 = false)
    (next : Unit → Handler Unit) :
    tolerable ((first >>= next) connection).1 = false := by
  rw [bind_apply]
  split
  next runs =>
    rw [runs] at fails
    cases fails
  next runs =>
    rw [runs] at fails
    exact fails

section Data

variable (connection : Connection) {frame : Frame}

/-- What was taken from a window may be given back. -/
theorem grant_of_taken
    {window taken : Window}
    {length : Nat}
    (capped : window.value ≤ maxStreamId)
    (takes : window.take length = .ok taken)
    (positive : 0 < length)
    (small : length < 2 ^ 32) :
    ∃ granted, taken.grant (incrementOf length) = .ok granted := by
  obtain ⟨_, value⟩ := Window.take_eq_ok_iff.mp takes
  refine ⟨{ value := taken.value + length }, ?_⟩
  rw [incrementOf, if_pos small, Window.grant_eq_ok_iff]
  refine ⟨positive, ?_, rfl⟩
  omega

/-- A `DATA` on a stream that takes it. -/
theorem tolerable_extendBody_iff
    {stream taken : Stream}
    (capped : stream.receive.value ≤ maxStreamId)
    (takes : stream.receive.take frame.payload.length = .ok taken.receive)
    (small : frame.payload.length < 2 ^ 32) :
    tolerable (extendBody frame taken connection).1 = true ↔
      ∃ content, frame.content = .ok content ∧
        (taken.body.length + content.length ≤ maxBody →
          frame.has endStream = false → frame.payload ≠ [] →
            Writes connection 1) := by
  rw [extendBody, modify_bind_apply, bind_apply, onConnection, lift]
  cases frame.content with
  | error violation =>
      refine ⟨(fun no => by cases no), ?_⟩
      rintro ⟨_, no, _⟩
      cases no
  | ok content =>
      simp only [Except.mapError, Except.ok.injEq, exists_eq_left']
      split
      next exceeds =>
        exact ⟨fun _ short => absurd exceeds (not_lt.mpr short), fun _ => rfl⟩
      next within =>
        have short := not_lt.mp within
        split
        next ends =>
          refine ⟨fun _ _ unended => ?_, fun _ => rfl⟩
          rw [ends] at unended
          cases unended
        next unended =>
          rw [Bool.not_eq_true] at unended
          split
          next positive =>
            have some : frame.payload ≠ [] := List.ne_nil_of_length_pos positive
            obtain ⟨granted, grants⟩ :=
              grant_of_taken capped takes positive small
            rw [modify_bind_apply, bind_apply, onConnection, lift, grants]
            simp only [Except.mapError, modify_bind_apply]
            rw [tolerable_answer_iff]
            exact ⟨fun writes _ _ _ => writes, fun writes =>
              writes short unended some⟩
          next zero =>
            refine ⟨fun _ _ _ some => ?_, fun _ => rfl⟩
            exact absurd (List.length_pos_of_ne_nil some) zero

/-- What a `DATA` on a live record asks of the frame and, where its octets are
given back, of the writes after the first `count`. -/
def Extensible (connection : Connection) (frame : Frame) (count : Nat) : Prop :=
  ∀ stream, connection.streams[frame.stream]? = some stream →
    stream.reset = none → stream.state.receiving = true →
      frame.payload.length ≤ stream.receive.value →
        ∃ content, frame.content = .ok content ∧
          (stream.body.length + content.length ≤ maxBody →
            frame.has endStream = false → frame.payload ≠ [] →
              Writes connection (count + 1))

theorem tolerable_dataOn_iff
    (capped : ∀ stream, connection.streams[frame.stream]? = some stream →
      stream.receive.value ≤ maxStreamId)
    (small : frame.payload.length < 2 ^ 32) :
    tolerable (dataOn frame connection).1 = true ↔
      frame.stream ≤ connection.highest ∧ Extensible connection frame 0 := by
  rw [dataOn, get_bind_apply]
  by_cases idle : connection.idle frame.stream = true
  · rw [if_pos idle]
    rw [Connection.idle, decide_eq_true_iff] at idle
    exact ⟨(fun no => by cases no), fun known =>
      absurd known.1 (not_le.mpr idle)⟩
  · rw [if_neg idle]
    rw [Connection.idle, decide_eq_true_iff, not_lt] at idle
    simp only [idle, true_and, Extensible]
    cases found : connection.streams[frame.stream]? with
    | none => exact ⟨(fun _ _ no => by cases no), fun _ => rfl⟩
    | some stream =>
        simp only [Option.some.injEq, forall_eq']
        by_cases dead : stream.reset.isSome = true
        · rw [if_pos dead]
          refine ⟨fun _ live => ?_, fun _ => rfl⟩
          rw [live] at dead
          cases dead
        · rw [if_neg dead]
          have live : stream.reset = none := by simpa using dead
          by_cases shut : ¬stream.state.receiving = true
          · rw [if_pos shut]
            exact ⟨fun _ _ receiving => absurd receiving shut, fun _ => rfl⟩
          · rw [if_neg shut]
            rw [not_not] at shut
            simp only [live, shut, true_imp_iff]
            rw [bind_apply, onStream, lift]
            cases takes : stream.receive.take frame.payload.length with
            | error violation =>
                refine ⟨fun _ room => ?_, fun _ => rfl⟩
                rw [Window.take, if_neg (not_lt.mpr room)] at takes
                cases takes
            | ok taken =>
                have room := (Window.take_eq_ok_iff.mp takes).1
                have extending := tolerable_extendBody_iff connection
                  (show stream.receive.value ≤ maxStreamId from
                    capped stream found)
                  (show stream.receive.take frame.payload.length =
                    .ok { stream with receive := taken }.receive from takes)
                  small
                simp only [live] at extending
                simp only [Except.mapError, room, true_imp_iff]
                exact extending

/-- Giving the octets of a `DATA` back to the connection. -/
theorem giveBack_of_writes
    {window : Window}
    {length : Nat}
    (capped : window.value ≤ maxStreamId)
    (takes : window.take length = .ok connection.receive)
    (positive : 0 < length)
    (small : length < 2 ^ 32)
    (writes : Writes connection 1) :
    ∃ after, giveBack length connection = (.ok (), after) ∧
      (∀ count, Writes after count ↔ Writes connection (count + 1)) ∧
        after.streams = connection.streams ∧
          after.highest = connection.highest := by
  let update := Frame.windowUpdate 0 (incrementOf length)
  obtain ⟨goes, more⟩ := emit_of_writes writes update
  have core := core_emit update connection
  have receive : (emit update connection).2.receive = connection.receive :=
    congrArg Core.receive core
  obtain ⟨granted, grants⟩ := grant_of_taken capped takes positive small
  have answers : answer update connection =
      (.ok (), (emit update connection).2) := by
    rw [answer, mapError, goes]
    rfl
  refine ⟨{ (emit update connection).2 with receive := granted }, ?_, more,
    congrArg Core.streams core, congrArg Core.highest core⟩
  rw [giveBack, if_pos positive, bind_of_ok answers, get_bind_apply, receive,
    grants]
  rfl

theorem giveBack_of_not_writes
    {length : Nat}
    (positive : 0 < length)
    (fails : ¬Writes connection 1) :
    tolerable (giveBack length connection).1 = false := by
  have lost := emit_of_not_writes fails
    (.windowUpdate 0 (incrementOf length))
  rw [giveBack, if_pos positive, bind_apply, answer, mapError]
  cases outcome : (emit (.windowUpdate 0 (incrementOf length))
      connection).1 with
  | ok => exact absurd outcome lost
  | error failure => rfl

/-- A `DATA` within the connection's window. -/
theorem tolerable_data_iff
    (capped : connection.receive.value ≤ maxStreamId)
    (cappedOn : ∀ stream, connection.streams[frame.stream]? = some stream →
      stream.receive.value ≤ maxStreamId)
    (room : frame.payload.length ≤ connection.receive.value)
    (small : frame.payload.length < 2 ^ 32) :
    tolerable (data frame connection).1 = true ↔
      frame.stream ≤ connection.highest ∧
        (frame.payload ≠ [] → Writes connection 1) ∧
          Extensible connection frame 1 := by
  obtain ⟨taken, takes⟩ : ∃ taken,
      connection.receive.take frame.payload.length = .ok taken :=
    ⟨_, Window.take_eq_ok_iff.mpr ⟨room, rfl⟩⟩
  have takesConnection : takeConnection frame.payload.length connection =
      (.ok (), { connection with receive := taken }) := by
    rw [takeConnection, get_bind_apply, takes]
    rfl
  rw [data, bind_of_ok takesConnection]
  by_cases none : frame.payload = []
  · have nothing : ¬0 < frame.payload.length := by simp [none]
    have gives : giveBack frame.payload.length
        { connection with receive := taken } =
          (.ok (), { connection with receive := taken }) := by
      rw [giveBack, if_neg nothing]
      rfl
    rw [bind_of_ok gives, tolerable_dataOn_iff _ (by exact cappedOn) small]
    simp only [Extensible, none, ne_eq, not_true, false_imp_iff, imp_true_iff,
      true_and]
  · have positive := List.length_pos_of_ne_nil none
    by_cases writes : Writes connection 1
    · obtain ⟨after, gives, more, same, highest⟩ := giveBack_of_writes
        { connection with receive := taken } capped takes positive small
        writes
      rw [bind_of_ok gives, tolerable_dataOn_iff after
        (by rw [same]; exact cappedOn) small]
      simp only [Extensible, same, highest, more, none, writes, ne_eq,
        not_false_iff, true_imp_iff, true_and]
      rfl
    · have lost := giveBack_of_not_writes
        { connection with receive := taken } positive writes
      rw [intolerable_bind lost]
      refine ⟨(fun no => by cases no), ?_⟩
      rintro ⟨_, answered, _⟩
      exact absurd (answered none) writes

/-- A `DATA` is let through to its stream unless it comes between the frames of
a header block. -/
theorem tolerates_iff_of_data
    (kind : frame.kind = .data)
    (seen : connection.settingsSeen = true)
    (placed : frame.stream ≠ 0) :
    Tolerates connection frame ↔ connection.continuing = none ∧
      tolerable (data frame (connection.log (.received frame))).1 = true := by
  rw [Tolerates, ← tolerable_iff, handle, get_bind_apply]
  have first : ¬(¬(connection.log (.received frame)).settingsSeen = true ∧
      frame.kind ≠ .settings) := fun unseen => unseen.1 seen
  have right : wrongStream frame = false := by
    simp [wrongStream, kind, placed]
  rw [if_neg first, right]
  cases continuing : connection.continuing with
  | some waiting =>
      have interrupts : (connection.log (.received frame)).interrupts frame =
          true := by
        simp [Connection.interrupts, log, continuing, kind]
      rw [if_pos interrupts]
      exact ⟨(fun no => by cases no), fun no => by cases no.1⟩
  | none =>
      have through : ¬(connection.log (.received frame)).interrupts frame =
          true := by
        simp [Connection.interrupts, log, continuing]
      rw [if_neg through, if_neg Bool.false_ne_true, dispatch, kind]
      exact ⟨fun tolerated => ⟨rfl, tolerated⟩, And.right⟩

end Data

/-! ## A header block in flight -/

/-- A frame makes a header block whole on `id`, and it decodes to `fields`. -/
structure Trails (connection : Connection) (frame : Frame) (id : Nat)
    (fields : List Field) : Prop where
  decodes : ∃ octets ends decoder,
    connection.core.assembled frame = some (id, octets, ends) ∧
      octets.length ≤ maxBlock ∧
        connection.decoder.decode octets = (.ok fields, decoder)
  whole : frame.has endHeaders = true
  uninterrupted : connection.interrupts frame = false

theorem tolerable_headersOnRecord
    (id : Nat)
    (stream : Stream)
    (fields : List Field)
    (ends : Bool)
    (connection : Connection) :
    tolerable (headersOnRecord id stream fields ends connection).1 = true := by
  rw [headersOnRecord, bind_apply, onStream, lift]
  cases stream.headers fields ends with
  | error violation => rfl
  | ok changed => rfl

theorem tolerable_openByPeer
    (id : Nat)
    (fields : List Field)
    (ends : Bool)
    (connection : Connection) :
    tolerable (openByPeer id fields ends connection).1 = true := by
  rw [openByPeer, modify_bind_apply, get_bind_apply]
  split
  · rfl
  · split
    · rfl
    · rw [modify_bind_apply, get_bind_apply]
      generalize Connection.openStream _ id = opened
      cases opened.streams[id]? with
      | some stream => exact tolerable_headersOnRecord id stream fields ends _
      | none => rfl

theorem tolerable_fieldsOn_iff
    (id : Nat)
    (fields : List Field)
    (ends : Bool)
    (connection : Connection) :
    tolerable (fieldsOn id fields ends connection).1 = true ↔
      (∃ stream, connection.streams[id]? = some stream) ∨
        (connection.client = false ∧ id % 2 = 1 ∧ connection.lastPeer < id) := by
  rw [fieldsOn, get_bind_apply]
  cases connection.streams[id]? with
  | some stream =>
      refine ⟨fun _ => Or.inl ⟨stream, rfl⟩, fun _ => ?_⟩
      simp only
      split
      · rfl
      · exact tolerable_headersOnRecord id stream fields ends connection
  | none =>
      simp only
      split
      next refuses =>
        refine ⟨(fun no => by cases no), ?_⟩
        rintro (⟨_, no⟩ | ⟨server, odd, above⟩)
        · cases no
        · rcases refuses with no | even | low
          · rw [server] at no
            cases no
          · omega
          · omega
      next opens =>
        rw [not_or, not_or, not_le, Bool.not_eq_true] at opens
        obtain ⟨server, odd, above⟩ := opens
        refine ⟨fun _ => Or.inr ⟨server, by omega, above⟩, fun _ => ?_⟩
        exact tolerable_openByPeer id fields ends connection

/-- A header block that decodes is let through to its stream. -/
theorem tolerable_block_iff
    {id : Nat}
    {octets : List UInt8}
    (connection : Connection)
    (short : octets.length ≤ maxBlock)
    {fields : List Field}
    {decoder : Hpack.Decoder}
    (decodes : connection.decoder.decode octets = (.ok fields, decoder))
    (ends : Bool) :
    tolerable (block id octets ends true connection).1 = true ↔
      Message.check fields connection.headerListLimit ≠ .ok () ∨
        (∃ stream, connection.streams[id]? = some stream) ∨
          (connection.client = false ∧ id % 2 = 1 ∧
            connection.lastPeer < id) := by
  have decoded : decodeBlock octets connection =
      (.ok fields, { connection with decoder }) := by
    rw [decodeBlock, decodes]
    rfl
  rw [block, if_neg (not_lt.mpr short), if_neg (not_not.mpr rfl),
    bind_of_ok decoded, get_bind_apply, bind_apply, onStream, lift]
  have limit : ({ connection with decoder } : Connection).headerListLimit =
      connection.headerListLimit := rfl
  rw [limit]
  cases checks : Message.check fields connection.headerListLimit with
  | error violation =>
      exact ⟨(fun _ => Or.inl fun no => by cases no), fun _ => rfl⟩
  | ok =>
      simp only [Except.mapError]
      rw [tolerable_fieldsOn_iff]
      exact ⟨Or.inr, fun either => either.resolve_left fun other => other rfl⟩

/-- A frame of a header block that interrupts nothing goes on or ends the
block. -/
theorem handle_of_assembled
    {connection : Connection}
    {frame : Frame}
    {id : Nat}
    {octets : List UInt8}
    {ends : Bool}
    (seen : connection.settingsSeen = true)
    (placed : id ≠ 0)
    (assembles : connection.core.assembled frame = some (id, octets, ends))
    (uninterrupted : connection.interrupts frame = false) :
    ∃ continuing, handle frame (connection.log (.received frame)) =
      block id octets ends (frame.has endHeaders)
        { connection.log (.received frame) with continuing := continuing } := by
  have first : ¬(¬(connection.log (.received frame)).settingsSeen = true ∧
      frame.kind ≠ .settings) := fun unseen => unseen.1 seen
  have through : ¬(connection.log (.received frame)).interrupts frame =
      true := by
    rw [show (connection.log (.received frame)).interrupts frame = false from
      uninterrupted]
    exact Bool.false_ne_true
  rw [handle, get_bind_apply, if_neg first, if_neg through]
  rw [Core.assembled] at assembles
  split at assembles
  next kind =>
    split at assembles
    next content =>
      cases assembles
      have right : wrongStream frame = false := by
        simp [wrongStream, kind, placed]
      refine ⟨connection.continuing, ?_⟩
      rw [right, if_neg Bool.false_ne_true, dispatch, kind]
      show (onConnection frame.content >>= _) _ = _
      rw [content]
      rfl
    · cases assembles
  next kind =>
    rw [Option.map_eq_some_iff] at assembles
    obtain ⟨waiting, continuing, same⟩ := assembles
    cases same
    have continued : connection.continuing = some waiting := continuing
    have onStream : frame.stream = waiting.stream := by
      simpa [Connection.interrupts, continued, kind] using uninterrupted
    have right : wrongStream frame = false := by
      simp [wrongStream, kind, onStream, placed]
    refine ⟨none, ?_⟩
    rw [right, if_neg Bool.false_ne_true, dispatch, kind]
    show continuation frame _ = _
    rw [continuation, get_bind_apply,
      show (connection.log (.received frame)).continuing = some waiting from
        continued]
    rfl
  · cases assembles

/-- A header block that goes on breaches nothing. -/
theorem tolerates_of_onward
    {connection : Connection}
    {frame : Frame}
    {id : Nat}
    {octets : List UInt8}
    {ends : Bool}
    (seen : connection.settingsSeen = true)
    (placed : id ≠ 0)
    (assembles : connection.core.assembled frame = some (id, octets, ends))
    (uninterrupted : connection.interrupts frame = false)
    (short : octets.length ≤ maxBlock)
    (onward : frame.has endHeaders = false) :
    Tolerates connection frame := by
  obtain ⟨continuing, runs⟩ :=
    handle_of_assembled seen placed assembles uninterrupted
  rw [Tolerates, runs, onward, block, if_neg (not_lt.mpr short)]
  exact fun violation fails => by cases fails

theorem tolerates_iff_of_trails
    {connection : Connection}
    {frame : Frame}
    {id : Nat}
    {fields : List Field}
    (seen : connection.settingsSeen = true)
    (placed : id ≠ 0)
    (trails : Trails connection frame id fields) :
    Tolerates connection frame ↔
      Message.check fields connection.headerListLimit ≠ .ok () ∨
        (∃ stream, connection.streams[id]? = some stream) ∨
          (connection.client = false ∧ id % 2 = 1 ∧
            connection.lastPeer < id) := by
  obtain ⟨octets, ends, decoder, assembles, short, decodes⟩ := trails.decodes
  obtain ⟨continuing, runs⟩ :=
    handle_of_assembled seen placed assembles trails.uninterrupted
  rw [Tolerates, ← tolerable_iff, runs, trails.whole]
  exact tolerable_block_iff
    { connection.log (.received frame) with continuing := continuing } short
    decodes ends

/-! ## Streams that were ended -/

/-- A frame still in flight on `id`: a `DATA` within the frame size and the
connection's window, or the last of a header block that decodes. -/
inductive Late (connection : Connection) (id : Nat) (frame : Frame) : Prop
  | data
      (kind : frame.kind = .data)
      (onStream : frame.stream = id)
      (sized : frame.payload.length ≤ connection.localSettings.maxFrameSize)
      (room : frame.payload.length ≤ connection.receive.value)
  | block
      (fields : List Field)
      (trails : Trails connection frame id fields)

/-- What a frame in flight on `id` finds: no header block it interrupts, a
stream that is not idle and a wire that takes the answers; or a list that is
malformed, a record that is still there, or a stream still to be opened. -/
structure Bears (connection : Connection) (id : Nat) (frame : Frame) :
    Prop where
  data : frame.kind = .data → connection.continuing = none ∧
    id ≤ connection.highest ∧ (frame.payload ≠ [] → Writes connection 1) ∧
      Extensible connection frame 1
  block : ∀ fields, Trails connection frame id fields →
    Message.check fields connection.headerListLimit ≠ .ok () ∨
      (∃ stream, connection.streams[id]? = some stream) ∨
        (connection.client = false ∧ id % 2 = 1 ∧ connection.lastPeer < id)

theorem Trails.kind
    {connection : Connection}
    {frame : Frame}
    {id : Nat}
    {fields : List Field}
    (trails : Trails connection frame id fields) :
    frame.kind ≠ .data := by
  obtain ⟨octets, ends, decoder, assembles, _⟩ := trails.decodes
  have kind := kind_of_assembled assembles
  intro other
  simp [other] at kind

theorem Trails.fields_eq
    {connection : Connection}
    {frame : Frame}
    {id : Nat}
    {fields others : List Field}
    (trails : Trails connection frame id fields)
    (alike : Trails connection frame id others) :
    fields = others := by
  obtain ⟨octets, ends, decoder, assembles, _, decodes⟩ := trails.decodes
  obtain ⟨_, _, _, assembled, _, decoded⟩ := alike.decodes
  rw [assembles] at assembled
  cases assembled
  rw [decodes] at decoded
  cases decoded
  rfl

/-- A frame in flight on a stream this side has ended leaves the connection
standing exactly where the connection bears it. -/
theorem tolerates_iff_of_ended
    {client : Bool}
    {connection : Connection}
    (reached : Reached client connection)
    {id : Nat}
    (placed : id ≠ 0)
    (ended : EndedHere connection.events id)
    {frame : Frame}
    (late : Late connection id frame) :
    Tolerates connection frame ↔ Bears connection id frame := by
  have seen := reached.settled ended
  have capped := reached.capped
  cases late with
  | data kind onStream sized room =>
      have small : frame.payload.length < 2 ^ 32 := by
        have ours : connection.localSettings = .ours := capped.ours
        rw [ours] at sized
        exact sized.trans_lt (by decide)
      have through := tolerates_iff_of_data connection kind seen
        (onStream ▸ placed)
      have taken := tolerable_data_iff (connection.log (.received frame))
        capped.connection (capped.streams frame.stream) room small
      rw [onStream] at taken
      rw [through, taken]
      constructor
      · intro bears
        refine ⟨fun _ => bears, fun fields trails => ?_⟩
        exact absurd kind trails.kind
      · exact fun bears => bears.data kind
  | block fields trails =>
      rw [tolerates_iff_of_trails seen placed trails]
      constructor
      · intro bears
        refine ⟨fun kind => absurd kind trails.kind, fun others alike => ?_⟩
        rw [← trails.fields_eq alike]
        exact bears
      · exact fun bears => bears.block fields trails

end Connection

namespace Server

open Core Connection

theorem arrives_of_decided
    {connection : Connection}
    {frame : Frame}
    {id : Nat}
    {octets : List UInt8}
    {ends : Bool}
    {fields : List Field}
    (assembles : connection.core.assembled frame = some (id, octets, ends))
    (decodes : (connection.decoder.decode octets).1.toOption = some fields)
    (whole : frame.has endHeaders = true)
    (odd : id % 2 = 1)
    (above : connection.lastPeer < id) :
    Arrives connection frame id fields :=
  ⟨⟨octets, ends, (connection.decoder.decode octets).2, assembles,
    Prod.ext (Fallible.eq_ok_of_toOption decodes) rfl⟩, whole, odd, above⟩

/-- A header block on stream 1 whose only field has no name. -/
def namelessFrame : Frame where
  kind := .headers
  flags := endHeaders
  stream := 1
  payload := [0x00, 0x00, 0x00]

/-- A client whose first header block is malformed, and that then sends on the
stream. -/
def namelessWire : Wire where
  incoming := [.octets (preface ++
    (⟨.settings, 0, 0, []⟩ : Frame).encode ++ namelessFrame.encode ++
    (⟨.data, 0, 1, []⟩ : Frame).encode)]
  accepts := []
  written := []

/-- The stream of a malformed header block is reset and stays idle: what is sent
on it next ends the connection. -/
theorem not_neverIdle_of_nameless :
    ∃ server, handshake namelessWire = .ok server ∧
      let before := (run .bare server [.readFrame]).2.connection
      Arrives before namelessFrame 1 [("", "")] ∧
        Tolerates before namelessFrame ∧
        ¬NeverIdle (Connection.take namelessFrame before).2 1 ∧
        ¬Tolerates (Connection.take namelessFrame before).2
          ⟨.data, 0, 1, []⟩ := by
  obtain ⟨server, opens, checked⟩ := exists_of_handshake
    (show (handshake namelessWire).toOption.map (fun server =>
      let before := (run .bare server [.readFrame]).2.connection
      let after := (Connection.take namelessFrame before).2
      decide (before.core.assembled namelessFrame =
          some (1, [0x00, 0x00, 0x00], false)) &&
        (decide ((before.decoder.decode [0x00, 0x00, 0x00]).1.toOption =
            some [("", "")]) &&
          (decide (before.lastPeer < 1) &&
            (decide (Tolerates before namelessFrame) &&
              (decide (after.lastPeer = 0) &&
                decide (¬Tolerates after ⟨.data, 0, 1, []⟩)))))) =
                  some true by decide +kernel)
  simp only [Bool.and_eq_true, decide_eq_true_eq] at checked
  obtain ⟨assembles, decodes, above, tolerates, last, breached⟩ := checked
  refine ⟨server, opens, arrives_of_decided assembles decodes rfl rfl above,
    tolerates, fun never => ?_, breached⟩
  have reached := (never _ .refl).1.1
  rw [last] at reached
  cases reached

/-- The header block of a request for `/` on stream 1. -/
def headFrame : Frame where
  kind := .headers
  flags := endHeaders
  stream := 1
  payload := [0x82, 0x86, 0x84]

/-- A stream whose header list is well formed is never idle again. -/
theorem neverIdle_iff_checks_asked :
    ∃ server, handshake askingWire = .ok server ∧
      let before := (run .bare server [.readFrame]).2.connection
      Arrives before headFrame 1
          [(":method", "GET"), (":scheme", "http"), (":path", "/")] ∧
        NeverIdle (Connection.take headFrame before).2 1 := by
  obtain ⟨server, opens, checked⟩ := exists_of_handshake
    (show (handshake askingWire).toOption.map (fun server =>
      let before := (run .bare server [.readFrame]).2.connection
      let fields : List Field :=
        [(":method", "GET"), (":scheme", "http"), (":path", "/")]
      decide (before.core.assembled headFrame =
          some (1, [0x82, 0x86, 0x84], false)) &&
        (decide ((before.decoder.decode [0x82, 0x86, 0x84]).1.toOption =
            some fields) &&
          (decide (before.lastPeer < 1) &&
            (decide (Tolerates before headFrame) &&
              decide ((Message.check fields
                before.headerListLimit).toOption = some ()))))) =
                  some true by decide +kernel)
  simp only [Bool.and_eq_true, decide_eq_true_eq] at checked
  obtain ⟨assembles, decodes, above, tolerates, checks⟩ := checked
  have arrives := arrives_of_decided assembles decodes rfl rfl above
  refine ⟨server, opens, arrives, ?_⟩
  exact (neverIdle_iff_checks (reached_run .bare opens [.readFrame])
    (by decide) tolerates arrives).mpr (Fallible.eq_ok_of_toOption checks)

/-! ## Frames in flight on a stream that was ended -/

/-- The `DATA` of a body still in flight on stream 1. -/
def lateData : Frame where
  kind := .data
  flags := 0
  stream := 1
  payload := [0x61]

/-- Trailers still in flight on stream 1: one field, `a` of `b`. -/
def lateTrailers : Frame where
  kind := .headers
  flags := endStream ||| endHeaders
  stream := 1
  payload := [0x00, 0x01, 0x61, 0x01, 0x62]

/-- A client whose request goes on after the head. -/
def unendedWire : Wire where
  incoming := [.octets (preface ++
    (⟨.settings, 0, 0, []⟩ : Frame).encode ++ headFrame.encode ++
    headFrame.encode)]
  accepts := []
  written := []

/-- The `DATA` on the stream of a malformed header block, which was reset, and
the trailers on a stream that was passed over each end the connection. -/
theorem not_tolerates_of_ended :
    (∃ server, handshake namelessWire = .ok server ∧
      let ended := (run .bare server [.readFrame, .readFrame]).2.connection
      EndedHere ended.events 1 ∧ Late ended 1 lateData ∧
        ¬Tolerates ended lateData) ∧
    (∃ server, handshake unendedWire = .ok server ∧
      let ended :=
        (run .bare server [.readFrame, .goAway, .readFrame]).2.connection
      EndedHere ended.events 1 ∧ Late ended 1 lateTrailers ∧
        ¬Tolerates ended lateTrailers) := by
  constructor
  · obtain ⟨server, opens, checked⟩ := exists_of_handshake
      (show (handshake namelessWire).toOption.map (fun server =>
        let ended := (run .bare server [.readFrame, .readFrame]).2.connection
        decide (.emitted (.reset 1 .protocol) ∈ ended.events ∧
          1 ≤ ended.localSettings.maxFrameSize ∧ 1 ≤ ended.receive.value ∧
            ¬Tolerates ended lateData)) = some true by decide +kernel)
    obtain ⟨reset, sized, room, breached⟩ := of_decide_eq_true checked
    exact ⟨server, opens, Or.inl ⟨_, reset⟩, .data rfl rfl sized room, breached⟩
  · obtain ⟨server, opens, checked⟩ := exists_of_handshake
      (show (handshake unendedWire).toOption.map (fun server =>
        let ended :=
          (run .bare server [.readFrame, .goAway, .readFrame]).2.connection
        decide (.passedOver 1 ∈ ended.events ∧
          ended.core.assembled lateTrailers =
            some (1, [0x00, 0x01, 0x61, 0x01, 0x62], true) ∧
          (ended.decoder.decode [0x00, 0x01, 0x61, 0x01, 0x62]).1.toOption =
            some [("a", "b")] ∧
          ended.interrupts lateTrailers = false ∧
            ¬Tolerates ended lateTrailers)) = some true by decide +kernel)
    obtain ⟨passed, assembles, decodes, through, breached⟩ :=
      of_decide_eq_true checked
    refine ⟨server, opens, Or.inr passed, .block [("a", "b")] ⟨?_, rfl, through⟩,
      breached⟩
    exact ⟨_, _, _, assembles, by decide,
      Prod.ext (Fallible.eq_ok_of_toOption decodes) rfl⟩

/-- A stream reset over a second head keeps its record, and the `DATA` in flight
on it is let go. -/
theorem tolerates_iff_of_ended_twice :
    ∃ server, handshake unendedWire = .ok server ∧
      let ended :=
        (run .bare server [.readFrame, .readFrame, .readFrame]).2.connection
      EndedHere ended.events 1 ∧ Late ended 1 lateData ∧
        Tolerates ended lateData := by
  obtain ⟨server, opens, checked⟩ := exists_of_handshake
    (show (handshake unendedWire).toOption.map (fun server =>
      let ended :=
        (run .bare server [.readFrame, .readFrame, .readFrame]).2.connection
      decide (.emitted (.reset 1 .protocol) ∈ ended.events ∧
        1 ≤ ended.localSettings.maxFrameSize ∧ 1 ≤ ended.receive.value ∧
          ended.continuing = none ∧ 1 ≤ ended.highest ∧
            ended.wire.accepts = [] ∧
              ended.streams[1]?.map (fun stream => stream.reset.isSome) =
                some true)) = some true by decide +kernel)
  obtain ⟨reset, sized, room, whole, opened, accepts, dead⟩ :=
    of_decide_eq_true checked
  have ended : EndedHere (run .bare server
      [.readFrame, .readFrame, .readFrame]).2.connection.events 1 :=
    Or.inl ⟨_, reset⟩
  have late : Late (run .bare server
      [.readFrame, .readFrame, .readFrame]).2.connection 1 lateData :=
    .data rfl rfl sized room
  refine ⟨server, opens, ended, late, ?_⟩
  refine (tolerates_iff_of_ended (reached_run .bare opens _) one_ne_zero ended
    late).mpr ⟨fun _ => ⟨whole, opened, fun _ => ?_, ?_⟩,
      fun fields trails => absurd rfl trails.kind⟩
  · refine Or.inr fun acceptance member => ?_
    rw [accepts] at member
    cases member
  · intro stream found live
    have shut := dead
    rw [show (run .bare server [.readFrame, .readFrame,
      .readFrame]).2.connection.streams[1]? = some stream from found,
      Option.map_some, live] at shut
    cases shut

end Server

end Http2
end XmipNet

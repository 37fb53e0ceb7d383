import XmipNet.Http2.Frames
import XmipNet.Http2.Simulation

/-!
# What taking one frame does

A connection as the peer's frames move it: its core, the decoder of its header
blocks and the acknowledgements that have come. `Took` says everything that
taking one frame can do to it short of a breach of the whole connection, each
case with what it found, and the results about frame after frame are proved by
its cases.
-/

namespace XmipNet
namespace Http2

open Hpack (Field)

/-- A connection as the peer's frames move it. -/
structure Sight where
  core : Core
  decoder : Hpack.Decoder
  pongs : List (List UInt8)

/-- What is seen of a connection. -/
def Connection.sight (connection : Connection) : Sight where
  core := connection.core
  decoder := connection.decoder
  pongs := connection.pongs

namespace Core

/-- The largest header list this side takes. -/
def headerListLimit (core : Core) : Nat :=
  core.localSettings.maxHeaderListSize.getD usizeMax

/-- A stream ended by this side, the peer told. -/
def spoil (core : Core) (id : Nat) (code : ErrorCode) : Core :=
  (core.markReset id code).log (.emitted (.reset id code))

/-- The connection's window once the octets of a `DATA` were taken from it and
given back. -/
def regain (core : Core) (length : Nat) : Core :=
  if 0 < length then
    { core.log (.emitted (.windowUpdate 0 (Connection.incrementOf length))) with
      receive :=
        { value := core.receive.value - length +
            Connection.incrementOf length } }
  else
    core

/-- `changed` is the table in which `id` has the record `stream` and every other
stream its own. -/
def Sets (streams : Streams) (id : Nat) (stream : Stream)
    (changed : Streams) : Prop :=
  ∀ other : Nat,
    changed[other]? = if id = other then some stream else streams[other]?

theorem Sets.others
    {streams changed : Streams}
    {id : Nat}
    {stream : Stream}
    (sets : Sets streams id stream changed)
    (other : Nat)
    (different : other ≠ id) :
    changed[other]? = streams[other]? := by
  rw [sets other, if_neg (Ne.symm different)]

theorem Sets.own
    {streams changed : Streams}
    {id : Nat}
    {stream : Stream}
    (sets : Sets streams id stream changed) :
    changed[id]? = some stream := by
  rw [sets id, if_pos rfl]

theorem sets_insert
    (streams : Streams)
    (id : Nat)
    (stream : Stream) :
    Sets streams id stream (streams.insert id stream) :=
  fun other => NatMap.getElem?_insert id other stream

/-- A record written twice is the second. -/
theorem Sets.insert
    {streams changed : Streams}
    {id : Nat}
    {stream : Stream}
    (sets : Sets streams id stream changed)
    (again : Stream) :
    Sets streams id again (changed.insert id again) := by
  intro other
  rw [NatMap.getElem?_insert]
  split
  · rfl
  next different => rw [sets other, if_neg different]

theorem sets_insertIfNew
    {streams : Streams}
    {id : Nat}
    (absent : streams[id]? = none)
    (new : Stream) :
    Sets streams id new (streams.insertIfNew id new) := by
  intro other
  split
  next same =>
    rw [← same, NatMap.getElem?_insertIfNew_self absent]
  next different => rw [NatMap.getElem?_insertIfNew_ne different]

theorem sets_opened
    (streams : Streams)
    (id : Nat)
    (new changed : Stream) :
    Sets streams id changed ((streams.insertIfNew id new).insert id changed) := by
  intro other
  rw [NatMap.getElem?_insert]
  split
  · rfl
  next different => rw [NatMap.getElem?_insertIfNew_ne different]

theorem sameButSend_insert
    {streams : Streams}
    {id : Nat}
    {stream : Stream}
    (found : streams[id]? = some stream)
    (window : Window) :
    SameButSend streams (streams.insert id { stream with send := window }) := by
  intro other
  rw [NatMap.getElem?_insert]
  split
  next same =>
    rw [← same, found]
    rfl
  · rfl

/-- A live record that takes a `DATA`: there is room in its window, and the
content is without its padding. -/
structure Accepts (core : Core) (frame : Frame) (stream : Stream)
    (content : List UInt8) : Prop where
  found : core.streams[frame.stream]? = some stream
  live : stream.reset = none
  receiving : stream.state.receiving = true
  room : frame.payload.length ≤ stream.receive.value
  holds : frame.content = .ok content

/-- What a `DATA` does on its stream, its octets already given back to the
connection. -/
inductive Extends (frame : Frame) (core : Core) : Core → Prop
  /-- The stream was reset: what was in flight is let go. -/
  | letGo {stream : Stream}
      (found : core.streams[frame.stream]? = some stream)
      (dead : stream.reset.isSome = true) :
      Extends frame core core
  /-- The stream is ended: it has no record or cannot take more. -/
  | spoiled (code : ErrorCode)
      (shut : ∀ stream, core.streams[frame.stream]? = some stream →
        stream.reset = none → stream.state.receiving = false ∨
          stream.receive.value < frame.payload.length) :
      Extends frame core (core.spoil frame.stream code)
  /-- The body would be longer than is read. -/
  | overBody {stream : Stream} {content : List UInt8} {streams : Streams}
      (accepts : Accepts core frame stream content)
      (exceeds : maxBody < stream.body.length + content.length)
      (sets : Sets core.streams frame.stream
        { stream with
          receive := { value := stream.receive.value - frame.payload.length } }
        streams) :
      Extends frame core
        ({ core with streams := streams }.spoil frame.stream .cancel)
  /-- The body grew, and with it the stream ended. -/
  | ended {stream : Stream} {content : List UInt8} {streams : Streams}
      (accepts : Accepts core frame stream content)
      (within : stream.body.length + content.length ≤ maxBody)
      (ends : frame.has endStream = true)
      (sets : Sets core.streams frame.stream
        { stream with
          receive := { value := stream.receive.value - frame.payload.length }
          body := stream.body ++ content
          state := stream.state.endedRemotely }
        streams) :
      Extends frame core { core with streams := streams }
  /-- The body grew, and the octets were given back to the stream. -/
  | grown {stream : Stream} {content : List UInt8} {streams : Streams}
      (accepts : Accepts core frame stream content)
      (within : stream.body.length + content.length ≤ maxBody)
      (stays : frame.has endStream = false)
      (positive : 0 < frame.payload.length)
      (sets : Sets core.streams frame.stream
        { stream with
          receive :=
            { value := stream.receive.value - frame.payload.length +
                Connection.incrementOf frame.payload.length }
          body := stream.body ++ content }
        streams) :
      Extends frame core
        ({ core with streams := streams }.log
          (.emitted (.windowUpdate frame.stream
            (Connection.incrementOf frame.payload.length))))
  /-- An empty `DATA` that does not end its stream. -/
  | empty {stream : Stream} {content : List UInt8} {streams : Streams}
      (accepts : Accepts core frame stream content)
      (within : stream.body.length + content.length ≤ maxBody)
      (stays : frame.has endStream = false)
      (none : frame.payload.length = 0)
      (sets : Sets core.streams frame.stream
        { stream with body := stream.body ++ content } streams) :
      Extends frame core { core with streams := streams }

/-- What a whole header block does on its stream. -/
inductive Heads (id : Nat) (fields : List Field) (ends : Bool) (core : Core) :
    Core → Prop
  /-- The list is malformed. -/
  | malformed (violation : Violation)
      (fails : Message.check fields core.headerListLimit = .error violation) :
      Heads id fields ends core (core.spoil id violation.code)
  /-- The stream was reset: what was in flight is let go. -/
  | letGo {stream : Stream}
      (checks : Message.check fields core.headerListLimit = .ok ())
      (found : core.streams[id]? = some stream)
      (dead : stream.reset.isSome = true) :
      Heads id fields ends core core
  /-- The block is the head, one the head replaces, or the trailers. -/
  | headed {stream changed : Stream}
      (checks : Message.check fields core.headerListLimit = .ok ())
      (found : core.streams[id]? = some stream)
      (live : stream.reset = none)
      (heads : stream.headers fields ends = .ok changed) :
      Heads id fields ends core (core.setStream id changed)
  /-- The stream takes no such block. -/
  | unheaded {stream : Stream}
      (checks : Message.check fields core.headerListLimit = .ok ())
      (found : core.streams[id]? = some stream)
      (live : stream.reset = none)
      (violation : Violation)
      (fails : stream.headers fields ends = .error violation) :
      Heads id fields ends core (core.spoil id violation.code)
  /-- The peer opens the stream. -/
  | opened {changed : Stream} {streams : Streams}
      (checks : Message.check fields core.headerListLimit = .ok ())
      (opens : Opens core id)
      (staying : core.goingAway = false)
      (fits : core.openCount < core.mostStreams)
      (heads : (Stream.new core.remoteSettings.initialWindowSize
        core.localSettings.initialWindowSize).headers fields ends = .ok changed)
      (sets : Sets core.streams id changed streams) :
      Heads id fields ends core { core.reach id with streams := streams }
  /-- The stream is passed over: this side is going away. -/
  | passedOver
      (checks : Message.check fields core.headerListLimit = .ok ())
      (opens : Opens core id)
      (leaving : core.goingAway = true) :
      Heads id fields ends core ((core.reach id).log (.passedOver id))
  /-- The stream is refused: there are too many. -/
  | refused
      (checks : Message.check fields core.headerListLimit = .ok ())
      (opens : Opens core id)
      (staying : core.goingAway = false)
      (full : core.mostStreams ≤ core.openCount) :
      Heads id fields ends core ((core.reach id).spoil id .refusedStream)

/-- The header block a frame begins or goes on with, whole or not: its stream,
its octets and whether it ends the stream. -/
def assembled (core : Core) (frame : Frame) :
    Option (Nat × List UInt8 × Bool) :=
  match frame.kind with
  | .headers =>
      match frame.content with
      | .ok octets => some (frame.stream, octets, frame.has endStream)
      | .error _ => none
  | .continuation =>
      core.continuing.map fun waiting =>
        (waiting.stream, waiting.block ++ frame.payload, waiting.ends)
  | _ => none

theorem kind_of_assembled
    {core : Core}
    {frame : Frame}
    {block : Nat × List UInt8 × Bool}
    (assembles : core.assembled frame = some block) :
    frame.kind = .headers ∨ frame.kind = .continuation := by
  rw [assembled] at assembles
  split at assembles
  next kind => exact Or.inl kind
  next kind => exact Or.inr kind
  · cases assembles

end Core

/-- A stream of a sight's ended by this side, the peer told. -/
def Sight.spoil (sight : Sight) (id : Nat) (code : ErrorCode) : Sight :=
  { sight with core := sight.core.spoil id code }

/-- One more event of a sight's. -/
def Sight.log (sight : Sight) (event : Event) : Sight :=
  { sight with core := sight.core.log event }

open Core in
/-- What taking a frame does, the frame already among the events, unless it
breaches the connection. -/
inductive Took (frame : Frame) (sight : Sight) : Sight → Prop
  /-- A `DATA`. -/
  | data {core : Core}
      (kind : frame.kind = .data)
      (unbroken : sight.core.continuing = none)
      (room : frame.payload.length ≤ sight.core.receive.value)
      (opened : frame.stream ≤ sight.core.highest)
      (carries : Extends frame (sight.core.regain frame.payload.length) core) :
      Took frame sight { sight with core := core }
  /-- A header block that goes on. -/
  | waiting {id : Nat} {octets : List UInt8} {ends : Bool}
      (assembles : sight.core.assembled frame = some (id, octets, ends))
      (onward : frame.has endHeaders = false)
      (short : octets.length ≤ maxBlock) :
      Took frame sight
        { sight with
          core := { sight.core with
            continuing := some { stream := id, block := octets, ends } } }
  /-- A header block that is whole. -/
  | decoded {id : Nat} {octets : List UInt8} {ends : Bool} {core : Core}
      {fields : List Field} {decoder : Hpack.Decoder}
      (assembles : sight.core.assembled frame = some (id, octets, ends))
      (whole : frame.has endHeaders = true)
      (decodes : sight.decoder.decode octets = (.ok fields, decoder))
      (heads : Heads id fields ends { sight.core with continuing := none }
        core) :
      Took frame sight { sight with core := core, decoder := decoder }
  /-- A frame that changes nothing. -/
  | unheard
      (kind : frame.kind = .settings ∨ frame.kind = .priority ∨
        frame.kind = .windowUpdate ∨ ∃ code, frame.kind = .unknown code) :
      Took frame sight sight
  /-- A `PRIORITY` or `WINDOW_UPDATE` that its stream cannot have. -/
  | spoiled (code : ErrorCode)
      (kind : frame.kind = .priority ∨ frame.kind = .windowUpdate) :
      Took frame sight (sight.spoil frame.stream code)
  /-- A `RST_STREAM`. -/
  | reset (code : ErrorCode)
      (kind : frame.kind = .rstStream)
      (opened : frame.stream ≤ sight.core.highest) :
      Took frame sight
        { sight with core := sight.core.markReset frame.stream code }
  /-- The peer's settings. -/
  | settings {settings : Settings} {streams : Streams}
      (kind : frame.kind = .settings)
      (same : SameButSend sight.core.streams streams) :
      Took frame sight
        { sight with
          core := { sight.core with
            remoteSettings := settings
            streams := streams
            settingsSeen := true }.log
              (.emitted ⟨.settings, ack, 0, []⟩) }
  /-- A `PING` to be answered. -/
  | pinged
      (kind : frame.kind = .ping)
      (asks : frame.has ack = false) :
      Took frame sight
        { sight with
          core := sight.core.log (.emitted (.ping frame.payload true)) }
  /-- The acknowledgement of a `PING`. -/
  | ponged
      (kind : frame.kind = .ping)
      (acknowledges : frame.has ack = true) :
      Took frame sight
        { sight with pongs := sight.pongs ++ [frame.payload] }
  /-- The peer's `GOAWAY`. -/
  | wentAway {last code : Nat}
      (kind : frame.kind = .goaway)
      (word : frame.word 0 = some last) :
      Took frame sight
        { sight with
          core := { sight.core with
            goaway := some (last &&& maxStreamId, .of code)
            streams := sight.core.streams.map
              (Connection.passedOverBy sight.core.client
                (last &&& maxStreamId)) } }
  /-- A window the peer opened. -/
  | granted {window : Window} {streams : Streams}
      (kind : frame.kind = .windowUpdate)
      (same : SameButSend sight.core.streams streams) :
      Took frame sight
        { sight with
          core := { sight.core with send := window, streams := streams } }

namespace Core

theorem events_regain
    (core : Core)
    (length : Nat) :
    core.events <+: (core.regain length).events := by
  rw [regain]
  split
  · exact List.prefix_append _ _
  · exact List.prefix_refl _

theorem Extends.events
    {frame : Frame}
    {core after : Core}
    (carries : Extends frame core after) :
    core.events <+: after.events := by
  cases carries <;> first
    | exact List.prefix_refl _
    | exact List.prefix_append _ _

theorem Heads.events
    {id : Nat}
    {fields : List Field}
    {ends : Bool}
    {core after : Core}
    (heads : Heads id fields ends core after) :
    core.events <+: after.events := by
  cases heads <;> first
    | exact List.prefix_refl _
    | exact List.prefix_append _ _

end Core

/-- Taking a frame adds to the events alone. -/
theorem Took.events
    {frame : Frame}
    {sight after : Sight}
    (took : Took frame sight after) :
    sight.core.events <+: after.core.events := by
  cases took with
  | data kind unbroken room opened carries =>
      exact (Core.events_regain _ _).trans carries.events
  | decoded assembles whole decodes heads => exact heads.events
  | spoiled | settings | pinged => exact List.prefix_append _ _
  | waiting | unheard | reset | ponged | wentAway | granted =>
      exact List.prefix_refl _

/-- The acknowledgements that have come are as they were, or one more came. -/
theorem Took.pongs
    {frame : Frame}
    {sight after : Sight}
    (took : Took frame sight after) :
    after.pongs = sight.pongs ∨
      (frame.kind = .ping ∧ frame.has ack = true ∧
        after.pongs = sight.pongs ++ [frame.payload]) := by
  cases took with
  | ponged kind acknowledges => exact Or.inr ⟨kind, acknowledges, rfl⟩
  | _ => exact Or.inl rfl

namespace Connection

open Fallible Core

/-- Unless it breaches the connection, `handler` leaves what is `good`, a breach
of one stream once that stream is ended. -/
def Settles {α : Type} (handler : Handler α) (connection : Connection)
    (good : Sight → Prop) : Prop :=
  Ensures handler connection (fun _ after => good after.sight)
    (fun breach after =>
      ∀ id violation, breach = .stream id violation →
        good (after.sight.spoil id violation.code))

section Settles

variable {α β : Type} {connection : Connection} {good : Sight → Prop}

theorem settles_fail_connection (violation : Violation) :
    Settles (Fallible.fail (.connection violation) : Handler α) connection
      good :=
  fun _ _ breach => by cases breach

theorem settles_fail_stream
    {id : Nat}
    {violation : Violation}
    (spoils : good (connection.sight.spoil id violation.code)) :
    Settles (Fallible.fail (.stream id violation) : Handler α) connection
      good := by
  rintro _ _ ⟨⟩
  exact spoils

theorem settles_get_bind
    {next : Connection → Handler β}
    (goes : Settles (next connection) connection good) :
    Settles (Fallible.get >>= next) connection good :=
  goes

theorem settles_modify_bind
    {change : Connection → Connection}
    {next : Unit → Handler β}
    (goes : Settles (next ()) (change connection) good) :
    Settles (modify change >>= next) connection good :=
  goes

theorem settles_bind_of_ok
    {first : Handler α}
    {next : α → Handler β}
    {value : α}
    {after : Connection}
    (runs : first connection = (.ok value, after))
    (goes : Settles (next value) after good) :
    Settles (first >>= next) connection good := by
  rw [Settles, Ensures, bind_of_ok runs]
  exact goes

theorem settles_bind_of_breach
    {first : Handler α}
    {next : α → Handler β}
    {violation : Violation}
    {after : Connection}
    (runs : first connection = (.error (.connection violation), after)) :
    Settles (first >>= next) connection good := by
  rw [Settles, Ensures, bind_of_error runs]
  exact fun _ _ breach => by cases breach

theorem settles_onConnection_bind
    {outcome : Except Violation α}
    {next : α → Handler β}
    (goes : ∀ value, outcome = .ok value → Settles (next value) connection good) :
    Settles (onConnection outcome >>= next) connection good := by
  rw [Settles, ensures_bind]
  exact ensures_onConnection goes (fun _ _ _ _ breach => by cases breach)

theorem settles_onStream_bind
    {id : Nat}
    {outcome : Except Violation α}
    {next : α → Handler β}
    (spoils : ∀ violation, outcome = .error violation →
      good (connection.sight.spoil id violation.code))
    (goes : ∀ value, outcome = .ok value → Settles (next value) connection good) :
    Settles (onStream id outcome >>= next) connection good := by
  rw [Settles, ensures_bind]
  refine ensures_onStream goes ?_
  rintro violation fails _ _ ⟨⟩
  exact spoils violation fails

/-- What is seen of an answer is that it was emitted. -/
theorem sight_emit
    (frame : Frame)
    (connection : Connection) :
    (emit frame connection).2.sight =
      { connection.sight with
        core := connection.core.log (.emitted frame) } := by
  have rest : Keeps (fun connection : Connection =>
      (connection.decoder, connection.pongs)) (emit frame) := by
    refine keeps_bind (keeps_modify fun _ => rfl) fun _ =>
      keeps_bind keeps_get fun current => ?_
    cases current.held with
    | some bytes => exact keeps_modify fun _ => rfl
    | none =>
        have writes : Keeps (fun connection : Connection =>
            (connection.decoder, connection.pongs))
            (onWire fun wire => frame.write wire) := fun _ => rfl
        exact keeps_bind writes fun _ _ => rfl
  have kept := rest connection
  simp only [Prod.mk.injEq] at kept
  simp only [sight, core_emit, kept]

theorem settles_answer
    {frame : Frame}
    (answers : good { connection.sight with
      core := connection.core.log (.emitted frame) }) :
    Settles (answer frame) connection good := by
  have seen := sight_emit frame connection
  rw [Settles, answer, ensures_mapError, Ensures]
  split
  next runs =>
    rw [runs] at seen
    rw [show Connection.sight _ = _ from seen]
    exact answers
  · exact fun _ _ breach => by cases breach

/-! ## A `DATA` -/

theorem settles_extendBody
    {frame : Frame}
    {stream : Stream}
    (found : connection.streams[frame.stream]? = some stream)
    (live : stream.reset = none)
    (receiving : stream.state.receiving = true)
    (room : frame.payload.length ≤ stream.receive.value)
    (ofExtends : ∀ core, Extends frame connection.core core →
      good { connection.sight with core := core }) :
    Settles (extendBody frame
      { stream with
        receive := { value := stream.receive.value - frame.payload.length } })
      connection good := by
  have sets := sets_insert connection.streams frame.stream
    { stream with
      receive := { value := stream.receive.value - frame.payload.length } }
  apply settles_modify_bind
  refine settles_onConnection_bind fun content holds => ?_
  have accepts : Accepts connection.core frame stream content :=
    ⟨found, live, receiving, room, holds⟩
  split
  next exceeds =>
    exact settles_fail_stream (ofExtends _ (.overBody accepts exceeds sets))
  next within =>
    have fits := not_lt.mp within
    split
    next ends => exact ofExtends _ (.ended accepts fits ends (sets.insert _))
    next stays =>
      have unended := Bool.eq_false_of_not_eq_true stays
      split
      next positive =>
        apply settles_modify_bind
        refine settles_onConnection_bind fun granted grants => ?_
        obtain ⟨_, _, value⟩ := Window.grant_eq_ok_iff.mp grants
        have window : granted = { value := stream.receive.value -
            frame.payload.length + incrementOf frame.payload.length } := by
          cases granted
          exact congrArg Window.mk value
        rw [window]
        apply settles_modify_bind
        refine settles_answer ?_
        exact ofExtends _ (.grown accepts fits unended positive
          ((sets.insert _).insert _))
      next zero =>
        have empty : frame.payload.length = 0 := Nat.eq_zero_of_not_pos zero
        refine ofExtends _ (.empty accepts fits unended empty ?_)
        have same : ({ stream with
            receive := { value := stream.receive.value - frame.payload.length }
            body := stream.body ++ content } : Stream) =
              { stream with body := stream.body ++ content } := by
          rw [empty, Nat.cast_zero, sub_zero]
        rw [← same]
        exact sets.insert _

theorem settles_dataOn
    {frame : Frame}
    (ofExtends : frame.stream ≤ connection.highest →
      ∀ core, Extends frame connection.core core →
        good { connection.sight with core := core }) :
    Settles (dataOn frame) connection good := by
  apply settles_get_bind
  split
  · exact settles_fail_connection _
  next opened =>
    have within : frame.stream ≤ connection.highest := by
      simpa [idle] using opened
    have extended := ofExtends within
    split
    next absent =>
      refine settles_fail_stream (extended _ (.spoiled _ ?_))
      intro stream found
      cases absent.symm.trans found
    next stream found =>
      split
      next dead => exact extended _ (.letGo found dead)
      next live =>
        have alive : stream.reset = none := by simpa using live
        split
        next shut =>
          refine settles_fail_stream (extended _ (.spoiled _ ?_))
          intro record there _
          cases found.symm.trans there
          exact Or.inl (by simpa using shut)
        next receiving =>
          refine settles_onStream_bind ?_ ?_
          · intro violation fails
            refine extended _ (.spoiled _ ?_)
            intro record there _
            cases found.symm.trans there
            refine Or.inr ?_
            by_contra enough
            rw [Window.take, if_neg enough] at fails
            cases fails
          · intro taken takes
            obtain ⟨room, value⟩ := Window.take_eq_ok_iff.mp takes
            have window : taken = { value := stream.receive.value -
                frame.payload.length } := by
              cases taken
              exact congrArg Window.mk value
            rw [window]
            exact settles_extendBody found alive (by simpa using receiving) room
              extended

/-- A breach of the connection settles nothing. -/
def OfConnection (breach : Breach) (_ : Connection) : Prop :=
  ∃ violation, breach = .connection violation

/-- A part that breaches no stream goes on. -/
theorem settles_bind
    {first : Handler α}
    {next : α → Handler β}
    (runs : Ensures first connection
      (fun value after => Settles (next value) after good) OfConnection) :
    Settles (first >>= next) connection good := by
  rw [Settles, ensures_bind]
  refine runs.mono (fun _ _ settles => settles) ?_
  rintro _ _ ⟨violation, rfl⟩ _ _ breach
  cases breach

theorem ensures_takeConnection
    (length : Nat)
    (connection : Connection) :
    Ensures (takeConnection length) connection
      (fun _ after => length ≤ connection.receive.value ∧
        after = { connection with
          receive := { value := connection.receive.value - length } })
      OfConnection := by
  rw [takeConnection, ensures_bind, ensures_get, ensures_bind]
  refine ensures_onConnection (fun taken takes => ?_)
    (fun violation _ => ⟨violation, rfl⟩)
  obtain ⟨room, value⟩ := Window.take_eq_ok_iff.mp takes
  cases taken
  cases value
  exact ⟨room, rfl⟩

theorem ensures_giveBack
    {length : Nat}
    (positive : 0 < length)
    (connection : Connection) :
    Ensures (giveBack length) connection
      (fun _ after => after.sight =
        { connection.sight with
          core := { connection.core.log
              (.emitted (.windowUpdate 0 (incrementOf length))) with
            receive :=
              { value := connection.receive.value + incrementOf length } } })
      OfConnection := by
  have seen := sight_emit (.windowUpdate 0 (incrementOf length)) connection
  rw [giveBack, if_pos positive, ensures_bind, answer, ensures_mapError,
    Ensures]
  split
  next answered runs =>
    rw [runs] at seen
    rw [ensures_bind, ensures_get, ensures_bind]
    refine ensures_onConnection (fun granted grants => ?_)
      (fun violation _ => ⟨violation, rfl⟩)
    obtain ⟨_, _, value⟩ := Window.grant_eq_ok_iff.mp grants
    have before : answered.receive = connection.receive :=
      congrArg (fun sight => sight.core.receive) seen
    rw [before] at value
    cases granted
    cases value
    have cores := congrArg Sight.core seen
    have rest := congrArg (fun sight => (sight.decoder, sight.pongs)) seen
    simp only [sight, Prod.mk.injEq] at rest cores
    simp only [ensures_modify, sight, rest, ← cores]
    rfl
  · exact ⟨_, rfl⟩

/-- The octets of a `DATA` are taken from the connection's window and given back
to it. -/
theorem ensures_regain
    (length : Nat)
    (connection : Connection) :
    Ensures (takeConnection length >>= fun _ => giveBack length) connection
      (fun _ after => length ≤ connection.receive.value ∧
        after.sight = { connection.sight with
          core := connection.core.regain length })
      OfConnection := by
  rw [ensures_bind]
  refine (ensures_takeConnection length connection).mono ?_
    (fun _ _ breach => breach)
  rintro _ _ ⟨room, rfl⟩
  by_cases positive : 0 < length
  · refine (ensures_giveBack positive _).mono ?_ (fun _ _ breach => breach)
    intro _ after seen
    refine ⟨room, seen.trans ?_⟩
    rw [regain, if_pos positive]
    rfl
  · have empty : length = 0 := Nat.eq_zero_of_not_pos positive
    rw [giveBack, if_neg positive, ensures_pure, regain, if_neg positive, empty]
    refine ⟨empty ▸ room, ?_⟩
    rw [Nat.cast_zero, sub_zero]
    rfl

theorem settles_data
    {frame : Frame}
    (ofExtends : frame.payload.length ≤ connection.receive.value →
      frame.stream ≤ connection.highest →
        ∀ core, Extends frame (connection.core.regain frame.payload.length)
          core → good { connection.sight with core := core }) :
    Settles (data frame) connection good := by
  have regained := ensures_regain frame.payload.length connection
  rw [ensures_bind] at regained
  refine settles_bind (regained.mono ?_ (fun _ _ breach => breach))
  intro _ taken givesBack
  refine settles_bind (givesBack.mono ?_ (fun _ _ breach => breach))
  rintro _ after ⟨room, seen⟩
  have core : after.core = connection.core.regain frame.payload.length :=
    congrArg Sight.core seen
  refine settles_dataOn fun opened final carries => ?_
  rw [core] at carries
  rw [seen]
  refine ofExtends room ?_ final carries
  have same : after.highest = (connection.core.regain
      frame.payload.length).highest := congrArg Core.highest core
  rw [same, regain] at opened
  split at opened <;> exact opened

/-! ## A header block -/

theorem settles_openByPeer
    {id : Nat}
    {fields : List Field}
    {ends : Bool}
    (checks : Message.check fields connection.headerListLimit = .ok ())
    (opens : Opens connection.core id)
    (ofHeads : ∀ core, Heads id fields ends connection.core core →
      good { connection.sight with core := core }) :
    Settles (openByPeer id fields ends) connection good := by
  apply settles_modify_bind
  apply settles_get_bind
  split
  next leaving => exact ofHeads _ (.passedOver checks opens leaving)
  next staying =>
    have stays : connection.core.goingAway = false :=
      Bool.eq_false_of_not_eq_true staying
    split
    next full =>
      exact settles_fail_stream (ofHeads _ (.refused checks opens stays full))
    next fits =>
      apply settles_modify_bind
      apply settles_get_bind
      have reached : max (max connection.highest id) id =
          max connection.highest id := by omega
      have absent : connection.streams[id]? = none := opens.absent
      simp only [openStream, reached, NatMap.getElem?_insertIfNew_self absent,
        headersOnRecord, Stream.headers_new]
      exact ofHeads _ (.opened checks opens stays (not_le.mp fits)
        (Stream.headers_new _ _ _ _) (sets_opened _ _ _ _))

theorem settles_fieldsOn
    (settled : connection.settingsSeen = true)
    {id : Nat}
    (bounded : id ≤ maxStreamId)
    {fields : List Field}
    {ends : Bool}
    (checks : Message.check fields connection.headerListLimit = .ok ())
    (ofHeads : ∀ core, Heads id fields ends connection.core core →
      good { connection.sight with core := core }) :
    Settles (fieldsOn id fields ends) connection good := by
  apply settles_get_bind
  split
  next stream found =>
    split
    next dead => exact ofHeads _ (.letGo checks found dead)
    next live =>
      have alive : stream.reset = none := by simpa using live
      refine settles_onStream_bind ?_ ?_
      · intro violation fails
        exact ofHeads _ (.unheaded checks found alive violation fails)
      · intro changed heads
        exact ofHeads _ (.headed checks found alive heads)
  next absent =>
    split
    · exact settles_fail_connection _
    next allowed =>
      simp only [not_or, Bool.not_eq_true, not_le] at allowed
      obtain ⟨server, odd, above⟩ := allowed
      exact settles_openByPeer checks
        ⟨server, by omega, above, absent, settled, bounded⟩ ofHeads

theorem settles_block
    (settled : connection.settingsSeen = true)
    {id : Nat}
    (bounded : id ≤ maxStreamId)
    {octets : List UInt8}
    {ends whole : Bool}
    (ofWaiting : whole = false → octets.length ≤ maxBlock →
      good { connection.sight with
        core := { connection.core with
          continuing := some { stream := id, block := octets, ends } } })
    (ofHeads : whole = true → ∀ fields decoder core,
      connection.decoder.decode octets = (.ok fields, decoder) →
        Heads id fields ends connection.core core →
          good { connection.sight with core := core, decoder := decoder }) :
    Settles (block id octets ends whole) connection good := by
  rw [block]
  split
  · exact settles_fail_connection _
  next short =>
    split
    next unfinished =>
      exact ofWaiting (by simpa using unfinished) (not_lt.mp short)
    next finished =>
      have complete : whole = true := by simpa using finished
      rcases decodes : connection.decoder.decode octets with
        ⟨violation | fields, decoder⟩
      · have runs : decodeBlock octets connection =
            (.error (.connection violation), { connection with decoder }) := by
          simp only [decodeBlock, decodes]
          rfl
        exact settles_bind_of_breach runs
      · have runs : decodeBlock octets connection =
            (.ok fields, { connection with decoder }) := by
          simp only [decodeBlock, decodes]
          rfl
        have headed := ofHeads complete fields decoder
        refine settles_bind_of_ok runs ?_
        apply settles_get_bind
        refine settles_onStream_bind ?_ ?_
        · intro violation fails
          exact headed _ decodes (.malformed violation fails)
        · intro _ checks
          refine settles_fieldsOn ?_ bounded checks fun core heads => ?_
          · exact settled
          · exact headed core decodes heads

/-! ## A frame -/

theorem continuing_of_uninterrupted
    {frame : Frame}
    (uninterrupted : connection.interrupts frame = false)
    (kind : frame.kind ≠ .continuation) :
    connection.continuing = none := by
  cases waits : connection.continuing with
  | none => rfl
  | some waiting =>
      rw [interrupts, waits] at uninterrupted
      simp only [kind, ne_eq, not_false_eq_true, true_or, decide_true] at uninterrupted
      cases uninterrupted

theorem settles_headersFrame
    (settled : connection.settingsSeen = true)
    {frame : Frame}
    (kind : frame.kind = .headers)
    (bounded : frame.stream ≤ maxStreamId)
    (unbroken : connection.continuing = none) :
    Settles (headersFrame frame) connection (Took frame connection.sight) := by
  refine settles_onConnection_bind fun octets holds => ?_
  have assembles : connection.core.assembled frame =
      some (frame.stream, octets, frame.has endStream) := by
    rw [assembled, kind]
    simp only [holds]
  refine settles_block settled bounded ?_ ?_
  · intro onward short
    exact .waiting assembles onward short
  · intro whole fields decoder core decodes heads
    have same : connection.core =
        { connection.core with continuing := none } := by
      rw [← show connection.core.continuing = none from unbroken]
    rw [same] at heads
    exact .decoded assembles whole decodes heads

theorem settles_continuation
    (settled : connection.settingsSeen = true)
    {frame : Frame}
    (kind : frame.kind = .continuation)
    (waits : Waits connection.core) :
    Settles (continuation frame) connection
      (Took frame connection.sight) := by
  apply settles_get_bind
  split
  · exact settles_fail_connection _
  next waiting held =>
    have assembles : connection.core.assembled frame =
        some (waiting.stream, waiting.block ++ frame.payload,
          waiting.ends) := by
      rw [assembled, kind]
      exact congrArg (Option.map _) held
    apply settles_modify_bind
    refine settles_block ?_ (waits waiting held).bounded ?_ ?_
    · exact settled
    · intro onward short
      exact .waiting assembles onward short
    · intro whole fields decoder core decodes heads
      exact .decoded assembles whole decodes heads

theorem settles_rstStream
    {frame : Frame}
    (kind : frame.kind = .rstStream) :
    Settles (rstStream frame) connection (Took frame connection.sight) := by
  refine settles_onConnection_bind fun code sole => ?_
  apply settles_get_bind
  split
  · exact settles_fail_connection _
  next opened =>
    have within : frame.stream ≤ connection.highest := by
      simpa [idle] using opened
    exact .reset _ kind within

theorem settles_settings
    {frame : Frame}
    (kind : frame.kind = .settings) :
    Settles (settings frame) connection (Took frame connection.sight) := by
  rw [settings]
  split
  · split
    · exact settles_fail_connection _
    · exact .unheard (Or.inl kind)
  · apply settles_get_bind
    rcases applies : connection.remoteSettings.apply frame.payload
      connection.client with ⟨violation | _, settings⟩
    · have runs : applySettings frame.payload connection =
          (.error (.connection violation),
            { connection with remoteSettings := settings }) := by
        simp only [applySettings, applies]
        rfl
      exact settles_bind_of_breach runs
    · have runs : applySettings frame.payload connection =
          (.ok (), { connection with remoteSettings := settings }) := by
        simp only [applySettings, applies]
        rfl
      refine settles_bind_of_ok runs ?_
      apply settles_get_bind
      have same := sameButSend_shiftEach
        ((settings.initialWindowSize : Int) -
          connection.remoteSettings.initialWindowSize)
        (listed_toList connection.streams)
      rcases shifts : shiftEach ((settings.initialWindowSize : Int) -
          connection.remoteSettings.initialWindowSize)
          connection.streams.toList connection.streams with
        ⟨violation | _, streams⟩
      · have runs : shiftStreams ((settings.initialWindowSize : Int) -
            connection.remoteSettings.initialWindowSize)
            { connection with remoteSettings := settings } =
              (.error (.connection violation),
                { connection with remoteSettings := settings, streams }) := by
          simp only [shiftStreams, shifts]
          rfl
        exact settles_bind_of_breach runs
      · have runs : shiftStreams ((settings.initialWindowSize : Int) -
            connection.remoteSettings.initialWindowSize)
            { connection with remoteSettings := settings } =
              (.ok (),
                { connection with remoteSettings := settings, streams }) := by
          simp only [shiftStreams, shifts]
          rfl
        rw [shifts] at same
        refine settles_bind_of_ok runs ?_
        apply settles_modify_bind
        exact settles_answer (.settings kind same)

theorem settles_pingFrame
    {frame : Frame}
    (kind : frame.kind = .ping) :
    Settles (pingFrame frame) connection (Took frame connection.sight) := by
  rw [pingFrame]
  split
  · exact settles_fail_connection _
  · split
    next acknowledges => exact .ponged kind acknowledges
    next asks =>
      exact settles_answer (.pinged kind (Bool.eq_false_of_not_eq_true asks))

theorem settles_goawayFrame
    {frame : Frame}
    (kind : frame.kind = .goaway) :
    Settles (goawayFrame frame) connection (Took frame connection.sight) := by
  rw [goawayFrame]
  split
  next last code word _ => exact .wentAway kind word
  · exact settles_fail_connection _

theorem settles_windowUpdate
    {frame : Frame}
    (kind : frame.kind = .windowUpdate) :
    Settles (windowUpdate frame) connection (Took frame connection.sight) := by
  refine settles_onConnection_bind fun word sole => ?_
  apply settles_get_bind
  split
  · refine settles_onConnection_bind fun granted grants => ?_
    exact .granted kind fun _ => rfl
  · split
    · exact settles_fail_connection _
    · split
      · exact .unheard (Or.inr (Or.inr (Or.inl kind)))
      next stream found =>
        refine settles_onStream_bind ?_ ?_
        · intro violation fails
          exact .spoiled violation.code (Or.inr kind)
        · intro granted grants
          exact .granted kind (sameButSend_insert found granted)

/-- Handling a frame, the frame already among the events. -/
theorem settles_handle
    {frame : Frame}
    (bounded : frame.stream ≤ maxStreamId)
    (waits : Waits connection.core) :
    Settles (handle frame) connection (Took frame connection.sight) := by
  apply settles_get_bind
  split
  · exact settles_fail_connection _
  next settled =>
    split
    · exact settles_fail_connection _
    next uninterrupted =>
      have unbroken := continuing_of_uninterrupted
        (Bool.eq_false_of_not_eq_true uninterrupted)
      split
      · exact settles_fail_connection _
      · have seen : frame.kind ≠ .settings →
            connection.settingsSeen = true := by
          intro other
          by_contra unseen
          exact settled ⟨unseen, other⟩
        rw [dispatch]
        split
        next kind =>
          have whole := unbroken (by rw [kind]; decide)
          exact settles_data fun room opened core carries =>
            .data kind whole room opened carries
        next kind =>
          exact settles_headersFrame (seen (by rw [kind]; decide)) kind bounded
            (unbroken (by rw [kind]; decide))
        next kind =>
          exact settles_continuation (seen (by rw [kind]; decide)) kind waits
        next kind =>
          split
          · exact settles_fail_stream (.spoiled _ (Or.inl kind))
          · exact .unheard (Or.inr (Or.inl kind))
        next code kind => exact .unheard (Or.inr (Or.inr (Or.inr ⟨code, kind⟩)))
        next kind => exact settles_rstStream kind
        next kind => exact settles_settings kind
        · exact settles_fail_connection _
        next kind => exact settles_pingFrame kind
        next kind => exact settles_goawayFrame kind
        next kind => exact settles_windowUpdate kind

end Settles

/-! ## Frame after frame -/

theorem sight_reset
    (id : Nat)
    (code : ErrorCode)
    (connection : Connection) :
    (reset id code connection).2.sight = connection.sight.spoil id code := by
  rw [reset, modify_bind_apply, sight_emit]
  rfl

theorem breached_of_fail
    {α : Type}
    (violation : Violation)
    (connection : Connection) :
    .breached violation ∈
      (fail violation connection : Except NetError α × Connection).2.events := by
  have moves := moves_goAway violation.code violation.message
    (connection.log (.breached violation))
  refine moves.events.subset ?_
  exact List.mem_append_right _ (List.mem_singleton_self _)

end Connection

namespace Event

/-- The connection was ended over no breach. -/
def Unbreached (events : List Event) : Prop :=
  ∀ violation, breached violation ∉ events

/-- Whether an event is a breach the connection was ended over. -/
def isBreach : Event → Bool
  | breached _ => true
  | received _ | emitted _ | passedOver _ => false

theorem unbreached_iff (events : List Event) :
    (∀ event ∈ events, event.isBreach = false) ↔ Unbreached events := by
  constructor
  · intro plain violation member
    cases plain (breached violation) member
  · intro unbreached event member
    cases event with
    | breached violation => exact absurd member (unbreached violation)
    | received | emitted | passedOver => rfl

instance (events : List Event) : Decidable (Unbreached events) :=
  decidable_of_iff _ (unbreached_iff events)

theorem Unbreached.of_prefix
    {events later : List Event}
    (unbreached : Unbreached later)
    (shorter : events <+: later) :
    Unbreached events :=
  fun violation member => unbreached violation (shorter.subset member)

end Event

namespace Connection

open Fallible Core

/-- Taking a frame leaves what handling it settles, or it fails over a breach of
the connection. -/
theorem good_or_breached
    {frame : Frame}
    {connection : Connection}
    {good : Sight → Prop}
    (settles : Settles (handle frame) (connection.log (.received frame)) good) :
    good (take frame connection).2.sight ∨
      ∃ violation : Violation,
        (take frame connection).1 = .error violation.toNetError ∧
          .breached violation ∈ (take frame connection).2.events := by
  rw [Settles, Ensures] at settles
  rw [take, modify_bind_apply, bind_apply, attempt_apply]
  rcases runs : handle frame (connection.log (.received frame)) with
    ⟨outcome, after⟩
  rw [runs] at settles
  rcases outcome with (violation | ⟨id, violation⟩) | _
  · exact Or.inr ⟨violation, rfl, breached_of_fail violation after⟩
  · have spoils := settles id violation rfl
    rw [← sight_reset] at spoils
    exact Or.inl spoils
  · exact Or.inl settles

/-- Taking a frame does what `Took` says, or it fails over a breach of the
connection. -/
theorem took_or_breached
    {frame : Frame}
    (bounded : frame.stream ≤ maxStreamId)
    {connection : Connection}
    (waits : Waits connection.core) :
    Took frame (connection.sight.log (.received frame))
        (take frame connection).2.sight ∨
      ∃ violation : Violation,
        (take frame connection).1 = .error violation.toNetError ∧
          .breached violation ∈ (take frame connection).2.events := by
  have logged : Waits (connection.log (.received frame)).core :=
    (Step.received connection.core frame).waits waits
  exact good_or_breached (settles_handle bounded logged)

/-- What reading a frame does to a connection that it does not end over a
breach: nothing, or what taking one does. -/
theorem take_of_pump
    {connection : Connection}
    (unbreached : Event.Unbreached (pump connection).2.events) :
    (pump connection).2.sight = connection.sight ∨
      ∃ (frame : Frame) (wire : Wire), frame.stream ≤ maxStreamId ∧
        frame.payload.length ≤ connection.localSettings.maxFrameSize ∧
        (pump connection).2 = (take frame { connection with wire }).2 := by
  rw [pump_apply] at unbreached ⊢
  split
  · exact Or.inl rfl
  · exact Or.inl rfl
  next violation wire read =>
    rw [read] at unbreached
    exact absurd (breached_of_fail violation _) (unbreached violation)
  next frame wire read =>
    refine Or.inr ⟨frame, wire, Frame.stream_of_read (congrArg Prod.fst read),
      Frame.size_of_read (congrArg Prod.fst read), ?_⟩
    split
    next runs => rw [runs]
    next runs => rw [runs]

/-- What reading and handling a frame does to a connection that it does not
end over a breach: nothing, or what taking a frame does. -/
theorem took_of_pump
    {connection : Connection}
    (waits : Waits connection.core)
    (unbreached : Event.Unbreached (pump connection).2.events) :
    (pump connection).2.sight = connection.sight ∨
      ∃ frame : Frame, frame.stream ≤ maxStreamId ∧
        frame.payload.length ≤ connection.localSettings.maxFrameSize ∧
        Took frame (connection.sight.log (.received frame))
          (pump connection).2.sight := by
  rcases take_of_pump unbreached with same | ⟨frame, wire, bounded, sized, takes⟩
  · exact Or.inl same
  · refine Or.inr ⟨frame, bounded, sized, ?_⟩
    have reading : Waits { connection with wire }.core := waits
    rw [takes] at unbreached ⊢
    rcases took_or_breached bounded reading with took | ⟨violation, _, breached⟩
    · exact took
    · exact absurd breached (unbreached violation)

/-- A frame that was read and handled was taken, whatever was breached before. -/
theorem took_of_pump_true
    {connection after : Connection}
    (waits : Waits connection.core)
    (reads : pump connection = (.ok true, after)) :
    ∃ frame : Frame, frame.stream ≤ maxStreamId ∧
      Took frame (connection.sight.log (.received frame)) after.sight := by
  rw [pump_apply] at reads
  split at reads
  · cases reads
  · cases reads
  next violation wire read =>
    cases congrArg Prod.fst reads
  next frame wire read =>
    have bounded := Frame.stream_of_read (congrArg Prod.fst read)
    have reading : Waits { connection with wire }.core := waits
    have took := took_or_breached bounded reading
    split at reads
    next runs =>
      cases reads
      rw [runs] at took
      rcases took with took | ⟨_, fails, _⟩
      · exact ⟨frame, bounded, took⟩
      · cases fails
    · cases reads

end Connection
end Http2
end XmipNet

import XmipNet.Foundation.NatMap
import XmipNet.Http2.Receive

/-!
# What a connection can do, step by step

The part of a connection that the protocol is about, without the octets in
flight and the header compression: the settings, the windows, the streams, how
far streams have been opened, who is going away, and the events so far. `Step`
says everything either half of a connection can do to it, each with what must
have held before, and the invariants of whole runs are proved over these steps
alone.
-/

namespace XmipNet
namespace Http2

open Hpack (Field)

/-- A connection as the protocol sees it. -/
structure Core where
  client : Bool
  localSettings : Settings
  remoteSettings : Settings
  send : Window
  receive : Window
  streams : Streams
  continuing : Option Continuing
  highest : Nat
  lastPeer : Nat
  goaway : Option (Nat × ErrorCode)
  goingAway : Bool
  settingsSeen : Bool
  events : List Event

namespace Connection

/-- The core of a connection. -/
def core (connection : Connection) : Core where
  client := connection.client
  localSettings := connection.localSettings
  remoteSettings := connection.remoteSettings
  send := connection.send
  receive := connection.receive
  streams := connection.streams
  continuing := connection.continuing
  highest := connection.highest
  lastPeer := connection.lastPeer
  goaway := connection.goaway
  goingAway := connection.goingAway
  settingsSeen := connection.settingsSeen
  events := connection.events

end Connection

namespace Event

/-- The peer has ended `id`: a frame with `END_STREAM` arrived on it. -/
def EndSeen (events : List Event) (id : Nat) : Prop :=
  ∃ frame, received frame ∈ events ∧ frame.stream = id ∧
    frame.has endStream = true ∧
      (frame.kind = .data ∨ frame.kind = .headers)

theorem EndSeen.append
    {events : List Event}
    {id : Nat}
    (seen : EndSeen events id)
    (later : List Event) :
    EndSeen (events ++ later) id := by
  obtain ⟨frame, arrived, rest⟩ := seen
  exact ⟨frame, List.mem_append_left later arrived, rest⟩

end Event

namespace Frame

/-- A frame that carries neither a body nor the end of a stream or of the
connection. -/
def Plain (frame : Frame) : Prop :=
  frame.kind ≠ .data ∧ frame.kind ≠ .rstStream ∧ frame.kind ≠ .goaway

end Frame

namespace Core

/-- A stream but for its send window. -/
def unsent (stream : Stream) : Stream :=
  { stream with send := .new 0 }

/-- Two tables of the same streams, but for their send windows. -/
def SameButSend (streams others : Streams) : Prop :=
  ∀ id : Nat, streams[id]?.map unsent = others[id]?.map unsent

/-- One more event. -/
def log (core : Core) (event : Event) : Core :=
  { core with events := core.events ++ [event] }

/-- The record of one stream written. -/
def setStream (core : Core) (id : Nat) (stream : Stream) : Core :=
  { core with streams := core.streams.insert id stream }

/-- The record of `id` marked as ended with `code`. -/
def markReset (core : Core) (id : Nat) (code : ErrorCode) : Core :=
  { core with
    streams := core.streams.modify id fun stream =>
      { stream with state := .closed, reset := some code } }

/-- The highest streams moved to one the peer opens. -/
def reach (core : Core) (id : Nat) : Core :=
  { core with lastPeer := id, highest := max core.highest id }

/-- The streams that are not closed. -/
def openCount (core : Core) : Nat :=
  (core.streams.toList.filter fun entry => entry.2.state ≠ .closed).length

/-- The most streams the peer may have open. -/
def mostStreams (core : Core) : Nat :=
  core.localSettings.maxConcurrentStreams.getD usizeMax

/-- What a server must find to let the peer open `id`. -/
structure Opens (core : Core) (id : Nat) : Prop where
  server : core.client = false
  odd : id % 2 = 1
  above : core.lastPeer < id
  absent : core.streams[id]? = none
  seen : core.settingsSeen = true
  bounded : id ≤ maxStreamId

/-- How a frame of the peer's changes a live record: what it holds, its receive
window, and its end where the peer has ended it. -/
structure Grows (core : Core) (id : Nat) (stream changed : Stream) : Prop where
  found : core.streams[id]? = some stream
  live : stream.reset = none
  receiving : stream.state.receiving = true
  head : changed.head = stream.head
  trailers : changed.trailers = stream.trailers
  send : changed.send = stream.send
  reset : changed.reset = none
  bounded : changed.receive.value ≤ stream.receive.value ∨
    changed.receive.value ≤ maxStreamId
  state : changed.state = stream.state ∨
    (changed.state = stream.state.endedRemotely ∧
      Event.EndSeen core.events id)

/-- A block that waits for its continuation is on a stream the peer named, and
where it ends its stream the peer has said so. -/
structure Begun (events : List Event) (waiting : Continuing) : Prop where
  bounded : waiting.stream ≤ maxStreamId
  ends : waiting.ends = true → Event.EndSeen events waiting.stream

/-- One thing a connection does. -/
inductive Step : Core → Core → Prop
  /-- A frame arrived. -/
  | received (core : Core) (frame : Frame) :
      Step core (core.log (.received frame))
  /-- A frame was emitted that ends nothing and carries no body. -/
  | emitted (core : Core) {frame : Frame} (plain : frame.Plain) :
      Step core (core.log (.emitted frame))
  /-- A stream was ended by this side. A client never refuses one. -/
  | ended (core : Core) (id : Nat) (code : ErrorCode)
      (seen : core.settingsSeen = true)
      (refuses : core.client = true → code ≠ .refusedStream) :
      Step core ((core.markReset id code).log (.emitted (.reset id code)))
  /-- This side went away, naming the last stream the peer opened. -/
  | goingAway (core : Core) (code : ErrorCode) (debug : List UInt8) :
      Step core ({ core with goingAway := true }.log
        (.emitted (.goaway core.lastPeer code debug)))
  /-- The peer breached the connection, perhaps halfway through its settings. -/
  | breached (core : Core) (violation : Violation) (payload : List UInt8)
      {streams : Streams} (same : SameButSend core.streams streams)
      (settings : Settings)
      (applied : settings = core.remoteSettings ∨
        settings = (core.remoteSettings.apply payload core.client).2) :
      Step core
        ({ core with remoteSettings := settings, streams := streams }.log
          (.breached violation))
  /-- A header block waits for its continuation, or no longer does. -/
  | continuing (core : Core) (continuing : Option Continuing)
      (begun : ∀ waiting, continuing = some waiting →
        Begun core.events waiting) :
      Step core { core with continuing := continuing }
  /-- The connection's receive window moved. -/
  | receive (core : Core) {window : Window}
      (bounded : window.value ≤ core.receive.value ∨
        window.value ≤ maxStreamId) :
      Step core { core with receive := window }
  /-- A body grew, or its octets were given back. -/
  | grown (core : Core) {id : Nat} {stream changed : Stream}
      (grows : Grows core id stream changed) :
      Step core (core.setStream id changed)
  /-- A header block arrived on a live record. -/
  | headed (core : Core) {id : Nat} {stream changed : Stream}
      {fields : List Field} {ends : Bool}
      (found : core.streams[id]? = some stream)
      (live : stream.reset = none)
      (heads : stream.headers fields ends = .ok changed)
      (seen : ends = true → Event.EndSeen core.events id) :
      Step core (core.setStream id changed)
  /-- The peer opened a stream. -/
  | opened (core : Core) {id : Nat} {changed : Stream}
      {fields : List Field} {ends : Bool}
      (opens : Opens core id)
      (staying : core.goingAway = false)
      (heads : (Stream.new core.remoteSettings.initialWindowSize
        core.localSettings.initialWindowSize).headers fields ends = .ok changed)
      (seen : ends = true → Event.EndSeen core.events id)
      (fits : core.openCount < core.mostStreams) :
      Step core
        { core.reach id with
          streams := (core.streams.insertIfNew id
            (.new core.remoteSettings.initialWindowSize
              core.localSettings.initialWindowSize)).insert id changed }
  /-- A stream the peer opened was passed over: this side is going away. -/
  | passedOver (core : Core) {id : Nat}
      (opens : Opens core id)
      (leaving : core.goingAway = true) :
      Step core ((core.reach id).log (.passedOver id))
  /-- A stream the peer opened is to be refused: there are too many. -/
  | refused (core : Core) {id : Nat}
      (opens : Opens core id)
      (staying : core.goingAway = false) :
      Step core (core.reach id)
  /-- The peer ended a stream. -/
  | reset (core : Core) {frame : Frame} {code : Nat}
      (arrived : .received frame ∈ core.events)
      (kind : frame.kind = .rstStream)
      (word : frame.word 0 = some code) :
      Step core (core.markReset frame.stream (.of code))
  /-- The peer went away. -/
  | wentAway (core : Core) {frame : Frame} {last code : Nat}
      (arrived : .received frame ∈ core.events)
      (kind : frame.kind = .goaway)
      (word : frame.word 0 = some last) :
      Step core
        { core with
          goaway := some (last &&& maxStreamId, .of code)
          streams := core.streams.map
            (Connection.passedOverBy core.client (last &&& maxStreamId)) }
  /-- The peer's settings were applied. -/
  | settings (core : Core) {payload : List UInt8} {settings : Settings}
      {streams : Streams}
      (applies : core.remoteSettings.apply payload core.client =
        (.ok (), settings))
      (shifts : Connection.shiftEach ((settings.initialWindowSize : Int) -
        core.remoteSettings.initialWindowSize) core.streams.toList
          core.streams = (.ok (), streams)) :
      Step core
        { core with
          remoteSettings := settings
          streams := streams
          settingsSeen := true }
  /-- The peer opened the connection's send window. -/
  | grantedConnection (core : Core) {frame : Frame} {word : Nat}
      {window : Window}
      (kind : frame.kind = .windowUpdate)
      (onConnection : frame.stream = 0)
      (holds : frame.word 0 = some word)
      (grants : core.send.grant (word &&& maxStreamId) = .ok window) :
      Step core { core.log (.received frame) with send := window }
  /-- The peer opened a stream's send window. -/
  | grantedStream (core : Core) {frame : Frame} {word : Nat} {stream : Stream}
      {window : Window}
      (kind : frame.kind = .windowUpdate)
      (onStream : frame.stream ≠ 0)
      (opened : frame.stream ≤ core.highest)
      (holds : frame.word 0 = some word)
      (found : core.streams[frame.stream]? = some stream)
      (grants : stream.send.grant (word &&& maxStreamId) = .ok window) :
      Step core ((core.log (.received frame)).setStream frame.stream
        { stream with send := window })
  /-- A piece of a body was sent, taken from both windows. -/
  | sent (core : Core) {id : Nat} {stream : Stream} {frame : Frame}
      {connectionWindow streamWindow : Window}
      (kind : frame.kind = .data)
      (onStream : frame.stream = id)
      (found : core.streams[id]? = some stream)
      (live : stream.reset = none)
      (sized : frame.payload.length ≤ core.remoteSettings.maxFrameSize)
      (takes : core.send.take frame.payload.length = .ok connectionWindow)
      (takesStream : stream.send.take frame.payload.length = .ok streamWindow) :
      Step core
        ({ core.log (.emitted frame) with send := connectionWindow }.setStream
          id { stream with send := streamWindow })
  /-- This side ended its half of a stream, which it had not before. -/
  | endedLocally (core : Core) (id : Nat)
      (unended : ∀ stream, core.streams[id]? = some stream →
        stream.state ≠ .halfClosedLocal) :
      Step core
        { core with
          streams := core.streams.modify id fun stream =>
            { stream with state := stream.state.endedLocally } }

/-- Any number of steps. -/
abbrev Steps : Core → Core → Prop :=
  Relation.ReflTransGen Step

/-- Shifting windows, however far it comes, changes nothing else. -/
theorem sameButSend_shiftEach
    (delta : Int)
    {entries : List (Nat × Stream)}
    {streams : Streams}
    (listed : ∀ entry ∈ entries,
      streams[entry.1]?.map unsent = some (unsent entry.2)) :
    SameButSend streams (Connection.shiftEach delta entries streams).2 := by
  induction entries generalizing streams with
  | nil => exact fun _ => rfl
  | cons entry rest inductionHypothesis =>
      obtain ⟨id, stream⟩ := entry
      obtain ⟨first, later⟩ := List.forall_mem_cons.mp listed
      rw [Connection.shiftEach]
      split
      · exact fun _ => rfl
      next send shifts =>
        have same : SameButSend streams
            (streams.insert id { stream with send }) := by
          intro other
          rw [NatMap.getElem?_insert]
          split
          next equal =>
            rw [← equal]
            exact first
          · rfl
        have listedStill : ∀ entry ∈ rest,
            (streams.insert id { stream with send })[entry.1]?.map unsent =
              some (unsent entry.2) :=
          fun entry member => (same entry.1).symm.trans (later entry member)
        have goes := inductionHypothesis listedStill
        exact fun other => (same other).trans (goes other)

theorem listed_toList (streams : Streams) :
    ∀ entry ∈ streams.toList,
      streams[entry.1]?.map unsent = some (unsent entry.2) := by
  intro entry member
  rw [NatMap.mem_toList_iff.mp member]
  rfl

/-! ## What every step leaves -/

/-- What every step keeps, any number of steps keep. -/
theorem Steps.invariant
    {motive : Core → Prop}
    (keeps : ∀ {core after : Core},
      Step core after → motive core → motive after)
    {core after : Core}
    (steps : Steps core after)
    (holds : motive core) :
    motive after := by
  induction steps with
  | refl => exact holds
  | tail _ step inductionHypothesis => exact keeps step inductionHypothesis

/-- The events only grow. -/
theorem Step.events
    {core after : Core}
    (step : Step core after) :
    core.events <+: after.events := by
  cases step <;> first
    | exact List.prefix_append _ _
    | exact List.prefix_refl _

theorem Steps.events
    {core after : Core}
    (steps : Steps core after) :
    core.events <+: after.events :=
  steps.invariant (motive := fun reached => core.events <+: reached.events)
    (fun step shorter => shorter.trans step.events) (List.prefix_refl _)

theorem Step.client
    {core after : Core}
    (step : Step core after) :
    after.client = core.client := by
  cases step <;> rfl

theorem Steps.client
    {core after : Core}
    (steps : Steps core after) :
    after.client = core.client :=
  steps.invariant (motive := fun reached => reached.client = core.client)
    (fun step same => step.client.trans same) rfl

/-- Once the peer's settings have been seen they stay seen. -/
theorem Step.settingsSeen
    {core after : Core}
    (step : Step core after)
    (seen : core.settingsSeen = true) :
    after.settingsSeen = true := by
  cases step <;> first
    | exact seen
    | rfl

theorem Steps.settingsSeen
    {core after : Core}
    (steps : Steps core after)
    (seen : core.settingsSeen = true) :
    after.settingsSeen = true :=
  steps.invariant (motive := fun reached => reached.settingsSeen = true)
    Step.settingsSeen seen

/-- The block that waits for its continuation has begun as one may. -/
def Waits (core : Core) : Prop :=
  ∀ waiting, core.continuing = some waiting → Begun core.events waiting

theorem Step.waits
    {core after : Core}
    (step : Step core after)
    (waits : Waits core) :
    Waits after := by
  cases step with
  | continuing continuing begun => exact begun
  | _ =>
      intro waiting held
      have begun := waits waiting held
      first
        | exact begun
        | exact ⟨begun.bounded, fun ends => (begun.ends ends).append _⟩

theorem Steps.waits
    {core after : Core}
    (steps : Steps core after)
    (waits : Waits core) :
    Waits after :=
  steps.invariant Step.waits waits

end Core
end Http2
end XmipNet

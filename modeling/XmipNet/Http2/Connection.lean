import XmipNet.Foundation.Fallible
import XmipNet.Http2.Hpack.Decoder
import XmipNet.Http2.Hpack.Encoder
import XmipNet.Http2.Settings
import XmipNet.Http2.Stream
import Mathlib.Data.Finset.Basic

/-!
# One HTTP/2 connection

Either side's state, the settings each side announced, the header compression
each keeps, the connection's two windows, the streams and what has arrived on
them, and the half that writes: a header block split over `HEADERS` and
`CONTINUATION`, `RST_STREAM` and `GOAWAY`, held together or written at once.
-/

namespace XmipNet
namespace Http2

open Hpack (Field)

/-- The largest dynamic table this side's encoder keeps, whatever the peer
allows. -/
def encoderTable : Nat := 4096

/-- The octets a client's connection opens with. -/
def preface : List UInt8 :=
  Text.octets "PRI * HTTP/2.0\r\n\r\nSM\r\n\r\n"

/-- A header block still waiting for its `CONTINUATION`. -/
structure Continuing where
  stream : Nat
  block : List UInt8
  ends : Bool
  deriving DecidableEq

/-- What a connection read and wrote, the blocks it passed over and the breaches
it ended over, in order. The program does not keep this: it is what statements
about a whole run speak of. -/
inductive Event
  | received (frame : Frame)
  | emitted (frame : Frame)
  | passedOver (stream : Nat)
  | breached (violation : Violation)
  deriving DecidableEq

/-- The streams of a connection by their numbers. -/
abbrev Streams := Std.TreeMap Nat Stream

/-- One connection. `highest` is the highest stream either side has opened,
`lastPeer` the highest the peer opened, `goaway` the peer's `GOAWAY`,
`goingAway` whether this side has sent one, and `held` the frames emitted inside
`together`. -/
structure Connection where
  wire : Wire
  client : Bool
  localSettings : Settings
  remoteSettings : Settings
  encoder : Hpack.Encoder
  decoder : Hpack.Decoder
  send : Window
  receive : Window
  streams : Streams
  continuing : Option Continuing
  highest : Nat
  lastPeer : Nat
  goaway : Option (Nat × ErrorCode)
  goingAway : Bool
  settingsSeen : Bool
  pongs : List (List UInt8)
  stalls : Nat
  held : Option (List UInt8)
  events : List Event

/-- What a connection does, failing as its caller is told. -/
abbrev Action := Fallible Connection NetError

namespace Connection

open Fallible (get modify lift attempt mapError)

/-- The state a connection starts in over `wire`. -/
def initial (wire : Wire) (client : Bool) : Connection where
  wire
  client
  localSettings := .ours
  remoteSettings := .default
  encoder := .new encoderTable true
  decoder := .new Settings.ours.headerTableSize
  send := .new defaultWindow
  receive := .new defaultWindow
  streams := ∅
  continuing := none
  highest := 0
  lastPeer := 0
  goaway := none
  goingAway := false
  settingsSeen := false
  pongs := []
  stalls := 0
  held := none
  events := []

/-- The connection with one more event. -/
def log (connection : Connection) (event : Event) : Connection :=
  { connection with events := connection.events ++ [event] }

/-- The connection with the record of one stream written. -/
def setStream (connection : Connection) (id : Nat) (stream : Stream) :
    Connection :=
  { connection with streams := connection.streams.insert id stream }

/-- The connection without the record of one stream. -/
def remove (connection : Connection) (id : Nat) : Connection :=
  { connection with streams := connection.streams.erase id }

/-- A stream opened on `id`, with the windows both sides announced. -/
def openStream (connection : Connection) (id : Nat) : Connection :=
  { connection with
    highest := max connection.highest id
    streams := connection.streams.insertIfNew id
      (.new connection.remoteSettings.initialWindowSize
        connection.localSettings.initialWindowSize) }

/-- A use of the connection underneath. -/
def onWire {α : Type} (use : Wire → Except NetError α × Wire) : Action α :=
  fun connection =>
    ((use connection.wire).1,
      { connection with wire := (use connection.wire).2 })

/-- Write `bytes`, failing as `doing`. -/
def writeAll (doing : String) (bytes : List UInt8) : Action Unit :=
  onWire fun wire =>
    ((wire.writeAll bytes).1.mapError (NetError.fromIo doing),
      (wire.writeAll bytes).2)

/-- Flush, failing as `doing`. -/
def flush (doing : String) : Action Unit :=
  onWire fun wire =>
    (wire.flush.1.mapError (NetError.fromIo doing), wire.flush.2)

/-- Write `frame` and flush it; inside `together`, hold it to be written with
the others. -/
def emit (frame : Frame) : Action Unit := do
  modify fun connection => connection.log (.emitted frame)
  let connection ← get
  match connection.held with
  | some held =>
      modify fun connection =>
        { connection with held := some (held ++ frame.encode) }
  | none => do
      onWire fun wire => frame.write wire
      flush "flushing a frame"

/-- What is held written now, holding on. -/
def release : Action Unit := do
  let connection ← get
  match connection.held with
  | none | some [] => pure ()
  | some bytes => do
      modify fun connection => { connection with held := some [] }
      writeAll "writing frames" bytes
      flush "writing frames"

/-- What `build` emits written as one write, flushed once. -/
def together {α : Type} (build : Action α) : Action α := do
  modify fun connection => { connection with held := some [] }
  let made ← attempt build
  let written ← attempt release
  modify fun connection => { connection with held := none }
  let value ← lift made
  lift (written.map fun _ => value)

/-- What is built together: the outcome of building it, or of writing it. -/
theorem together_apply
    {α : Type}
    (build : Action α)
    (connection : Connection) :
    together build connection =
      let built := build { connection with held := some [] }
      let written := release built.2
      (built.1.bind fun value => written.1.map fun _ => value,
        { written.2 with held := none }) := by
  simp only [together, Fallible.bind_apply, Fallible.attempt_apply,
    Fallible.modify_apply, lift]
  rcases build { connection with held := some [] } with ⟨_ | value, built⟩
  · rfl
  · rfl

/-- The pieces of at most `most` octets that `octets` are cut into. -/
def chunks (most : Nat) (octets : List UInt8) : List (List UInt8) :=
  if octets = [] ∨ most = 0 then
    []
  else
    octets.take most :: chunks most (octets.drop most)
termination_by octets.length
decreasing_by
  next nonempty =>
    rw [not_or] at nonempty
    have positive := List.length_pos_of_ne_nil nonempty.1
    rw [List.length_drop]
    omega

/-- The pieces of a header block: one, empty, where the block is. -/
def pieces (most : Nat) (block : List UInt8) : List (List UInt8) :=
  match chunks most block with
  | [] => [[]]
  | cut => cut

/-- The frame of one piece of a header block: the first is a `HEADERS`, which
ends the stream where `ends` asks for it, and the last ends the block. -/
def pieceFrame (id : Nat) (kind : Kind) (ends last : Bool)
    (piece : List UInt8) : Frame where
  kind
  flags := (if last then endHeaders else 0) |||
    (if kind = .headers ∧ ends then endStream else 0)
  stream := id
  payload := piece

/-- Emit the pieces of a header block, the first as `kind`. -/
def emitPieces (id : Nat) (ends : Bool) :
    Kind → List (List UInt8) → Action Unit
  | _, [] => pure ()
  | kind, piece :: rest => do
      emit (pieceFrame id kind ends rest.isEmpty piece)
      emitPieces id ends .continuation rest

/-- The stream's state after this side has ended it. -/
def endLocally (connection : Connection) (id : Nat) : Connection :=
  { connection with
    streams := connection.streams.modify id fun stream =>
      { stream with state := stream.state.endedLocally } }

/-- `fields` encoded as one header block. -/
def encodeBlock (fields : List Field) : Action (List UInt8) :=
  fun connection =>
    let (block, encoder) := connection.encoder.encode fields
    (.ok block, { connection with encoder })

/-- Write `fields` as one header block on `id`, over as many frames as the
peer's maximum frame size asks, ending the stream where `ends` says so. -/
def sendHeaders (id : Nat) (fields : List Field) (ends : Bool) :
    Action Unit := do
  let block ← encodeBlock fields
  let connection ← get
  emitPieces id ends .headers
    (pieces connection.remoteSettings.maxFrameSize block)
  if ends then
    modify fun connection => connection.endLocally id
  else
    pure ()

/-- The failure of a stream the peer reset; one it refused, or that a `GOAWAY`
passed over, was never processed and may be sent again. -/
def refused (id : Nat) (code : ErrorCode) : NetError :=
  { message := s!"stream {id} was reset: {code.debug}"
    io := if code = .refusedStream then some .connectionAborted else none }

/-- The record of `id` marked as ended with `code`. -/
def markReset (connection : Connection) (id : Nat) (code : ErrorCode) :
    Connection :=
  { connection with
    streams := connection.streams.modify id fun stream =>
      { stream with state := .closed, reset := some code } }

/-- End `id` with `code`, telling the peer. -/
def reset (id : Nat) (code : ErrorCode) : Action Unit := do
  modify fun connection => connection.markReset id code
  emit (.reset id code)

/-- Tell the peer this side is going away: nothing it opens after the last
stream it opened will be processed. -/
def goAway (code : ErrorCode) (debug : String) : Action Unit := do
  modify fun connection => { connection with goingAway := true }
  let connection ← get
  emit (.goaway connection.lastPeer code (Text.octets debug))

/-- End the connection over `violation`: a `GOAWAY` carrying its code, and the
failure the caller returns. -/
def fail {α : Type} (violation : Violation) : Action α := do
  modify fun connection => connection.log (.breached violation)
  let _ ← attempt (goAway violation.code violation.message)
  Fallible.fail violation.toNetError

/-- A client writes the preface. -/
def writePreface : Action Unit := do
  let connection ← get
  if connection.client then
    writeAll "writing the preface" preface
  else
    pure ()

/-- A client writes the preface, and both sides their settings. -/
def opening : Action Unit := do
  writePreface
  let connection ← get
  emit
    { kind := .settings
      flags := 0
      stream := 0
      payload := connection.localSettings.encode }

/-- Start a connection over `wire`. A server has read the client's preface
first. -/
def start (wire : Wire) (client : Bool) : Except NetError Connection :=
  match opening (initial wire client) with
  | (.ok _, connection) => .ok connection
  | (.error failure, _) => .error failure

end Connection
end Http2
end XmipNet

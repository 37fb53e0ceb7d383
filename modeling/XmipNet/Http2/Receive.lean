import XmipNet.Http2.Connection
import XmipNet.Http2.Message

/-!
# The reading half of a connection

One frame at a time, each type handled as RFC 9113 section 6 says, a breach of
the connection ended with `GOAWAY` and a breach of one stream with `RST_STREAM`.
-/

namespace XmipNet
namespace Http2

open Hpack (Field)

/-- The largest header block assembled, before it is decoded. -/
def maxBlock : Nat := 1024 * 1024

/-- The largest number of the machine's word. -/
def usizeMax : Nat := 2 ^ 64 - 1

/-- A breach of the whole connection, or of one stream. -/
inductive Breach
  | connection (violation : Violation)
  | stream (id : Nat) (violation : Violation)
  deriving DecidableEq

/-- What a connection does with a frame, failing with a breach. -/
abbrev Handler := Fallible Connection Breach

namespace Connection

open Fallible (get modify lift attempt mapError)

/-- An outcome whose violation is the connection's. -/
def onConnection {α : Type} (outcome : Except Violation α) : Handler α :=
  lift (outcome.mapError .connection)

/-- An outcome whose violation is one stream's. -/
def onStream {α : Type} (id : Nat) (outcome : Except Violation α) : Handler α :=
  lift (outcome.mapError (.stream id))

/-- A frame on a stream the peer has already ended. -/
def closed (what : String) : Violation :=
  .new .streamClosed s!"{what} on a closed stream"

/-- The connection broke while answering the peer. -/
def lost (failure : NetError) : Breach :=
  .connection (.new .internal failure.message)

/-- Answer the peer with `frame`. -/
def answer (frame : Frame) : Handler Unit :=
  mapError lost (emit frame)

/-- Whether `id` is above every stream opened: idle, where only `HEADERS` and
`PRIORITY` may arrive. -/
def idle (connection : Connection) (id : Nat) : Bool :=
  connection.highest < id

/-- A length as the increment that gives it back. -/
def incrementOf (length : Nat) : Nat :=
  if length < 2 ^ 32 then length else maxStreamId

/-- Take the octets of a `DATA` from the connection's window. -/
def takeConnection (length : Nat) : Handler Unit := do
  let connection ← get
  let taken ← onConnection (connection.receive.take length)
  modify fun connection => { connection with receive := taken }

/-- Give the octets of a `DATA` back to the connection's window. -/
def giveBack (length : Nat) : Handler Unit :=
  if 0 < length then do
    answer (.windowUpdate 0 (incrementOf length))
    let connection ← get
    let granted ← onConnection (connection.receive.grant (incrementOf length))
    modify fun connection => { connection with receive := granted }
  else
    pure ()

/-- The refusal of a body that grew too long. -/
def overBody : Violation :=
  .new .cancel "a body over the most Xmip reads"

/-- What a `DATA` adds to a stream that takes it, once its octets have been
taken from the stream's window: the content, then the stream's end or the octets
given back. -/
def extendBody (frame : Frame) (stream : Stream) : Handler Unit := do
  let id := frame.stream
  let length := frame.payload.length
  modify fun connection => connection.setStream id stream
  let content ← onConnection frame.content
  if maxBody < stream.body.length + content.length then
    Fallible.fail (.stream id overBody)
  else
    let extended := { stream with body := stream.body ++ content }
    if frame.has endStream then
      modify fun connection => connection.setStream id
        { extended with state := stream.state.endedRemotely }
    else if 0 < length then do
      modify fun connection => connection.setStream id extended
      let granted ← onConnection (extended.receive.grant (incrementOf length))
      modify fun connection => connection.setStream id
        { extended with receive := granted }
      answer (.windowUpdate id (incrementOf length))
    else
      modify fun connection => connection.setStream id extended

/-- A `DATA` on its stream, its octets already given back to the connection. -/
def dataOn (frame : Frame) : Handler Unit := do
  let id := frame.stream
  let connection ← get
  if connection.idle id then
    Fallible.fail (.connection (.protocol s!"DATA on idle stream {id}"))
  else
    match connection.streams[id]? with
    | none => Fallible.fail (.stream id (closed "DATA"))
    | some stream =>
        if stream.reset.isSome then
          pure ()
        else if ¬stream.state.receiving then
          Fallible.fail (.stream id (closed "DATA"))
        else do
          let taken ← onStream id (stream.receive.take frame.payload.length)
          extendBody frame { stream with receive := taken }

/-- A `DATA` arrived. -/
def data (frame : Frame) : Handler Unit := do
  takeConnection frame.payload.length
  giveBack frame.payload.length
  dataOn frame

/-- The fields of a whole block, the decoder's table moving with them. -/
def decodeBlock (octets : List UInt8) : Handler (List Field) :=
  fun connection =>
    let (outcome, decoder) := connection.decoder.decode octets
    (outcome.mapError .connection, { connection with decoder })

/-- The largest header list this side takes. -/
def headerListLimit (connection : Connection) : Nat :=
  connection.localSettings.maxHeaderListSize.getD usizeMax

/-- The streams that are not closed. -/
def openCount (connection : Connection) : Nat :=
  (connection.streams.toList.filter
    fun entry => entry.2.state ≠ .closed).length

/-- The most streams the peer may have open. -/
def mostStreams (connection : Connection) : Nat :=
  connection.localSettings.maxConcurrentStreams.getD usizeMax

/-- The refusal of a stream past the most this side takes. -/
def tooMany : Violation :=
  .new .refusedStream "too many streams at once"

/-- The peer's fields on the record of `id`. -/
def headersOnRecord (id : Nat) (stream : Stream) (fields : List Field)
    (ends : Bool) : Handler Unit := do
  let changed ← onStream id (stream.headers fields ends)
  modify fun connection => connection.setStream id changed

/-- A stream the peer opens: taken unless this side is going away or has too
many. -/
def openByPeer (id : Nat) (fields : List Field) (ends : Bool) :
    Handler Unit := do
  modify fun connection =>
    { connection with
      lastPeer := id
      highest := max connection.highest id }
  let connection ← get
  if connection.goingAway then
    modify fun connection => connection.log (.passedOver id)
  else if connection.mostStreams ≤ connection.openCount then
    Fallible.fail (.stream id tooMany)
  else do
    modify fun connection => connection.openStream id
    let connection ← get
    match connection.streams[id]? with
    | some stream => headersOnRecord id stream fields ends
    | none => pure ()

/-- Well-formed fields on `id`: on its record, or opening it. Only a client
opens a stream, on an odd number above the last. -/
def fieldsOn (id : Nat) (fields : List Field) (ends : Bool) :
    Handler Unit := do
  let connection ← get
  match connection.streams[id]? with
  | some stream =>
      if stream.reset.isSome then
        pure ()
      else
        headersOnRecord id stream fields ends
  | none =>
      if connection.client ∨ id % 2 = 0 ∨ id ≤ connection.lastPeer then
        Fallible.fail (.connection
          (.protocol s!"a header block on stream {id}"))
      else
        openByPeer id fields ends

/-- A header block, whole or to be continued. It is decoded whatever becomes of
the stream: the table is the connection's, and the peer's encoder has moved
on. -/
def block (id : Nat) (octets : List UInt8) (ends whole : Bool) :
    Handler Unit :=
  if maxBlock < octets.length then
    Fallible.fail (.connection
      (.new .enhanceYourCalm "a header block over 1 MiB"))
  else if ¬whole then
    modify fun connection =>
      { connection with continuing := some { stream := id, block := octets, ends } }
  else do
    let fields ← decodeBlock octets
    let connection ← get
    onStream id (Message.check fields connection.headerListLimit)
    fieldsOn id fields ends

/-- A `CONTINUATION` arrived. -/
def continuation (frame : Frame) : Handler Unit := do
  let connection ← get
  match connection.continuing with
  | none =>
      Fallible.fail (.connection
        (.protocol "a CONTINUATION that continues nothing"))
  | some continuing => do
      modify fun connection => { connection with continuing := none }
      block continuing.stream (continuing.block ++ frame.payload)
        continuing.ends (frame.has endHeaders)

/-- The single word of a payload of four octets. -/
def soleWord (frame : Frame) (refusal : String) : Except Violation Nat :=
  match frame.word 0 with
  | some word =>
      if frame.payload.length = 4 then .ok word else .error (.frameSize refusal)
  | none => .error (.frameSize refusal)

/-- A `RST_STREAM` arrived. -/
def rstStream (frame : Frame) : Handler Unit := do
  let code ← onConnection
    (soleWord frame "a RST_STREAM that is not 4 octets")
  let connection ← get
  if connection.idle frame.stream then
    Fallible.fail (.connection
      (.protocol "a RST_STREAM on an idle stream"))
  else
    modify fun connection => connection.markReset frame.stream (.of code)

/-- A peer's parameters applied to what it announced before. -/
def applySettings (payload : List UInt8) : Handler Unit :=
  fun connection =>
    let (outcome, settings) :=
      connection.remoteSettings.apply payload connection.client
    (outcome.mapError .connection,
      { connection with remoteSettings := settings })

/-- Every stream's send window moved by `delta`, in order, up to the first that
would pass its bound. -/
def shiftEach (delta : Int) :
    List (Nat × Stream) → Streams → Except Violation Unit × Streams
  | [], streams => (.ok (), streams)
  | (id, stream) :: rest, streams =>
      match stream.send.shift delta with
      | .error violation => (.error violation, streams)
      | .ok send =>
          shiftEach delta rest (streams.insert id { stream with send })

/-- The streams moved by the change of the peer's initial window. -/
def shiftStreams (delta : Int) : Handler Unit :=
  fun connection =>
    let (outcome, streams) :=
      shiftEach delta connection.streams.toList connection.streams
    (outcome.mapError .connection, { connection with streams })

/-- A `SETTINGS` arrived. -/
def settings (frame : Frame) : Handler Unit :=
  if frame.has ack then
    if frame.payload ≠ [] then
      Fallible.fail (.connection
        (.frameSize "a SETTINGS acknowledgement with a payload"))
    else
      pure ()
  else do
    let before ← get
    applySettings frame.payload
    let after ← get
    shiftStreams ((after.remoteSettings.initialWindowSize : Int) -
      before.remoteSettings.initialWindowSize)
    modify fun connection =>
      { connection with
        encoder := connection.encoder.resize
          (min connection.remoteSettings.headerTableSize 4096)
        settingsSeen := true }
    answer { kind := .settings, flags := ack, stream := 0, payload := [] }

/-- A `PING` arrived. -/
def pingFrame (frame : Frame) : Handler Unit :=
  if frame.payload.length ≠ 8 then
    Fallible.fail (.connection
      (.frameSize "a PING that is not 8 octets"))
  else if frame.has ack then
    modify fun connection =>
      { connection with pongs := connection.pongs ++ [frame.payload] }
  else
    answer (.ping frame.payload true)

/-- The record of a stream of this side's above the last the peer will process:
it was refused. -/
def passedOverBy (client : Bool) (last : Nat) (id : Nat) (stream : Stream) :
    Stream :=
  if last < id ∧ decide (id % 2 = 1) = client ∧ stream.reset = none then
    { stream with reset := some .refusedStream }
  else
    stream

/-- A `GOAWAY` arrived. -/
def goawayFrame (frame : Frame) : Handler Unit :=
  match frame.word 0, frame.word 4 with
  | some last, some code =>
      let last := last &&& maxStreamId
      modify fun connection =>
        { connection with
          goaway := some (last, .of code)
          streams := connection.streams.map
            (passedOverBy connection.client last) }
  | _, _ =>
      Fallible.fail (.connection (.frameSize "a GOAWAY under 8 octets"))

/-- A `WINDOW_UPDATE` arrived. -/
def windowUpdate (frame : Frame) : Handler Unit := do
  let word ← onConnection
    (soleWord frame "a WINDOW_UPDATE that is not 4 octets")
  let increment := word &&& maxStreamId
  let id := frame.stream
  let connection ← get
  if id = 0 then do
    let granted ← onConnection (connection.send.grant increment)
    modify fun connection => { connection with send := granted }
  else if connection.idle id then
    Fallible.fail (.connection
      (.protocol "a WINDOW_UPDATE on an idle stream"))
  else
    match connection.streams[id]? with
    | none => pure ()
    | some stream => do
        let granted ← onStream id (stream.send.grant increment)
        modify fun connection => connection.setStream id
          { stream with send := granted }

/-- Whether a frame is on a stream its type may not be on. -/
def wrongStream (frame : Frame) : Bool :=
  match frame.kind with
  | .settings | .ping | .goaway => frame.stream ≠ 0
  | .data | .headers | .priority | .rstStream | .continuation =>
      frame.stream = 0
  | .pushPromise | .windowUpdate | .unknown _ => false

/-- Whether a frame comes between the frames of a header block. -/
def interrupts (connection : Connection) (frame : Frame) : Bool :=
  match connection.continuing with
  | some continuing =>
      frame.kind ≠ .continuation ∨ frame.stream ≠ continuing.stream
  | none => false

/-- A `HEADERS` arrived. -/
def headersFrame (frame : Frame) : Handler Unit := do
  let octets ← onConnection frame.content
  block frame.stream octets (frame.has endStream) (frame.has endHeaders)

/-- A frame handled by its type. -/
def dispatch (frame : Frame) : Handler Unit :=
  match frame.kind with
  | .data => data frame
  | .headers => headersFrame frame
  | .continuation => continuation frame
  | .priority =>
      if frame.payload.length ≠ 5 then
        Fallible.fail (.stream frame.stream
          (.frameSize "a PRIORITY that is not 5 octets"))
      else
        pure ()
  | .unknown _ => pure ()
  | .rstStream => rstStream frame
  | .settings => settings frame
  | .pushPromise =>
      Fallible.fail (.connection
        (.protocol "a PUSH_PROMISE, and push is off"))
  | .ping => pingFrame frame
  | .goaway => goawayFrame frame
  | .windowUpdate => windowUpdate frame

/-- One frame handled. -/
def handle (frame : Frame) : Handler Unit := do
  let connection ← get
  if ¬connection.settingsSeen ∧ frame.kind ≠ .settings then
    Fallible.fail (.connection
      (.protocol "the peer's first frame is not SETTINGS"))
  else if connection.interrupts frame then
    Fallible.fail (.connection (.protocol "a header block interrupted"))
  else if wrongStream frame then
    Fallible.fail (.connection
      (.protocol s!"{frame.kind.debug} on stream {frame.stream}"))
  else
    dispatch frame

/-- One frame off the connection underneath. -/
def readFrame : Action (Except Frame.ReadFailure (Option Frame)) :=
  fun connection =>
    let (outcome, wire) :=
      Frame.read connection.wire connection.localSettings.maxFrameSize
    (.ok outcome, { connection with wire })

/-- One frame that was read: handled, a breach of one stream answered with
`RST_STREAM` and one of the connection with `GOAWAY`. -/
def take (frame : Frame) : Action Unit := do
  modify fun connection => connection.log (.received frame)
  let handled ← attempt (handle frame)
  match handled with
  | .ok _ => pure ()
  | .error (.connection violation) => fail violation
  | .error (.stream id violation) => reset id violation.code

/-- Read and handle one frame: `false` where the peer closed the connection
cleanly. -/
def pump : Action Bool := do
  let outcome ← readFrame
  match outcome with
  | .ok none => pure false
  | .error (.net failure) => Fallible.fail failure
  | .error (.violation violation) => fail violation
  | .ok (some frame) => do
      take frame
      pure true

end Connection
end Http2
end XmipNet

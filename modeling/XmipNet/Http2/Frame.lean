import XmipNet.Foundation.BigEndian
import XmipNet.Http2.Error
import XmipNet.Wire

/-!
# The frame of HTTP/2

RFC 9113 section 4: nine octets of header, a 24-bit length, a type, flags and a
31-bit stream identifier, and the payload. A frame written is read back however
the connection cuts its octets.
-/

namespace XmipNet
namespace Http2

/-- The octets of a frame's header. -/
def headerLen : Nat := 9

/-- The largest payload a peer may send before it is told otherwise. -/
def defaultMaxFrameSize : Nat := 16384

/-- The largest a frame size may be set to. -/
def maxFrameSizeLimit : Nat := 16777215

/-- The largest stream identifier and window. -/
def maxStreamId : Nat := 0x7fffffff

/-- `END_STREAM`, on `DATA` and `HEADERS`. -/
def endStream : UInt8 := 0x1

/-- `ACK`, on `SETTINGS` and `PING`. -/
def ack : UInt8 := 0x1

/-- `END_HEADERS`, on `HEADERS` and `CONTINUATION`. -/
def endHeaders : UInt8 := 0x4

/-- `PADDED`, on `DATA` and `HEADERS`. -/
def padded : UInt8 := 0x8

/-- `PRIORITY`, on `HEADERS`. -/
def priority : UInt8 := 0x20

/-- The type of a frame; one this side does not know is kept by its number. -/
inductive Kind
  | data
  | headers
  | priority
  | rstStream
  | settings
  | pushPromise
  | ping
  | goaway
  | windowUpdate
  | continuation
  | unknown (code : UInt8)
  deriving DecidableEq, Repr

namespace Kind

/-- The type as the wire carries it. -/
def code : Kind → UInt8
  | data => 0x0
  | headers => 0x1
  | priority => 0x2
  | rstStream => 0x3
  | settings => 0x4
  | pushPromise => 0x5
  | ping => 0x6
  | goaway => 0x7
  | windowUpdate => 0x8
  | continuation => 0x9
  | unknown code => code

/-- The type the wire carried. -/
def of (code : UInt8) : Kind :=
  match code.toNat with
  | 0x0 => data
  | 0x1 => headers
  | 0x2 => priority
  | 0x3 => rstStream
  | 0x4 => settings
  | 0x5 => pushPromise
  | 0x6 => ping
  | 0x7 => goaway
  | 0x8 => windowUpdate
  | 0x9 => continuation
  | _ => unknown code

/-- The name a type is written with in a violation's words. -/
def debug : Kind → String
  | data => "Data"
  | headers => "Headers"
  | priority => "Priority"
  | rstStream => "RstStream"
  | settings => "Settings"
  | pushPromise => "PushPromise"
  | ping => "Ping"
  | goaway => "Goaway"
  | windowUpdate => "WindowUpdate"
  | continuation => "Continuation"
  | unknown code => s!"Unknown({code.toNat})"

end Kind

/-- One frame: its type, flags, stream and payload. -/
structure Frame where
  kind : Kind
  flags : UInt8
  stream : Nat
  payload : List UInt8
  deriving DecidableEq, Repr

namespace Frame

/-- Whether `flag` is set. -/
def has (frame : Frame) (flag : UInt8) : Bool :=
  frame.flags &&& flag != 0

/-- `RST_STREAM`: `stream` ends with `code`. -/
def reset (stream : Nat) (code : ErrorCode) : Frame where
  kind := .rstStream
  flags := 0
  stream
  payload := BigEndian.write 4 code.code

/-- `PING` with `opaqueData`, or its acknowledgement. -/
def ping (opaqueData : List UInt8) (acknowledges : Bool) : Frame where
  kind := .ping
  flags := if acknowledges then ack else 0
  stream := 0
  payload := opaqueData

/-- `GOAWAY`: nothing above `last` was or will be processed, for `code`. -/
def goaway (last : Nat) (code : ErrorCode) (debug : List UInt8) : Frame where
  kind := .goaway
  flags := 0
  stream := 0
  payload := BigEndian.write 4 (last &&& maxStreamId) ++
    BigEndian.write 4 code.code ++ debug

/-- `WINDOW_UPDATE`: `stream`, 0 for the connection, may take `increment` more
octets. -/
def windowUpdate (stream increment : Nat) : Frame where
  kind := .windowUpdate
  flags := 0
  stream
  payload := BigEndian.write 4 (increment &&& maxStreamId)

/-- The frame as the wire carries it. -/
def encode (frame : Frame) : List UInt8 :=
  BigEndian.write 3 frame.payload.length ++
    [frame.kind.code, frame.flags] ++
    BigEndian.write 4 (frame.stream &&& maxStreamId) ++
    frame.payload

/-- The content of a `DATA` or `HEADERS` without its padding, and for `HEADERS`
without its priority. -/
def content (frame : Frame) : Except Violation (List UInt8) := do
  let (pad, body) ←
    if frame.has padded then
      match frame.payload with
      | [] => .error (.frameSize "a padded frame with no pad length")
      | length :: rest => .ok (length.toNat, rest)
    else
      .ok (0, frame.payload)
  let body ←
    if frame.kind = .headers ∧ frame.has priority then
      if 5 ≤ body.length then
        .ok (body.drop 5)
      else
        .error (.frameSize "a HEADERS too short for its priority")
    else
      .ok body
  if body.length < pad then
    .error (.protocol "the padding is longer than the frame")
  else
    .ok (body.take (body.length - pad))

/-- A frame without padding or priority carries its payload. -/
theorem content_of_plain
    {frame : Frame}
    (unpadded : frame.has padded = false)
    (plain : frame.kind = .headers → frame.has priority = false) :
    frame.content = .ok frame.payload := by
  have unprioritized : ¬(frame.kind = .headers ∧ frame.has priority = true) := by
    rintro ⟨kind, has⟩
    rw [plain kind] at has
    cases has
  simp only [content, unpadded, Bool.false_eq_true, if_false, unprioritized,
    bind, Except.bind, Nat.not_lt_zero, Nat.sub_zero, List.take_length]

/-- A 32-bit field at `place` of the payload. -/
def word (frame : Frame) (place : Nat) : Option Nat :=
  if place + 4 ≤ frame.payload.length then
    some (BigEndian.read ((frame.payload.drop place).take 4))
  else
    none

/-- Why a frame could not be read: the connection's failure, or the peer's
breach. -/
inductive ReadFailure
  | net (failure : NetError)
  | violation (violation : Violation)
  deriving DecidableEq, Repr

/-- Write `frame`, not flushed. -/
def write (wire : Wire) (frame : Frame) : Except NetError Unit × Wire :=
  let (outcome, after) := wire.writeAll frame.encode
  (outcome.mapError (NetError.fromIo "writing a frame"), after)

/-- Read one frame, or none where the connection closed cleanly between two. -/
def read (wire : Wire) (maxSize : Nat) :
    Except ReadFailure (Option Frame) × Wire :=
  match wire.read headerLen with
  | (.closed bytes, after) =>
      if bytes = [] then
        (.ok none, after)
      else
        (.error (.net (.new "the connection closed inside a frame header")),
          after)
  | (.failed error, after) =>
      (.error (.net (.fromIo "reading a frame" error)), after)
  | (.whole header, after) =>
      let length := BigEndian.read (header.take 3)
      if maxSize < length then
        (.error (.violation (.frameSize
          s!"a frame of {length} octets, over the {maxSize} this side allows")),
          after)
      else
        let stream := BigEndian.read (header.drop 5) &&& maxStreamId
        match after.readExact length with
        | (.error error, final) =>
            (.error (.net (.fromIo "reading a frame's payload" error)), final)
        | (.ok payload, final) =>
            (.ok (some
              { kind := .of (header.getD 3 0)
                flags := header.getD 4 0
                stream
                payload }), final)

/-- The stream of a frame that was read is a number a stream can have. -/
theorem stream_of_read
    {wire : Wire}
    {maxSize : Nat}
    {frame : Frame}
    (reads : (read wire maxSize).1 = .ok (some frame)) :
    frame.stream ≤ maxStreamId := by
  rw [read] at reads
  split at reads
  · split at reads <;> cases reads
  · cases reads
  · simp only at reads
    split at reads
    · cases reads
    · split at reads
      · cases reads
      · simp only [Except.ok.injEq, Option.some.injEq] at reads
        rw [← reads]
        exact Nat.and_le_right

/-- A frame that was read is no longer than this side allows. -/
theorem size_of_read
    {wire : Wire}
    {maxSize : Nat}
    {frame : Frame}
    (reads : (read wire maxSize).1 = .ok (some frame)) :
    frame.payload.length ≤ maxSize := by
  rw [read] at reads
  split at reads
  · split at reads <;> cases reads
  · cases reads
  · simp only at reads
    split at reads
    · cases reads
    next within =>
      split at reads
      · cases reads
      next payload final fills =>
        simp only [Except.ok.injEq, Option.some.injEq] at reads
        rw [← reads]
        exact (Wire.length_of_readExact fills).le.trans (not_lt.mp within)

end Frame
end Http2
end XmipNet

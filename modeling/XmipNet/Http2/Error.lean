import XmipNet.NetError

/-!
# The error codes of HTTP/2 and the violation that names one

The codes of RFC 9113 section 7, which a `RST_STREAM` and a `GOAWAY` carry,
as the wire carries them and back.
-/

namespace XmipNet
namespace Http2

/-- Why a stream or a connection ended. -/
inductive ErrorCode
  | noError
  | protocol
  | internal
  | flowControl
  | settingsTimeout
  | streamClosed
  | frameSize
  | refusedStream
  | cancel
  | compression
  | connect
  | enhanceYourCalm
  | inadequateSecurity
  | http11Required
  | unknown (code : Nat)
  deriving DecidableEq, Repr

namespace ErrorCode

/-- The code as the wire carries it. -/
def code : ErrorCode → Nat
  | noError => 0x0
  | protocol => 0x1
  | internal => 0x2
  | flowControl => 0x3
  | settingsTimeout => 0x4
  | streamClosed => 0x5
  | frameSize => 0x6
  | refusedStream => 0x7
  | cancel => 0x8
  | compression => 0x9
  | connect => 0xa
  | enhanceYourCalm => 0xb
  | inadequateSecurity => 0xc
  | http11Required => 0xd
  | unknown code => code

/-- The code the wire carried. -/
def of : Nat → ErrorCode
  | 0x0 => noError
  | 0x1 => protocol
  | 0x2 => internal
  | 0x3 => flowControl
  | 0x4 => settingsTimeout
  | 0x5 => streamClosed
  | 0x6 => frameSize
  | 0x7 => refusedStream
  | 0x8 => cancel
  | 0x9 => compression
  | 0xa => connect
  | 0xb => enhanceYourCalm
  | 0xc => inadequateSecurity
  | 0xd => http11Required
  | other => unknown other

/-- Every code reads back as the number it came from. -/
@[simp] theorem code_of (code : Nat) : (of code).code = code := by
  unfold of
  split <;> rfl

/-- The name a code is written with in a failure's words. -/
def debug : ErrorCode → String
  | noError => "NoError"
  | protocol => "Protocol"
  | internal => "Internal"
  | flowControl => "FlowControl"
  | settingsTimeout => "SettingsTimeout"
  | streamClosed => "StreamClosed"
  | frameSize => "FrameSize"
  | refusedStream => "RefusedStream"
  | cancel => "Cancel"
  | compression => "Compression"
  | connect => "Connect"
  | enhanceYourCalm => "EnhanceYourCalm"
  | inadequateSecurity => "InadequateSecurity"
  | http11Required => "Http11Required"
  | unknown code => s!"Unknown({code})"

end ErrorCode

/-- A breach of the protocol: the code the peer is told, and why. -/
structure Violation where
  code : ErrorCode
  message : String
  deriving DecidableEq, Repr

namespace Violation

/-- A breach of `code`, saying `message`. -/
def new (code : ErrorCode) (message : String) : Violation :=
  { code, message }

/-- A `PROTOCOL_ERROR`. -/
def protocol (message : String) : Violation :=
  new .protocol message

/-- A `FRAME_SIZE_ERROR`. -/
def frameSize (message : String) : Violation :=
  new .frameSize message

/-- A `COMPRESSION_ERROR`: the header block could not be decoded. -/
def compression (message : String) : Violation :=
  new .compression message

/-- `number` in hexadecimal, after `0x`. -/
def hexadecimal (number : Nat) : String :=
  "0x" ++ String.ofList (Nat.toDigits 16 number)

/-- The failure a violation is returned as; it is never the connection's. -/
def toNetError (violation : Violation) : NetError :=
  let code := violation.code.debug
  let number := hexadecimal violation.code.code
  .new s!"HTTP/2 {code} ({number}): {violation.message}"

end Violation
end Http2
end XmipNet

import XmipNet.Http2.Frame

/-!
# The settings of HTTP/2

RFC 9113 section 6.5: six parameters, each a 16-bit identifier and a 32-bit
value, written by one side and applied by the other, and the limits each must
keep. A payload with a value out of range leaves the values before it applied.
-/

namespace XmipNet
namespace Http2

/-- The window every stream and the connection start with. -/
def defaultWindow : Nat := 65535

/-- One side's settings; `none` is unlimited. -/
structure Settings where
  headerTableSize : Nat
  enablePush : Bool
  maxConcurrentStreams : Option Nat
  initialWindowSize : Nat
  maxFrameSize : Nat
  maxHeaderListSize : Option Nat
  deriving DecidableEq, Repr

namespace Settings

/-- The initial values, which hold until a peer's settings say otherwise. -/
def default : Settings where
  headerTableSize := 4096
  enablePush := true
  maxConcurrentStreams := none
  initialWindowSize := defaultWindow
  maxFrameSize := defaultMaxFrameSize
  maxHeaderListSize := none

/-- What this side announces: no push, a hundred streams at once, and a header
list of at most 64 KiB; everything else as initial. -/
def ours : Settings :=
  { default with
    enablePush := false
    maxConcurrentStreams := some 100
    maxHeaderListSize := some (64 * 1024) }

/-- One parameter as the wire carries it. -/
def pair (id value : Nat) : List UInt8 :=
  BigEndian.write 2 id ++ BigEndian.write 4 value

/-- The payload that announces every value that differs from the initial one. -/
def encode (settings : Settings) : List UInt8 :=
  (if settings.headerTableSize ≠ default.headerTableSize then
      pair 0x1 settings.headerTableSize else []) ++
    (if settings.enablePush ≠ default.enablePush then
      pair 0x2 (if settings.enablePush then 1 else 0) else []) ++
    (match settings.maxConcurrentStreams with
      | some streams => pair 0x3 streams
      | none => []) ++
    (if settings.initialWindowSize ≠ default.initialWindowSize then
      pair 0x4 settings.initialWindowSize else []) ++
    (if settings.maxFrameSize ≠ default.maxFrameSize then
      pair 0x5 settings.maxFrameSize else []) ++
    (match settings.maxHeaderListSize with
      | some size => pair 0x6 size
      | none => [])

/-- One parameter applied, as `client` or server; an identifier this side does
not know is ignored. -/
def set (settings : Settings) (id value : Nat) (client : Bool) :
    Except Violation Settings :=
  match id with
  | 0x1 => .ok { settings with headerTableSize := value }
  | 0x2 =>
      if 1 < value ∨ (client ∧ value = 1) then
        let sender := if client then "server" else "client"
        .error (.protocol s!"SETTINGS_ENABLE_PUSH of {value} from a {sender}")
      else
        .ok { settings with enablePush := value = 1 }
  | 0x3 => .ok { settings with maxConcurrentStreams := some value }
  | 0x4 =>
      if maxStreamId < value then
        .error (.new .flowControl
          s!"an initial window of {value}, over 2^31 - 1")
      else
        .ok { settings with initialWindowSize := value }
  | 0x5 =>
      if defaultMaxFrameSize ≤ value ∧ value ≤ maxFrameSizeLimit then
        .ok { settings with maxFrameSize := value }
      else
        .error (.protocol
          s!"a maximum frame size of {value}, outside 2^14 to 2^24 - 1")
  | 0x6 => .ok { settings with maxHeaderListSize := some value }
  | _ => .ok settings

/-- The parameters of a payload applied one after another, up to the first that
is refused. -/
def applyPairs (settings : Settings) (client : Bool) :
    List UInt8 → Except Violation Unit × Settings
  | a :: b :: c :: d :: e :: f :: rest =>
      match settings.set (BigEndian.read [a, b]) (BigEndian.read [c, d, e, f])
          client with
      | .ok changed => changed.applyPairs client rest
      | .error violation => (.error violation, settings)
  | _ => (.ok (), settings)

/-- A peer's payload applied, as `client` or server. -/
def apply (settings : Settings) (payload : List UInt8) (client : Bool) :
    Except Violation Unit × Settings :=
  if payload.length % 6 ≠ 0 then
    (.error (.frameSize
      s!"a SETTINGS of {payload.length} octets is not whole parameters"),
      settings)
  else
    settings.applyPairs client payload

/-- What every peer's settings keep, whatever payloads were applied. -/
structure Admitted (settings : Settings) : Prop where
  window : settings.initialWindowSize ≤ maxStreamId
  leastFrame : defaultMaxFrameSize ≤ settings.maxFrameSize
  mostFrame : settings.maxFrameSize ≤ maxFrameSizeLimit

theorem admitted_default : Admitted default where
  window := by decide
  leastFrame := by decide
  mostFrame := by decide

theorem Admitted.set
    {settings changed : Settings}
    (admitted : Admitted settings)
    {id value : Nat}
    {client : Bool}
    (sets : settings.set id value client = .ok changed) :
    Admitted changed := by
  obtain ⟨window, leastFrame, mostFrame⟩ := admitted
  unfold Settings.set at sets
  split at sets
  · cases sets
    exact ⟨window, leastFrame, mostFrame⟩
  · split at sets
    · cases sets
    · cases sets
      exact ⟨window, leastFrame, mostFrame⟩
  · cases sets
    exact ⟨window, leastFrame, mostFrame⟩
  · split at sets
    · cases sets
    next within =>
      cases sets
      exact ⟨not_lt.mp within, leastFrame, mostFrame⟩
  · split at sets
    next within =>
      cases sets
      exact ⟨window, within.1, within.2⟩
    · cases sets
  · cases sets
    exact ⟨window, leastFrame, mostFrame⟩
  · cases sets
    exact ⟨window, leastFrame, mostFrame⟩

theorem Admitted.applyPairs
    {settings : Settings}
    (admitted : Admitted settings)
    (client : Bool)
    (payload : List UInt8) :
    Admitted (settings.applyPairs client payload).2 := by
  fun_induction settings.applyPairs client payload with
  | case1 settings a b c d e f rest changed sets inductionHypothesis =>
      exact inductionHypothesis (admitted.set sets)
  | case2 => exact admitted
  | case3 => exact admitted

/-- Settings stay within their limits under every payload, accepted or not. -/
theorem Admitted.apply
    {settings : Settings}
    (admitted : Admitted settings)
    (payload : List UInt8)
    (client : Bool) :
    Admitted (settings.apply payload client).2 := by
  rw [Settings.apply]
  split
  · exact admitted
  · exact admitted.applyPairs client payload

end Settings
end Http2
end XmipNet

import XmipNet.Http2.Hpack.Table
import XmipNet.Http2.Window

/-!
# A stream of HTTP/2

RFC 9113 section 5.1: the state of a stream, its two windows, and what has
arrived on it, the head, the body and the trailers.
-/

namespace XmipNet
namespace Http2

open Hpack (Field)

/-- The states a stream this side takes part in can be in, once open. -/
inductive State
  | opened
  | halfClosedLocal
  | halfClosedRemote
  | closed
  deriving DecidableEq, Repr

namespace State

/-- After this side sends `END_STREAM`. -/
def endedLocally : State → State
  | opened => halfClosedLocal
  | halfClosedRemote | halfClosedLocal | closed => closed

/-- After the peer sends `END_STREAM`. -/
def endedRemotely : State → State
  | opened => halfClosedRemote
  | halfClosedLocal | halfClosedRemote | closed => closed

/-- Whether the peer may still send on it. -/
def receiving : State → Bool
  | opened | halfClosedLocal => true
  | halfClosedRemote | closed => false

/-- Whether this side may still send on it. -/
def sending : State → Bool
  | opened | halfClosedRemote => true
  | halfClosedLocal | closed => false

@[simp] theorem receiving_endedRemotely (state : State) :
    state.endedRemotely.receiving = false := by
  cases state <;> rfl

@[simp] theorem receiving_endedLocally (state : State) :
    state.endedLocally.receiving = true → state.receiving = true := by
  cases state <;> decide

end State

/-- One stream: where it stands, what each side may still send on it, and what
arrived. `reset` is why it was ended by either side, or passed over by the
peer's `GOAWAY`. -/
structure Stream where
  state : State
  send : Window
  receive : Window
  head : Option (List Field)
  body : List UInt8
  trailers : List Field
  reset : Option ErrorCode
  deriving DecidableEq

namespace Stream

/-- A stream opened with these windows. -/
def new (send receive : Nat) : Stream where
  state := .opened
  send := .new send
  receive := .new receive
  head := none
  body := []
  trailers := []
  reset := none

/-- Whether a header list is one a final head replaces: a `:status` that opens
with 1. -/
def informational (fields : List Field) : Bool :=
  fields.any fun field => field.1 = ":status" ∧ Text.opensWith field.2 '1'

/-- The refusal of a block on a stream the peer has ended. -/
def afterEnd : Violation :=
  .new .streamClosed "HEADERS after END_STREAM"

/-- The refusal of trailers that do not end the stream. -/
def unendedTrailers : Violation :=
  .protocol "a second header block that does not end the stream"

/-- A header block arrived whole: the head, a 1xx the head replaces, or the
trailers, which must end the stream. -/
def headers (stream : Stream) (fields : List Field) (ends : Bool) :
    Except Violation Stream :=
  if ¬stream.state.receiving then
    .error afterEnd
  else
    let state := if ends then stream.state.endedRemotely else stream.state
    if stream.head.isNone ∨ informational fields then
      if informational fields then
        .ok { stream with state }
      else
        .ok { stream with state, head := some fields }
    else if ends then
      .ok { stream with state, trailers := fields }
    else
      .error unendedTrailers

/-- A block that is taken changes the head or the trailers, and the state where
it ends the stream. -/
theorem headers_eq_ok
    {stream changed : Stream}
    {fields : List Field}
    {ends : Bool}
    (heads : stream.headers fields ends = .ok changed) :
    stream.state.receiving = true ∧
      changed.state =
        (if ends then stream.state.endedRemotely else stream.state) ∧
      changed = { stream with
        state := changed.state
        head := changed.head
        trailers := changed.trailers } := by
  simp only [headers] at heads
  split at heads
  · cases heads
  next receiving =>
    have receives : stream.state.receiving = true := by simpa using receiving
    split at heads
    · split at heads
      · cases heads
        exact ⟨receives, rfl, rfl⟩
      · cases heads
        exact ⟨receives, rfl, rfl⟩
    · split at heads
      next asked =>
        cases heads
        exact ⟨receives, (if_pos asked).symm ▸ rfl, rfl⟩
      · cases heads

/-- A stream just opened takes its first block. -/
theorem headers_new
    (send receive : Nat)
    (fields : List Field)
    (ends : Bool) :
    (new send receive).headers fields ends =
      .ok { new send receive with
        state := if ends then .halfClosedRemote else .opened
        head := if informational fields then none else some fields } := by
  by_cases replaced : informational fields = true
  · simp [headers, new, State.receiving, State.endedRemotely, replaced]
  · simp [headers, new, State.receiving, State.endedRemotely, replaced]

/-- Whether the peer has finished sending: ended, or reset. -/
def finished (stream : Stream) : Bool :=
  stream.reset.isSome || !stream.state.receiving

end Stream
end Http2
end XmipNet

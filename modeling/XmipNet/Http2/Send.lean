import XmipNet.Http2.Frames

/-!
# A body sent as the windows allow, and a wait for the peer

A body goes out in `DATA`, never past the connection's window, the stream's or
the peer's frame size: where a window is shut, what the peer sends is read until
it opens. The loops here read and so end with what is left to read, or send and
so end with the body.
-/

namespace XmipNet
namespace Http2
namespace Connection

open Fallible (get modify lift attempt mapError Keeps keeps_bind keeps_get
  keeps_modify keeps_lift keeps_pure keeps_fail bind_apply modify_bind_apply
  get_bind_apply)

/-- The octets `id` may send now, or why it may send none ever again. -/
def openWindow (connection : Connection) (id : Nat) : Except NetError Nat :=
  match connection.streams[id]? with
  | none => .error (.new s!"stream {id} is not open")
  | some stream =>
      match stream.reset with
      | some code => .error (refused id code)
      | none =>
          if ¬stream.state.sending then
            .error (.new s!"stream {id} is closed to sending")
          else
            .ok (min connection.send.available stream.send.available)

/-- Write what is held and read one frame, a window being shut. -/
def stall : Action Unit := do
  modify fun connection => { connection with stalls := connection.stalls + 1 }
  release
  let more ← pump
  if more then
    pure ()
  else
    Fallible.fail (.new "the connection closed while a window was shut")

/-- The frame of one piece of a body. -/
def dataFrame (id : Nat) (ends : Bool) (piece : List UInt8) : Frame where
  kind := .data
  flags := if ends then endStream else 0
  stream := id
  payload := piece

/-- Take a piece that was emitted from the connection's send window. -/
def takeSend (octets : Nat) : Action Unit := do
  let connection ← get
  let taken ← lift
    ((connection.send.take octets).mapError Violation.toNetError)
  modify fun connection => { connection with send := taken }

/-- Take a piece that was emitted from its stream's send window. -/
def takeStreamSend (id octets : Nat) : Action Unit := do
  let connection ← get
  match connection.streams[id]? with
  | none => pure ()
  | some stream => do
      let taken ← lift
        ((stream.send.take octets).mapError Violation.toNetError)
      modify fun connection => connection.setStream id
        { stream with send := taken }

/-- Emit the first piece of `rest` of at most `most` octets, ending the stream
with the last where `ends` says so: what is left, if there is any. -/
def sendPiece (id : Nat) (ends : Bool) (rest : List UInt8) (most : Nat) :
    Action (Option (List UInt8)) := do
  let size := min rest.length most
  let after := rest.drop size
  emit (dataFrame id (after.isEmpty && ends) (rest.take size))
  takeSend (rest.take size).length
  takeStreamSend id (rest.take size).length
  pure (if after.isEmpty then none else some after)

/-- One turn of the loop that sends a body: a stall, or a piece; what is left
to send, if there is any. -/
def sendStep (id : Nat) (ends : Bool) (rest : List UInt8) :
    Action (Option (List UInt8)) := do
  let connection ← get
  let available ← lift (connection.openWindow id)
  let most := min connection.remoteSettings.maxFrameSize available
  if most = 0 ∧ rest ≠ [] then do
    stall
    pure (some rest)
  else
    sendPiece id ends rest most

theorem sendStep_apply
    (id : Nat)
    (ends : Bool)
    (rest : List UInt8)
    (connection : Connection) :
    sendStep id ends rest connection =
      match connection.openWindow id with
      | .error failure => (.error failure, connection)
      | .ok available =>
          let most := min connection.remoteSettings.maxFrameSize available
          if most = 0 ∧ rest ≠ [] then
            (stall >>= fun _ => pure (some rest)) connection
          else
            sendPiece id ends rest most connection := by
  rw [sendStep, get_bind_apply, bind_apply, lift]
  cases connection.openWindow id with
  | error failure => rfl
  | ok available =>
      simp only
      split <;> rfl

theorem remaining_of_fixed
    {connection after : Connection}
    (same : fixed after = fixed connection) :
    after.wire.remaining = connection.wire.remaining :=
  congrArg Wire.left (congrArg Prod.fst same)

theorem remaining_stall
    {connection after : Connection}
    (runs : stall connection = (.ok (), after)) :
    after.wire.remaining < connection.wire.remaining := by
  rw [stall, modify_bind_apply, bind_apply] at runs
  have kept := keeps_fixed_release
    { connection with stalls := connection.stalls + 1 }
  split at runs
  next _ released releases =>
    rw [releases] at kept
    have same := remaining_of_fixed kept
    rw [bind_apply] at runs
    split at runs
    next more read reads =>
      cases more with
      | true =>
          cases runs
          have less := remaining_pump reads
          simp only at same
          omega
      | false => cases runs
    · cases runs
  · cases runs

theorem keeps_fixed_sendPiece
    (id : Nat)
    (ends : Bool)
    (rest : List UInt8)
    (most : Nat) :
    Keeps fixed (sendPiece id ends rest most) := by
  refine keeps_bind (keeps_fixed_emit _) fun _ => keeps_bind ?_ fun _ =>
    keeps_bind ?_ fun _ => keeps_pure _
  · refine keeps_bind keeps_get fun _ => keeps_bind (keeps_lift _) fun _ => ?_
    exact keeps_modify fun _ => rfl
  · refine keeps_bind keeps_get fun connection => ?_
    split
    · exact keeps_pure _
    · refine keeps_bind (keeps_lift _) fun _ => ?_
      exact keeps_modify fun _ => rfl

/-- What is left after a piece. -/
theorem later_of_sendPiece
    {id : Nat}
    {ends : Bool}
    {rest later : List UInt8}
    {most : Nat}
    {connection after : Connection}
    (runs : sendPiece id ends rest most connection = (.ok (some later), after)) :
    later = rest.drop (min rest.length most) ∧ later ≠ [] := by
  simp only [sendPiece, bind_apply] at runs
  split at runs
  · split at runs
    · split at runs
      · by_cases done : (rest.drop (min rest.length most)).isEmpty = true
        · rw [if_pos done] at runs
          cases runs
        · rw [if_neg done] at runs
          cases runs
          exact ⟨rfl, fun empty => done (List.isEmpty_iff.mpr empty)⟩
      · cases runs
    · cases runs
  · cases runs

/-- What is left after a piece is less than there was. -/
theorem length_of_sendPiece
    {id : Nat}
    {ends : Bool}
    {rest later : List UInt8}
    {most : Nat}
    {connection after : Connection}
    (positive : most ≠ 0 ∨ rest = [])
    (runs : sendPiece id ends rest most connection = (.ok (some later), after)) :
    later.length < rest.length := by
  obtain ⟨rfl, some⟩ := later_of_sendPiece runs
  have left := List.length_pos_of_ne_nil some
  rw [List.length_drop] at left ⊢
  have free : most ≠ 0 := by
    refine positive.resolve_right fun empty => ?_
    rw [empty, List.length_nil] at left
    omega
  omega

/-- A turn leaves less to read or less to send. -/
theorem sendStep_decreases
    {id : Nat}
    {ends : Bool}
    {rest later : List UInt8}
    {connection after : Connection}
    (runs : sendStep id ends rest connection = (.ok (some later), after)) :
    after.wire.remaining + later.length <
      connection.wire.remaining + rest.length := by
  rw [sendStep_apply] at runs
  split at runs
  · cases runs
  next available opens =>
    simp only at runs
    split at runs
    · rw [bind_apply] at runs
      split at runs
      next stalls =>
        cases runs
        have less := remaining_stall stalls
        omega
      · cases runs
    next sends =>
      have kept := keeps_fixed_sendPiece id ends rest
        (min connection.remoteSettings.maxFrameSize available) connection
      have shorter := length_of_sendPiece
        (by by_cases none : rest = [] <;> simp_all) runs
      rw [runs] at kept
      have same := remaining_of_fixed kept
      simp only at same
      omega

/-- Turn after turn until the body is sent. -/
def sendFrom (id : Nat) (ends : Bool) (rest : List UInt8)
    (connection : Connection) : Except NetError Unit × Connection :=
  match _runs : sendStep id ends rest connection with
  | (.error failure, after) => (.error failure, after)
  | (.ok none, after) => (.ok (), after)
  | (.ok (some later), after) => sendFrom id ends later after
termination_by connection.wire.remaining + rest.length
decreasing_by exact sendStep_decreases _runs

/-- The whole loop. -/
def sendLoop (id : Nat) (ends : Bool) (body : List UInt8) : Action Unit :=
  sendFrom id ends body

/-- Write `body` on `id` in `DATA`, never past the connection's window, the
stream's or the peer's frame size. -/
def sendData (id : Nat) (body : List UInt8) (ends : Bool) : Action Unit := do
  sendLoop id ends body
  if ends then
    modify fun connection => connection.endLocally id
  else
    pure ()

/-- Read frames until `done` holds: `false` where the peer closed first. -/
def pumpFrom (done : Connection → Bool) (connection : Connection) :
    Except NetError Bool × Connection :=
  if done connection then
    (.ok true, connection)
  else
    match _reads : pump connection with
    | (.error failure, after) => (.error failure, after)
    | (.ok false, after) => (.ok false, after)
    | (.ok true, after) => pumpFrom done after
termination_by connection.wire.remaining
decreasing_by exact remaining_pump _reads

/-- The whole wait. -/
def pumpUntil (done : Connection → Bool) : Action Bool :=
  pumpFrom done

/-- Send a `PING` and read until its acknowledgement comes back. -/
def ping (opaqueData : List UInt8) : Action Unit := do
  emit (.ping opaqueData false)
  let back ← pumpUntil fun connection => opaqueData ∈ connection.pongs
  if back then
    pure ()
  else
    Fallible.fail (.new "the connection closed before the PING came back")

end Connection
end Http2
end XmipNet

import XmipNet.Http2.Send
import XmipNet.Http2.Simulation

/-!
# Sending as steps of the core

One turn of the loop that sends a body finds its stream closed to it, or stalls
and reads a frame, or sends a piece that both windows and the peer's frame size
have room for. Inside `together` a piece is always held, so it is taken from
both windows as soon as it is emitted.
-/

namespace XmipNet
namespace Http2
namespace Connection

open Fallible Core
open Hpack (Field)

/-! ## One turn -/

theorem openWindow_eq_ok_iff
    {connection : Connection}
    {id available : Nat} :
    connection.openWindow id = .ok available ↔
      ∃ stream, connection.streams[id]? = some stream ∧ stream.reset = none ∧
        stream.state.sending = true ∧
          available = min connection.send.available stream.send.available := by
  rw [openWindow]
  cases found : connection.streams[id]? with
  | none => simp
  | some stream =>
      cases reset : stream.reset with
      | some code => simp [reset]
      | none =>
          cases sending : stream.state.sending with
          | false => simp [reset, sending]
          | true =>
              simp only [reset, sending, not_true_eq_false, if_false,
                Except.ok.injEq, Option.some.injEq, exists_eq_left', true_and]
              exact eq_comm

/-- Inside `together` a frame is held. -/
theorem emit_of_held
    {connection : Connection}
    {bytes : List UInt8}
    (held : connection.held = some bytes)
    (frame : Frame) :
    emit frame connection =
      (.ok (),
        { connection.log (.emitted frame) with
          held := some (bytes ++ frame.encode) }) := by
  have logged : (connection.log (.emitted frame)).held = some bytes := held
  rw [emit, modify_bind_apply, get_bind_apply]
  simp only [logged]
  rfl

/-- The frames of a header block's pieces. -/
def blockFrames (id : Nat) (ends : Bool) :
    Kind → List (List UInt8) → List Frame
  | _, [] => []
  | kind, piece :: rest =>
      pieceFrame id kind ends rest.isEmpty piece ::
        blockFrames id ends .continuation rest

theorem of_mem_blockFrames
    {id : Nat}
    {ends : Bool}
    {kind : Kind}
    (block : kind = .headers ∨ kind = .continuation)
    {cut : List (List UInt8)}
    {frame : Frame}
    (member : frame ∈ blockFrames id ends kind cut) :
    frame.stream = id ∧ (frame.kind = .headers ∨ frame.kind = .continuation) := by
  induction cut generalizing kind with
  | nil => cases member
  | cons piece rest inductionHypothesis =>
      rcases List.mem_cons.mp member with rfl | later
      · exact ⟨rfl, block⟩
      · exact inductionHypothesis (Or.inr rfl) later

/-- The connection with frames emitted and held. -/
def holding (connection : Connection) (bytes : List UInt8)
    (frames : List Frame) : Connection :=
  { connection with
    held := some (bytes ++ frames.flatMap Frame.encode)
    events := connection.events ++ frames.map .emitted }

/-- Inside `together` the pieces of a header block are held. -/
theorem emitPieces_of_held
    {connection : Connection}
    {bytes : List UInt8}
    (held : connection.held = some bytes)
    (id : Nat)
    (ends : Bool)
    (kind : Kind)
    (cut : List (List UInt8)) :
    emitPieces id ends kind cut connection =
      (.ok (), connection.holding bytes (blockFrames id ends kind cut)) := by
  induction cut generalizing connection bytes kind with
  | nil =>
      simp only [emitPieces, blockFrames, holding, List.flatMap_nil,
        List.append_nil, List.map_nil, ← held]
      rfl
  | cons piece rest inductionHypothesis =>
      rw [emitPieces, bind_of_ok (emit_of_held held _)]
      rw [inductionHypothesis rfl]
      simp only [blockFrames, holding, log, List.flatMap_cons, List.map_cons,
        List.append_assoc, List.singleton_append]

/-- The frames `fields` go out in on `id`. -/
def headerFrames (connection : Connection) (id : Nat) (fields : List Field)
    (ends : Bool) : List Frame :=
  blockFrames id ends .headers (pieces connection.remoteSettings.maxFrameSize
    (connection.encoder.encode fields).1)

/-- Inside `together` a header block is held whole. -/
theorem sendHeaders_of_held
    {connection : Connection}
    {bytes : List UInt8}
    (held : connection.held = some bytes)
    (id : Nat)
    (fields : List Field)
    (ends : Bool) :
    sendHeaders id fields ends connection =
      let encoded :=
        { connection with encoder := (connection.encoder.encode fields).2 }
      let sent := encoded.holding bytes (connection.headerFrames id fields ends)
      (.ok (), if ends then sent.endLocally id else sent) := by
  have encoded : ({ connection with
      encoder := (connection.encoder.encode fields).2 } : Connection).held =
        some bytes := held
  have pieced := emitPieces_of_held encoded id ends .headers
    (pieces connection.remoteSettings.maxFrameSize
      (connection.encoder.encode fields).1)
  have runs : sendHeaders id fields ends connection =
      (emitPieces id ends .headers
          (pieces connection.remoteSettings.maxFrameSize
            (connection.encoder.encode fields).1) >>= fun _ =>
        if ends then
          modify fun connection => connection.endLocally id
        else
          pure ())
        { connection with encoder := (connection.encoder.encode fields).2 } :=
    rfl
  rw [runs, bind_of_ok pieced]
  cases ends <;> rfl

/-- The connection after a piece of a body was held and taken from both
windows. -/
def afterPiece (connection : Connection) (id : Nat) (stream : Stream)
    (bytes : List UInt8) (frame : Frame) : Connection :=
  { connection.log (.emitted frame) with
    held := some (bytes ++ frame.encode)
    send := { value := connection.send.value - frame.payload.length }
    streams := connection.streams.insert id
      { stream with
        send := { value := stream.send.value - frame.payload.length } } }

/-- The frame of the first piece of `rest`. -/
def pieceOf (id : Nat) (ends : Bool) (rest : List UInt8) (most : Nat) : Frame :=
  dataFrame id ((rest.drop (min rest.length most)).isEmpty && ends)
    (rest.take (min rest.length most))

/-- What is left after the first piece, if there is any. -/
def restOf (rest : List UInt8) (most : Nat) : Option (List UInt8) :=
  if (rest.drop (min rest.length most)).isEmpty then
    none
  else
    some (rest.drop (min rest.length most))

theorem takeSend_of_le
    {connection : Connection}
    {octets : Nat}
    (within : octets ≤ connection.send.value) :
    takeSend octets connection =
      (.ok (),
        { connection with
          send := { value := connection.send.value - octets } }) := by
  have takes : connection.send.take octets =
      .ok { value := connection.send.value - octets } :=
    Window.take_eq_ok_iff.mpr ⟨within, rfl⟩
  rw [takeSend, get_bind_apply, takes]
  rfl

theorem takeStreamSend_of_le
    {connection : Connection}
    {id octets : Nat}
    {stream : Stream}
    (found : connection.streams[id]? = some stream)
    (within : octets ≤ stream.send.value) :
    takeStreamSend id octets connection =
      (.ok (),
        connection.setStream id
          { stream with send := { value := stream.send.value - octets } }) := by
  have takes : stream.send.take octets =
      .ok { value := stream.send.value - octets } :=
    Window.take_eq_ok_iff.mpr ⟨within, rfl⟩
  rw [takeStreamSend, get_bind_apply]
  simp only [found, takes]
  rfl

/-- A piece within both windows is held and taken from them. -/
theorem sendPiece_of_held
    {connection : Connection}
    {id : Nat}
    {stream : Stream}
    {bytes rest : List UInt8}
    {most : Nat}
    (held : connection.held = some bytes)
    (found : connection.streams[id]? = some stream)
    (ends : Bool)
    (inConnection : ((pieceOf id ends rest most).payload.length : Int) ≤
      connection.send.value)
    (inStream : ((pieceOf id ends rest most).payload.length : Int) ≤
      stream.send.value) :
    sendPiece id ends rest most connection =
      (.ok (restOf rest most),
        afterPiece connection id stream bytes (pieceOf id ends rest most)) := by
  refine (bind_of_ok (emit_of_held held _) _).trans ?_
  refine (bind_of_ok (takeSend_of_le (by exact inConnection)) _).trans ?_
  exact bind_of_ok
    (takeStreamSend_of_le (by exact found) (by exact inStream)) _

theorem sendStep_of_refused
    {connection : Connection}
    {id : Nat}
    {failure : NetError}
    (shut : connection.openWindow id = .error failure)
    (ends : Bool)
    (rest : List UInt8) :
    sendStep id ends rest connection = (.error failure, connection) := by
  rw [sendStep_apply, shut]

theorem sendStep_of_shut
    {connection : Connection}
    {id available : Nat}
    {rest : List UInt8}
    (opens : connection.openWindow id = .ok available)
    (shut : min connection.remoteSettings.maxFrameSize available = 0)
    (nonempty : rest ≠ [])
    (ends : Bool) :
    sendStep id ends rest connection =
      (stall >>= fun _ => pure (some rest)) connection := by
  rw [sendStep_apply, opens]
  simp only [if_pos (And.intro shut nonempty)]

/-- The piece a turn sends: some octets of what is left, within both windows and
the peer's frame size. -/
structure Piece (connection : Connection) (id : Nat) (stream : Stream)
    (frame : Frame) : Prop where
  found : connection.streams[id]? = some stream
  live : stream.reset = none
  sending : stream.state.sending = true
  kind : frame.kind = .data
  onStream : frame.stream = id
  nonempty : frame.payload ≠ []
  inConnection : frame.payload.length ≤ connection.send.value
  inStream : frame.payload.length ≤ stream.send.value
  sized : frame.payload.length ≤ connection.remoteSettings.maxFrameSize

theorem piece_of_open
    {connection : Connection}
    {id available : Nat}
    {rest : List UInt8}
    (opens : connection.openWindow id = .ok available)
    (free : min connection.remoteSettings.maxFrameSize available ≠ 0)
    (nonempty : rest ≠ [])
    (ends : Bool) :
    ∃ stream, Piece connection id stream
      (pieceOf id ends rest
        (min connection.remoteSettings.maxFrameSize available)) := by
  obtain ⟨stream, found, live, sending, rfl⟩ := openWindow_eq_ok_iff.mp opens
  have some := List.length_pos_of_ne_nil nonempty
  have length : (pieceOf id ends rest (min connection.remoteSettings.maxFrameSize
      (min connection.send.available stream.send.available))).payload.length =
      min rest.length (min connection.remoteSettings.maxFrameSize
        (min connection.send.available stream.send.available)) := by
    rw [pieceOf, dataFrame, List.length_take]
    omega
  simp only [Window.available] at free length ⊢
  exact ⟨stream,
    { found, live, sending
      kind := rfl
      onStream := rfl
      nonempty := by
        intro empty
        rw [empty, List.length_nil] at length
        omega
      inConnection := by omega
      inStream := by omega
      sized := by omega }⟩

/-- A turn that sends. -/
theorem sendStep_of_open
    {connection : Connection}
    {id available : Nat}
    {bytes rest : List UInt8}
    (held : connection.held = some bytes)
    (opens : connection.openWindow id = .ok available)
    (free : min connection.remoteSettings.maxFrameSize available ≠ 0)
    (nonempty : rest ≠ [])
    (ends : Bool) :
    let most := min connection.remoteSettings.maxFrameSize available
    ∃ stream, Piece connection id stream (pieceOf id ends rest most) ∧
      sendStep id ends rest connection =
        (.ok (restOf rest most),
          afterPiece connection id stream bytes
            (pieceOf id ends rest most)) := by
  obtain ⟨stream, piece⟩ := piece_of_open opens free nonempty ends
  refine ⟨stream, piece, ?_⟩
  rw [sendStep_apply, opens]
  simp only [free, false_and, if_false]
  exact sendPiece_of_held held piece.found ends piece.inConnection
    piece.inStream

/-- How one turn of the loop that sends `rest` on `id` ends, the frames being
held: the stream is shut for good, or a window is and a frame was read or could
not be, or a piece was held. -/
inductive Turned (connection : Connection) (id : Nat) (ends : Bool)
    (rest : List UInt8) :
    Except NetError (Option (List UInt8)) → Connection → Prop
  | refused {failure : NetError}
      (shut : connection.openWindow id = .error failure) :
      Turned connection id ends rest (.error failure) connection
  | broken {failure : NetError} {after : Connection} {available : Nat}
      (opens : connection.openWindow id = .ok available)
      (shut : min connection.remoteSettings.maxFrameSize available = 0)
      (stalls : stall connection = (.error failure, after)) :
      Turned connection id ends rest (.error failure) after
  | waited {after : Connection} {available : Nat}
      (opens : connection.openWindow id = .ok available)
      (shut : min connection.remoteSettings.maxFrameSize available = 0)
      (stalls : stall connection = (.ok (), after)) :
      Turned connection id ends rest (.ok (some rest)) after
  | pieced {available : Nat} {stream : Stream} {bytes : List UInt8}
      (held : connection.held = some bytes)
      (opens : connection.openWindow id = .ok available)
      (free : min connection.remoteSettings.maxFrameSize available ≠ 0)
      (piece : Piece connection id stream (pieceOf id ends rest
        (min connection.remoteSettings.maxFrameSize available))) :
      Turned connection id ends rest
        (.ok (restOf rest
          (min connection.remoteSettings.maxFrameSize available)))
        (afterPiece connection id stream bytes (pieceOf id ends rest
          (min connection.remoteSettings.maxFrameSize available)))

theorem turned_of_sendStep
    {connection after : Connection}
    (held : connection.held.isSome = true)
    {id : Nat}
    {ends : Bool}
    {rest : List UInt8}
    (nonempty : rest ≠ [])
    {outcome : Except NetError (Option (List UInt8))}
    (runs : sendStep id ends rest connection = (outcome, after)) :
    Turned connection id ends rest outcome after := by
  obtain ⟨bytes, held⟩ := Option.isSome_iff_exists.mp held
  cases opens : connection.openWindow id with
  | error failure =>
      rw [sendStep_of_refused opens] at runs
      cases runs
      exact .refused opens
  | ok available =>
      by_cases shut : min connection.remoteSettings.maxFrameSize available = 0
      · rw [sendStep_of_shut opens shut nonempty, bind_apply] at runs
        split at runs
        next stalls =>
          cases runs
          exact .waited opens shut stalls
        next stalls =>
          cases runs
          exact .broken opens shut stalls
      · obtain ⟨stream, piece, result⟩ :=
          sendStep_of_open held opens shut nonempty ends
        rw [result] at runs
        cases runs
        exact .pieced held opens shut piece

/-! ## The loop -/

theorem keeps_steady_stall : Keeps Connection.steady stall := by
  refine keeps_bind (keeps_modify ?_) fun _ =>
    keeps_bind (Keeps.steady keeps_fixed_release) fun _ =>
      keeps_bind keeps_steady_pump fun more => ?_
  · exact fun _ => rfl
  · split
    · exact keeps_pure _
    · exact keeps_fail _

theorem keeps_steady_sendStep
    (id : Nat)
    (ends : Bool)
    (rest : List UInt8) :
    Keeps Connection.steady (sendStep id ends rest) := by
  refine keeps_bind keeps_get fun _ => keeps_bind (keeps_lift _) fun _ => ?_
  simp only
  split
  · exact keeps_bind keeps_steady_stall fun _ => keeps_pure _
  · exact Keeps.steady (keeps_fixed_sendPiece _ _ _ _)

theorem held_of_steady
    {connection after : Connection}
    (same : after.steady = connection.steady) :
    after.held.isSome = connection.held.isSome :=
  congrArg (fun view => view.2.2) same

/-- What a turn leaves to send is not empty. -/
theorem nonempty_of_sendStep
    {connection after : Connection}
    {id : Nat}
    {ends : Bool}
    {rest later : List UInt8}
    (nonempty : rest ≠ [])
    (runs : sendStep id ends rest connection = (.ok (some later), after)) :
    later ≠ [] := by
  rw [sendStep_apply] at runs
  split at runs
  · cases runs
  · simp only at runs
    split at runs
    · rw [bind_apply] at runs
      split at runs
      · cases runs
        exact nonempty
      · cases runs
    · exact (later_of_sendPiece runs).2

/-- A body is sent whole only on a stream this side could still send on. -/
theorem unended_of_sendLoop
    {connection after : Connection}
    {id : Nat}
    {ends : Bool}
    {rest : List UInt8}
    (held : connection.held.isSome = true)
    (nonempty : rest ≠ [])
    (runs : sendLoop id ends rest connection = (.ok (), after)) :
    Unended after id := by
  rw [sendLoop] at runs
  fun_induction sendFrom id ends rest connection with
  | case1 rest connection failure after runs => cases runs
  | case2 rest connection sent sends =>
      cases runs
      obtain ⟨bytes, held⟩ := Option.isSome_iff_exists.mp held
      cases opens : connection.openWindow id with
      | error failure =>
          rw [sendStep_of_refused opens] at sends
          cases sends
      | ok available =>
          by_cases shut :
              min connection.remoteSettings.maxFrameSize available = 0
          · rw [sendStep_of_shut opens shut nonempty, bind_apply] at sends
            split at sends <;> cases sends
          · obtain ⟨stream, piece, result⟩ :=
              sendStep_of_open held opens shut nonempty ends
            rw [result] at sends
            obtain rfl := congrArg Prod.snd sends
            intro record found
            have there : (connection.streams.insert id { stream with
                send := { value := stream.send.value - (pieceOf id ends rest
                  (min connection.remoteSettings.maxFrameSize
                    available)).payload.length } })[id]? = some record := found
            rw [NatMap.getElem?_insert_self] at there
            cases there
            intro ended
            have sending := piece.sending
            rw [show stream.state = .halfClosedLocal from ended] at sending
            cases sending
  | case3 rest connection later middle sends inductionHypothesis =>
      have kept := keeps_steady_sendStep id ends rest connection
      rw [sends] at kept
      exact inductionHypothesis ((held_of_steady kept).trans held)
        (nonempty_of_sendStep nonempty sends) runs

theorem keeps_fixed_emitPieces
    (id : Nat)
    (ends : Bool)
    (kind : Kind)
    (cut : List (List UInt8)) :
    Keeps fixed (emitPieces id ends kind cut) := by
  induction cut generalizing kind with
  | nil => exact keeps_pure _
  | cons piece rest inductionHypothesis =>
      exact keeps_bind (keeps_fixed_emit _)
        fun _ => inductionHypothesis .continuation

theorem keeps_steady_sendHeaders
    (id : Nat)
    (fields : List Field)
    (ends : Bool) :
    Keeps Connection.steady (sendHeaders id fields ends) := by
  refine Keeps.steady (keeps_bind (fun _ => rfl) fun _ =>
    keeps_bind keeps_get fun _ =>
      keeps_bind (keeps_fixed_emitPieces _ _ _ _) fun _ => ?_)
  split
  · exact keeps_modify fun _ => rfl
  · exact keeps_pure _

theorem keeps_steady_sendLoop
    (id : Nat)
    (ends : Bool)
    (body : List UInt8) :
    Keeps Connection.steady (sendLoop id ends body) := by
  intro connection
  rw [sendLoop]
  fun_induction sendFrom id ends body connection with
  | case1 rest connection failure after runs =>
      exact (keeps_steady_sendStep id ends rest).of_eq runs
  | case2 rest connection after runs =>
      exact (keeps_steady_sendStep id ends rest).of_eq runs
  | case3 rest connection later after runs inductionHypothesis =>
      exact inductionHypothesis.trans
        ((keeps_steady_sendStep id ends rest).of_eq runs)

theorem keeps_steady_sendData
    (id : Nat)
    (body : List UInt8)
    (ends : Bool) :
    Keeps Connection.steady (sendData id body ends) := by
  refine keeps_bind (keeps_steady_sendLoop id ends body) fun _ => ?_
  split
  · exact keeps_modify fun _ => rfl
  · exact keeps_pure _

end Connection
end Http2
end XmipNet

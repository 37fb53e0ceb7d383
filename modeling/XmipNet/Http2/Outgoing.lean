import XmipNet.Http2.Client
import XmipNet.Http2.Hpack.Channel
import XmipNet.Http2.Server
import XmipNet.Http2.Spending

/-!
# The frames of a message as its sender emits them

A head, a body and trailers are emitted one after another: a header block in
pieces of the peer's frame size, a body in pieces of what the windows and the
frame size leave at each turn. Between them the peer's settings may hold the
encoder to another size, and nothing else touches it.
-/

namespace XmipNet
namespace Http2

open Hpack (Field)

namespace Core

theorem Turn.admitted
    {core after : Core}
    (turn : Turn core after)
    (admitted : core.remoteSettings.Admitted) :
    after.remoteSettings.Admitted := by
  cases turn with
  | taken => exact admitted
  | opened => exact admitted
  | step step =>
      cases step with
      | breached violation payload same settings applied =>
          rcases applied with same | same
          · exact same ▸ admitted
          · exact same ▸ admitted.apply payload core.client
      | @settings payload _ _ applies =>
          have after := admitted.apply payload core.client
          rwa [applies] at after
      | _ => exact admitted

end Core

namespace Connection

open Fallible Core
open Hpack (Channel)

/-- Wherever a run has come, the peer's settings are ones it may announce. -/
theorem Reached.admitted
    {client : Bool}
    {connection : Connection}
    (reached : Reached client connection) :
    connection.remoteSettings.Admitted := by
  obtain ⟨wire, turns⟩ := reached.turns
  exact turns.invariant (motive := fun core => core.remoteSettings.Admitted)
    Turn.admitted Settings.admitted_default

/-! ## What a stall does to the encoder -/

/-- The encoder is as it was, or held to a size it may be held to. -/
inductive Resizes : Connection → Connection → Prop
  | kept {connection after : Connection}
      (same : after.encoder = connection.encoder) :
      Resizes connection after
  | resized {connection after : Connection} {size : Nat}
      (within : size ≤ encoderTable)
      (resizes : after.encoder = connection.encoder.resize size) :
      Resizes connection after

theorem keeps_encoder_emit (frame : Frame) :
    Keeps encoder (emit frame) := by
  refine keeps_bind (keeps_modify fun _ => rfl) fun _ =>
    keeps_bind keeps_get fun connection => ?_
  split
  · exact keeps_modify fun _ => rfl
  · exact keeps_bind (fun _ => rfl) fun _ => fun _ => rfl

theorem resizes_of_keeps
    {ε α : Type}
    {action : Fallible Connection ε α}
    (keeps : Keeps encoder action) :
    Runs Resizes action :=
  fun connection => .single (.kept (keeps connection))

theorem Touch.resizes
    {connection after : Connection}
    (touch : Touch connection after) :
    Resizes connection after := by
  cases touch with
  | inside _ encoder => exact .kept encoder
  | resized _ within resizes => exact .resized within resizes
  | emitted => exact .kept (keeps_encoder_emit _ connection)

theorem resizes_pump : Runs Resizes pump := by
  have resizes {ε α : Type} {action : Fallible Connection ε α}
      (touches : Runs Touch action) :
      Runs Resizes action :=
    touches.mono fun _ _ => Touch.resizes
  refine runs_bind (resizes_of_keeps fun _ => rfl) fun outcome => ?_
  rcases outcome with (failure | violation) | (_ | frame)
  · exact runs_fail _
  · exact resizes (touches_fail violation)
  · exact runs_pure _
  · exact runs_bind (resizes (touches_take frame)) fun _ => runs_pure _

theorem resizes_stall : Runs Resizes stall := by
  refine runs_bind (resizes_of_keeps fun _ => rfl) fun _ =>
    runs_bind (resizes_of_keeps ?_) fun _ =>
      runs_bind resizes_pump fun more => ?_
  · refine keeps_bind keeps_get fun connection => ?_
    split
    · exact keeps_pure _
    · exact keeps_pure _
    · exact keeps_bind (keeps_modify fun _ => rfl) fun _ =>
        keeps_bind (fun _ => rfl) fun _ => fun _ => rfl
  · split
    · exact runs_pure _
    · exact runs_fail _

theorem keeps_encoder_sendPiece
    (id : Nat)
    (ends : Bool)
    (rest : List UInt8)
    (most : Nat) :
    Keeps encoder (sendPiece id ends rest most) := by
  refine keeps_bind (keeps_encoder_emit _) fun _ => keeps_bind ?_ fun _ =>
    keeps_bind ?_ fun _ => keeps_pure _
  · refine keeps_bind keeps_get fun _ => keeps_bind (keeps_lift _) fun _ => ?_
    exact keeps_modify fun _ => rfl
  · refine keeps_bind keeps_get fun connection => ?_
    split
    · exact keeps_pure _
    · refine keeps_bind (keeps_lift _) fun _ => ?_
      exact keeps_modify fun _ => rfl

theorem resizes_sendStep
    (id : Nat)
    (ends : Bool)
    (rest : List UInt8) :
    Runs Resizes (sendStep id ends rest) := by
  refine runs_bind runs_get fun connection =>
    runs_bind (runs_lift _) fun available => ?_
  simp only
  split
  · exact runs_bind resizes_stall fun _ => runs_pure _
  · exact resizes_of_keeps (keeps_encoder_sendPiece _ _ _ _)

theorem resizes_sendFrom
    (id : Nat)
    (ends : Bool)
    (rest : List UInt8) :
    Runs Resizes (sendFrom id ends rest) := by
  intro connection
  fun_induction sendFrom id ends rest connection with
  | case1 rest connection failure after runs =>
      have turn := resizes_sendStep id ends rest connection
      rwa [runs] at turn
  | case2 rest connection after runs =>
      have turn := resizes_sendStep id ends rest connection
      rwa [runs] at turn
  | case3 rest connection later after runs inductionHypothesis =>
      have turn := resizes_sendStep id ends rest connection
      rw [runs] at turn
      exact turn.trans inductionHypothesis

/-- Sending a body does nothing to the encoder but hold it to other sizes. -/
theorem resizes_sendData
    (id : Nat)
    (body : List UInt8)
    (ends : Bool) :
    Runs Resizes (sendData id body ends) := by
  refine runs_bind (resizes_sendFrom id ends body) fun _ => ?_
  split
  · exact runs_modify fun _ => .kept rfl
  · exact runs_pure _

/-- A decoder that has consumed the encoder's blocks still has after what only
holds the encoder to sizes it allows. -/
theorem consumed_of_resizes
    {ε α : Type}
    {action : Fallible Connection ε α}
    (resizes : Runs Resizes action)
    {connection : Connection}
    {decoder : Hpack.Decoder}
    (room : encoderTable ≤ decoder.limit)
    (consumed : Channel.Consumed ⟨connection.encoder, decoder⟩) :
    Channel.Consumed ⟨(action connection).2.encoder, decoder⟩ := by
  refine resizes.invariant
    (motive := fun after => Channel.Consumed ⟨after.encoder, decoder⟩)
    (fun resizes before => ?_) consumed
  cases resizes with
  | kept same => exact same ▸ before
  | resized within resizes =>
      rw [resizes]
      exact before.resized (within.trans room)

/-! ## A header block -/

theorem flatten_chunks
    {most : Nat}
    (positive : most ≠ 0)
    (octets : List UInt8) :
    (chunks most octets).flatten = octets := by
  fun_induction chunks most octets with
  | case1 octets stops =>
      exact (stops.resolve_right positive).symm
  | case2 octets goes inductionHypothesis =>
      rw [List.flatten_cons, inductionHypothesis]
      exact List.take_append_drop most octets

theorem length_of_mem_chunks
    {most : Nat}
    {octets piece : List UInt8}
    (member : piece ∈ chunks most octets) :
    piece.length ≤ most := by
  fun_induction chunks most octets with
  | case1 octets stops => cases member
  | case2 octets goes inductionHypothesis =>
      rcases List.mem_cons.mp member with rfl | later
      · exact List.length_take_le _ _
      · exact inductionHypothesis later

/-- What a header block was cut into: pieces of at most `most` octets, at least
one. -/
structure Sliced (most : Nat) (block piece : List UInt8)
    (cut : List (List UInt8)) : Prop where
  whole : (piece :: cut).flatten = block
  sized : ∀ other ∈ piece :: cut, other.length ≤ most

theorem pieces_eq
    {most : Nat}
    (positive : most ≠ 0)
    (block : List UInt8) :
    ∃ piece cut, pieces most block = piece :: cut ∧
      Sliced most block piece cut := by
  rw [pieces]
  cases made : chunks most block with
  | nil =>
      have none := flatten_chunks positive block
      rw [made] at none
      refine ⟨[], [], rfl, none, fun other member => ?_⟩
      cases List.mem_singleton.mp member
      exact Nat.zero_le _
  | cons piece cut =>
      refine ⟨piece, cut, rfl, ?_, fun other member => ?_⟩
      · rw [← made, flatten_chunks positive]
      · exact length_of_mem_chunks (made ▸ member)

theorem messageSent_blockFrames
    (id : Nat)
    (ends : Bool)
    (cut : List (List UInt8)) :
    Event.messageSent ((blockFrames id ends .headers cut).map .emitted) =
      blockFrames id ends .headers cut := by
  have carries : ∀ frame ∈ blockFrames id ends .headers cut, ¬frame.Control := by
    intro frame member control
    rcases (of_mem_blockFrames (Or.inl rfl) member).2 with kind | kind
    · exact control.2.1 kind
    · exact control.2.2 kind
  generalize blockFrames id ends .headers cut = frames at carries
  induction frames with
  | nil => rfl
  | cons frame frames inductionHypothesis =>
      obtain ⟨first, others⟩ := List.forall_mem_cons.mp carries
      rw [List.map_cons, ← List.singleton_append, Event.messageSent_append,
        Event.messageSent_emitted first, inductionHypothesis others]
      rfl

/-- A header block goes out in its pieces, and nothing of it is kept but what
the encoder learnt. -/
theorem sliced_of_sendHeaders
    {connection after : Connection}
    (admitted : connection.remoteSettings.Admitted)
    (held : connection.held.isSome = true)
    {id : Nat}
    {fields : List Field}
    {ends : Bool}
    (sends : sendHeaders id fields ends connection = (.ok (), after)) :
    ∃ piece cut later, after.events = connection.events ++ later ∧
      Event.messageSent later = blockFrames id ends .headers (piece :: cut) ∧
      Sliced connection.remoteSettings.maxFrameSize
        (connection.encoder.encode fields).1 piece cut ∧
      after.encoder = (connection.encoder.encode fields).2 ∧
      after.remoteSettings = connection.remoteSettings := by
  obtain ⟨bytes, held⟩ := Option.isSome_iff_exists.mp held
  have positive : connection.remoteSettings.maxFrameSize ≠ 0 := by
    have least := admitted.leastFrame
    rw [defaultMaxFrameSize] at least
    omega
  obtain ⟨piece, cut, made, sliced⟩ :=
    pieces_eq positive (connection.encoder.encode fields).1
  rw [sendHeaders_of_held held] at sends
  have frames : connection.headerFrames id fields ends =
      blockFrames id ends .headers (piece :: cut) := by
    rw [headerFrames, made]
  simp only [frames] at sends
  refine ⟨piece, cut, _, ?_, messageSent_blockFrames id ends _, sliced, ?_, ?_⟩
  · cases ends <;> cases sends <;> rfl
  · cases ends <;> cases sends <;> rfl
  · cases ends <;> cases sends <;> rfl

/-! ## A body -/

/-- A `DATA` on `id`, without padding, that the windows and the peer's frame size
have room for. -/
structure Roomy (connection : Connection) (id : Nat) (frame : Frame) : Prop where
  kind : frame.kind = .data
  onStream : frame.stream = id
  content : frame.content = .ok frame.payload
  sized : frame.payload.length ≤ connection.remoteSettings.maxFrameSize
  room : frame.payload.length ≤ connection.send.value
  roomOn : ∃ stream, connection.streams[id]? = some stream ∧
    frame.payload.length ≤ stream.send.value

theorem Piece.roomy
    {connection : Connection}
    {id : Nat}
    {stream : Stream}
    {frame : Frame}
    (piece : Piece connection id stream frame)
    (content : frame.content = .ok frame.payload) :
    Roomy connection id frame :=
  ⟨piece.kind, piece.onStream, content, piece.sized, piece.inConnection,
    stream, piece.found, piece.inStream⟩

/-- The frames a body goes out in: they carry it, each was cut at a turn that had
room for it, and the last alone ends the stream, where that is asked for. -/
structure Bodied (connection : Connection) (id : Nat) (body : List UInt8)
    (ends : Bool) (earlier : List Frame) (last : Frame) : Prop where
  plain : ∀ frame ∈ earlier, frame.has endStream = false
  ended : last.has endStream = ends
  whole : (earlier ++ [last]).flatMap Frame.payload = body
  roomy : ∀ frame ∈ earlier ++ [last], ∃ left middle,
    Underway id ends (body, connection) (left, middle) ∧ Roomy middle id frame

theorem bodied_of_empty
    {connection after : Connection}
    (held : connection.held.isSome = true)
    {id : Nat}
    {ends : Bool}
    (sends : sendFrom id ends [] connection = (.ok (), after)) :
    Bodied connection id [] ends [] (dataFrame id ends []) ∧
      after.events = connection.events ++ [.emitted (dataFrame id ends [])] ∧
        after.remoteSettings = connection.remoteSettings := by
  have emptied := emptied_sendFrom held id ends
  rw [sends] at emptied
  cases emptied with
  | emitted kept sent room =>
      obtain ⟨least, stream, found, leastOn⟩ := room rfl
      refine ⟨⟨?_, has_dataFrame id ends [], rfl, ?_⟩,
        congrArg Core.events sent, congrArg Core.remoteSettings sent⟩
      · exact fun _ member => by cases member
      · intro frame member
        cases List.mem_singleton.mp member
        exact ⟨[], connection, .refl, rfl, rfl, content_dataFrame id ends [],
          Nat.zero_le _, least, stream, found, leastOn⟩

/-- A body that is sent well goes out whole, and the peer's settings stay ones it
may announce. -/
theorem bodied_of_sendData
    {client : Bool}
    {connection after : Connection}
    (reached : Reached client connection)
    (held : connection.held.isSome = true)
    {id : Nat}
    {body : List UInt8}
    {ends : Bool}
    (sends : sendData id body ends connection = (.ok (), after)) :
    ∃ earlier last later, Bodied connection id body ends earlier last ∧
      after.events = connection.events ++ later ∧
      Event.messageSent later = earlier ++ [last] ∧
      after.remoteSettings.Admitted := by
  obtain ⟨outcome, _, cores⟩ := ended_sendData id body ends connection
  rw [sends] at outcome cores
  have events : after.events = (sendFrom id ends body connection).2.events :=
    congrArg Core.events cores
  by_cases empty : body = []
  · subst empty
    rcases runs : sendFrom id ends [] connection with ⟨given, sent⟩
    rw [runs] at outcome cores events
    cases outcome
    obtain ⟨bodied, grown, same⟩ := bodied_of_empty held runs
    refine ⟨[], _, _, bodied, events.trans grown, ?_, ?_⟩
    · exact Event.messageSent_emitted fun control => control.1 rfl
    · have settings : after.remoteSettings = sent.remoteSettings :=
        congrArg Core.remoteSettings cores
      rw [settings, same]
      exact reached.admitted
  · have sending : Sending client body connection := ⟨reached, held, empty⟩
    obtain ⟨later, grown, pours, cuts⟩ :=
      pours_sendFrom sending
    obtain ⟨whole, earlier, last, split, plain, ended⟩ :=
      pours.whole outcome.symm
    rw [split] at whole cuts
    refine ⟨earlier, last, later, ⟨plain, ended, whole, fun frame member => ?_⟩,
      events.trans grown, split, ?_⟩
    · obtain ⟨left, middle, stream, underway, piece, content⟩ :=
        cuts frame member
      exact ⟨left, middle, underway, piece.roomy content⟩
    · have beats := (plays_sendData held empty id ends).of_eq sends
      exact (reached.strides beats.strides).admitted

end Connection

/-! ## A message -/

/-- What is sent on a stream: a head, a body and trailers, where there are any,
and whether the last of them ends the stream; trailers always do. -/
structure Outgoing where
  head : List Field
  body : Option (List UInt8)
  trailers : Option (List Field)
  ends : Bool

namespace Outgoing

/-- Whether the stream is to be ended. -/
def asked (message : Outgoing) : Bool :=
  message.trailers.isSome || message.ends

/-- Whether it is to be ended with the body. -/
def endsBody (message : Outgoing) : Bool :=
  message.trailers.isNone && message.ends

/-- Whether it is to be ended with the head. -/
def endsHead (message : Outgoing) : Bool :=
  message.body.isNone && message.endsBody

/-- The head of a message. -/
def sendHead (message : Outgoing) (id : Nat) : Action Unit :=
  Connection.sendHeaders id message.head message.endsHead

/-- The body of a message, where it has one. -/
def sendBody (message : Outgoing) (id : Nat) : Action Unit :=
  match message.body with
  | none => pure ()
  | some body => Connection.sendData id body message.endsBody

/-- The trailers of a message, where it has any. -/
def sendTrailers (message : Outgoing) (id : Nat) : Action Unit :=
  match message.trailers with
  | none => pure ()
  | some trailers => Connection.sendHeaders id trailers true

/-- A whole message sent on `id`. -/
def send (message : Outgoing) (id : Nat) : Action Unit := do
  message.sendHead id
  message.sendBody id
  message.sendTrailers id

/-- A message that is sent well is sent well part by part. -/
theorem stages_of_send
    {message : Outgoing}
    {id : Nat}
    {connection after : Connection}
    (sends : message.send id connection = (.ok (), after)) :
    ∃ headed bodied, message.sendHead id connection = (.ok (), headed) ∧
      message.sendBody id headed = (.ok (), bodied) ∧
        message.sendTrailers id bodied = (.ok (), after) := by
  obtain ⟨_, headed, heads, sends⟩ := Fallible.of_bind sends
  obtain ⟨_, bodied, bodies, sends⟩ := Fallible.of_bind sends
  exact ⟨headed, bodied, heads, bodies, sends⟩

end Outgoing

namespace Client

/-- A request goes out as a head and, where it has one, a body that ends its
stream. -/
theorem sendRequest_eq
    (id : Nat)
    (fields : List Field)
    (body : List UInt8) :
    sendRequest id fields body = Outgoing.send
      { head := fields
        body := if body = [] then none else some body
        trailers := none
        ends := true } id := by
  simp only [sendRequest, sendBody, Outgoing.send, Outgoing.sendHead,
    Outgoing.sendBody, Outgoing.sendTrailers, Outgoing.endsHead,
    Outgoing.endsBody, Option.isNone_none, Bool.and_true]
  by_cases empty : body = []
  · simp only [empty, if_true, decide_true, Option.isNone_none,
      bind_pure_unit, pure_bind]
  · simp only [empty, if_false, decide_false, Option.isNone_some,
      bind_pure_unit]

end Client

namespace Server

/-- An answer goes out as a head and, where it has them, a body and trailers,
the last of which ends its stream. -/
theorem sendAnswer_eq
    (id : Nat)
    (response : Http.Response) :
    sendAnswer id response = Outgoing.send
      { head := Message.responseFields response
        body := if response.body = [] then none else some response.body
        trailers :=
          if Message.carried response.trailers = [] then
            none
          else
            some (Message.carried response.trailers)
        ends := true } id := by
  simp only [sendAnswer, sendBody, sendTrailers, Outgoing.send,
    Outgoing.sendHead, Outgoing.sendBody, Outgoing.sendTrailers,
    Outgoing.endsHead, Outgoing.endsBody, Bool.and_true]
  by_cases empty : response.body = [] <;>
    by_cases none : Message.carried response.trailers = [] <;>
      simp [empty, none]

end Server
end Http2
end XmipNet

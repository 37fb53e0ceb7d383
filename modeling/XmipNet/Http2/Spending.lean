import XmipNet.Http2.Heeding
import XmipNet.Http2.Purse

/-!
# A body goes out within what the peer gave

Up to the first breach of the connection every `DATA` of this side's is one the
peer had given room for, on the connection and on its stream, and of a size it
takes, whatever the peer sent in between. The loop that sends a body takes every
piece from both windows, and what it emits is the body from its start: all of it
where the loop ends well, the end of the stream on the last frame alone.
-/

namespace XmipNet
namespace Http2

open Hpack (Field)

namespace Event

instance (frame : Frame) : Decidable frame.Control :=
  inferInstanceAs (Decidable (_ ∧ _ ∧ _))

/-- The frames of messages emitted, in order. -/
def messageSent (events : List Event) : List Frame :=
  (sent events).filter fun frame => ¬frame.Control

/-- The frames of a body emitted, in order. -/
def bodySent (events : List Event) : List Frame :=
  (sent events).filter fun frame => frame.kind = .data

@[simp] theorem messageSent_append
    (events later : List Event) :
    messageSent (events ++ later) = messageSent events ++ messageSent later := by
  rw [messageSent, sent_append, List.filter_append]
  rfl

theorem messageSent_emitted
    {frame : Frame}
    (carries : ¬frame.Control) :
    messageSent [emitted frame] = [frame] := by
  rw [messageSent, sent_singleton, Event.frame, Option.toList_some,
    List.filter_singleton, decide_eq_true carries]
  rfl

theorem messageSent_eq_nil
    {events : List Event}
    (controls : ∀ frame, emitted frame ∈ events → frame.Control) :
    messageSent events = [] := by
  refine List.filter_eq_nil_iff.mpr fun frame member => ?_
  obtain ⟨event, among, made⟩ := List.mem_filterMap.mp member
  have emits : event = emitted frame := by
    cases event with
    | emitted other =>
        cases made
        rfl
    | received | passedOver | breached => cases made
  rw [decide_eq_true_iff, not_not]
  exact controls frame (emits ▸ among)

/-- Where the messages' frames are all of a body, they are the body's. -/
theorem bodySent_eq
    {events : List Event}
    (bodies : ∀ frame ∈ messageSent events, frame.kind = .data) :
    bodySent events = messageSent events := by
  refine List.filter_congr fun frame member => ?_
  rw [decide_eq_decide]
  constructor
  · exact fun kind control => control.1 kind
  · exact fun carries => bodies frame
      (List.mem_filter.mpr ⟨member, decide_eq_true carries⟩)

/-- Every `DATA` emitted before the connection was first ended over a breach is
one the peer had given room for. -/
def Measured (client : Bool) (events : List Event) : Prop :=
  ∀ before frame after, events = before ++ emitted frame :: after →
    Unbreached before → frame.kind = .data → Allowed client before frame

theorem Measured.append
    {client : Bool}
    {events later : List Event}
    (measured : Measured client events)
    (more : ∀ middle frame after, later = middle ++ emitted frame :: after →
      Unbreached (events ++ middle) → frame.kind = .data →
        Allowed client (events ++ middle) frame) :
    Measured client (events ++ later) := by
  intro before frame after split unbreached kind
  rcases List.append_eq_append_iff.mp split with
    ⟨middle, reaches, rest⟩ | ⟨middle, reaches, rest⟩
  · rw [reaches] at unbreached ⊢
    exact more middle frame after rest unbreached kind
  · cases middle with
    | nil =>
        rw [List.append_nil] at reaches
        rw [List.nil_append] at rest
        have whole := more [] frame after rest.symm
        rw [List.append_nil, reaches] at whole
        exact whole unbreached kind
    | cons event middle =>
        obtain ⟨rfl, rest⟩ := List.cons.inj rest
        exact measured before frame middle reaches unbreached kind

/-- Events without a `DATA` of this side's keep to what was given. -/
theorem Measured.quiet
    {client : Bool}
    {events later : List Event}
    (measured : Measured client events)
    (none : ∀ frame, emitted frame ∈ later → frame.kind ≠ .data) :
    Measured client (events ++ later) := by
  refine measured.append fun middle frame after split _ kind => ?_
  refine absurd kind (none frame ?_)
  rw [split]
  exact List.mem_append_right _ List.mem_cons_self

/-- One more `DATA` keeps to what was given where the peer had given room for
it. -/
theorem Measured.emit
    {client : Bool}
    {events : List Event}
    (measured : Measured client events)
    {frame : Frame}
    (allowed : Unbreached events → Allowed client events frame) :
    Measured client (events ++ [emitted frame]) := by
  refine measured.append fun middle other after split unbreached _ => ?_
  cases middle with
  | nil =>
      cases split
      rw [List.append_nil] at unbreached ⊢
      exact allowed unbreached
  | cons first middle =>
      have absent := (List.cons.inj split).2
      cases middle <;> cases absent

end Event

namespace Connection

open Fallible Core
open Event (total spent granted Measured Allowed Unbreached bodySent
  messageSent)

/-! ## Whole runs -/

/-- A piece within both windows is one the peer gave room for. -/
theorem allowed_of_piece
    {connection : Connection}
    (purse : Purse connection.core)
    {id : Nat}
    {stream : Stream}
    {frame : Frame}
    (piece : Piece connection id stream frame) :
    Allowed connection.client connection.events frame := by
  have settings : connection.remoteSettings =
      Event.announced connection.client connection.events := purse.settings
  have inConnection := piece.inConnection
  have inStream := piece.inStream
  refine ⟨?_, fun _ => ?_, ?_⟩
  · have owed : connection.send.value +
        (total spent connection.events : Int) =
          defaultWindow + total (granted 0) connection.events :=
      purse.connection
    omega
  · have owed : stream.send.value +
        (total (Event.spentOn id) connection.events : Int) ≤
          connection.remoteSettings.initialWindowSize +
            total (granted id) connection.events :=
      (purse.records id stream piece.found).owed
    rw [piece.onStream, ← settings]
    omega
  · rw [← settings]
    exact piece.sized

/-- Reading a frame emits nothing of a message. -/
theorem quiet_pump
    {connection : Connection}
    (waits : Waits connection.core) :
    ∃ later, (pump connection).2.events = connection.events ++ later ∧
      ∀ frame, .emitted frame ∈ later → frame.Control := by
  obtain ⟨later, grown⟩ := (moves_pump waits).events
  have events : (pump connection).2.events = connection.events ++ later :=
    grown.symm
  obtain ⟨frames, sent, controls⟩ := control_pump connection
  rw [events, Event.sent_append, List.append_cancel_left_eq] at sent
  refine ⟨later, events, fun frame member => controls frame ?_⟩
  rw [← sent]
  exact List.mem_filterMap.mpr ⟨.emitted frame, member, rfl⟩

theorem measured_beat
    {client : Bool}
    {connection after : Connection}
    (reached : Reached client connection)
    (measured : Measured client connection.events)
    (beat : Beat connection after) :
    Measured client after.events := by
  have single {frame : Frame} (plain : frame.kind ≠ .data) :
      ∀ other, .emitted other ∈ [Event.emitted frame] → other.kind ≠ .data := by
    intro other member
    cases List.mem_singleton.mp member
    exact plain
  cases beat with
  | aside same =>
      have events : after.events = connection.events :=
        congrArg (fun sight => sight.core.events) same
      rw [events]
      exact measured
  | pumped =>
      obtain ⟨later, grown, controls⟩ := quiet_pump reached.sound.waits
      rw [grown]
      exact measured.quiet fun frame member => (controls frame member).1
  | emitted plain own =>
      rw [events_emit]
      exact measured.quiet (single plain.1)
  | @sent id stream frame piece bytes =>
      refine measured.emit fun unbreached => ?_
      have allowed := allowed_of_piece (reached.purse unbreached) piece
      rwa [reached.client] at allowed
  | endedLocally unended => exact measured
  | @ended id code seen refuses =>
      have events : (reset id code connection).2.events =
          connection.events ++ [.emitted (.reset id code)] :=
        congrArg Core.events (core_reset id code connection)
      rw [events]
      exact measured.quiet (single Kind.noConfusion)
  | leaving code debug =>
      have events : (goAway code debug connection).2.events =
          connection.events ++ [.emitted
            (.goaway connection.lastPeer code (Text.octets debug))] :=
        congrArg Core.events (core_goAway code debug connection)
      rw [events]
      exact measured.quiet (single Kind.noConfusion)

/-- Wherever a run has come, every `DATA` was one the peer had given room for. -/
theorem Reached.measured
    {client : Bool}
    {connection : Connection}
    (reached : Reached client connection) :
    Measured client connection.events := by
  obtain ⟨wire, strides⟩ := reached
  induction strides with
  | refl =>
      intro before frame after split
      cases before <;> cases split
  | @tail middle after before stride inductionHypothesis =>
      have reached : Reached client middle := ⟨wire, before⟩
      cases stride with
      | beat beat => exact measured_beat reached inductionHypothesis beat
      | emptied | removed | opened => exact inductionHypothesis

/-! ## The windows -/

/-- The send windows of a connection: what was sent on the connection is what
was given, and no window has left the range of a window. -/
structure Within (connection : Connection) : Prop where
  spent : total spent connection.events ≤
    defaultWindow + total (granted 0) connection.events
  least : -(maxStreamId : Int) ≤ connection.send.value
  most : connection.send.value ≤ maxStreamId
  streams : ∀ (id : Nat) stream, connection.streams[id]? = some stream →
    -(maxStreamId : Int) ≤ stream.send.value ∧
      stream.send.value ≤ maxStreamId

theorem within_of_purse
    {connection : Connection}
    (purse : Purse connection.core) :
    Within connection := by
  have owed : connection.send.value + (total spent connection.events : Int) =
      defaultWindow + total (granted 0) connection.events := purse.connection
  have least : 0 ≤ connection.send.value := purse.least
  refine ⟨by omega, by omega, purse.most, fun id stream found => ?_⟩
  have lent := purse.records id stream found
  have bottom := lent.least
  exact ⟨by omega, lent.most⟩

/-! ## The loop that sends a body -/

/-- The loop that sends a body on `id` has gone on from what was left to send
and its connection to what is left now. -/
abbrev Underway (id : Nat) (ends : Bool) :
    List UInt8 × Connection → List UInt8 × Connection → Prop :=
  Relation.ReflTransGen fun now later =>
    sendStep id ends now.1 now.2 = (.ok (some later.1), later.2)

/-- What the loop goes on from. -/
structure Sending (client : Bool) (rest : List UInt8) (connection : Connection) :
    Prop where
  reached : Reached client connection
  held : connection.held.isSome = true
  nonempty : rest ≠ []

theorem Sending.underway
    {client : Bool}
    {now later : List UInt8 × Connection}
    (sending : Sending client now.1 now.2)
    {id : Nat}
    {ends : Bool}
    (underway : Underway id ends now later) :
    Sending client later.1 later.2 := by
  induction underway with
  | refl => exact sending
  | tail _ turn inductionHypothesis =>
      obtain ⟨reached, held, nonempty⟩ := inductionHypothesis
      have beats := (plays_sendStep held nonempty id ends).of_eq turn
      have kept := (keeps_steady_sendStep id ends _).of_eq turn
      exact ⟨reached.strides beats.strides, (held_of_steady kept).trans held,
        nonempty_of_sendStep nonempty turn⟩

/-- The windows take the piece of a turn that sends one. -/
theorem takes_of_open
    {connection : Connection}
    {id available : Nat}
    (opens : connection.openWindow id = .ok available)
    {rest : List UInt8}
    (nonempty : rest ≠ [])
    (free : min connection.remoteSettings.maxFrameSize available ≠ 0) :
    let size := min rest.length
      (min connection.remoteSettings.maxFrameSize available)
    ∃ taken stream left, connection.send.take size = .ok taken ∧
      connection.streams[id]? = some stream ∧
        stream.send.take size = .ok left := by
  obtain ⟨stream, found, _, _, rfl⟩ := openWindow_eq_ok_iff.mp opens
  have some := List.length_pos_of_ne_nil nonempty
  have inConnection := Window.take_of_le_available
    (show min rest.length (min connection.remoteSettings.maxFrameSize
      (min connection.send.available stream.send.available)) ≤
        connection.send.available by omega) (Or.inl (by omega))
  have inStream := Window.take_of_le_available
    (show min rest.length (min connection.remoteSettings.maxFrameSize
      (min connection.send.available stream.send.available)) ≤
        stream.send.available by omega) (Or.inl (by omega))
  exact ⟨_, stream, _, inConnection, found, inStream⟩

/-- What the loop emits of `body` on `id`: the body from its start, and where it
ends well all of it, the end of the stream on the last frame alone. -/
structure Pours (id : Nat) (ends : Bool) (body : List UInt8)
    (outcome : Except NetError Unit) (frames : List Frame) : Prop where
  onStream : ∀ frame ∈ frames, frame.stream = id
  starts : frames.flatMap Frame.payload <+: body
  whole : outcome = .ok () →
    frames.flatMap Frame.payload = body ∧
      ∃ earlier last, frames = earlier ++ [last] ∧
        (∀ frame ∈ earlier, frame.has endStream = false) ∧
          last.has endStream = ends

theorem pours_nil
    (id : Nat)
    (ends : Bool)
    (body : List UInt8)
    (failure : NetError) :
    Pours id ends body (.error failure) [] :=
  { onStream := fun _ member => by cases member
    starts := List.nil_prefix
    whole := fun fine => by cases fine }

theorem has_dataFrame
    (id : Nat)
    (ends : Bool)
    (piece : List UInt8) :
    (dataFrame id ends piece).has endStream = ends := by
  simp only [Frame.has, dataFrame]
  cases ends <;> decide

/-- The last piece ends the body. -/
theorem pours_last
    {id : Nat}
    {ends : Bool}
    {rest : List UInt8}
    {most : Nat}
    (last : restOf rest most = none) :
    Pours id ends rest (.ok ()) [pieceOf id ends rest most] := by
  rw [restOf] at last
  split at last
  next done =>
    have nothing := List.isEmpty_iff.mp done
    have whole : rest.take (min rest.length most) = rest := by
      rw [List.take_eq_self_iff]
      exact List.drop_eq_nil_iff.mp nothing
    have poured : [pieceOf id ends rest most].flatMap Frame.payload = rest := by
      rw [List.flatMap_singleton]
      exact whole
    refine ⟨?_, ?_, fun _ => ⟨poured, [], _, rfl, ?_, ?_⟩⟩
    · intro frame member
      cases List.mem_singleton.mp member
      rfl
    · rw [poured]
    · exact fun _ member => by cases member
    · rw [pieceOf, has_dataFrame, done, Bool.true_and]
  · cases last

/-- A piece that leaves something to send goes before what is sent of it. -/
theorem Pours.after
    {id : Nat}
    {ends : Bool}
    {rest left : List UInt8}
    {most : Nat}
    (leaves : restOf rest most = some left)
    {outcome : Except NetError Unit}
    {frames : List Frame}
    (pours : Pours id ends left outcome frames) :
    Pours id ends rest outcome (pieceOf id ends rest most :: frames) := by
  rw [restOf] at leaves
  split at leaves
  · cases leaves
  next more =>
    cases leaves
    have joined := List.take_append_drop (min rest.length most) rest
    have unended : (pieceOf id ends rest most).has endStream = false := by
      rw [pieceOf, has_dataFrame, Bool.eq_false_of_not_eq_true more,
        Bool.false_and]
    refine ⟨?_, ?_, fun ok => ?_⟩
    · intro frame member
      rcases List.mem_cons.mp member with rfl | later
      · rfl
      · exact pours.onStream frame later
    · rw [List.flatMap_cons]
      have longer := (List.prefix_append_right_inj
        (rest.take (min rest.length most))).mpr pours.starts
      rwa [joined] at longer
    · obtain ⟨poured, earlier, last, split, plain, ended⟩ := pours.whole ok
      refine ⟨?_, _ :: earlier, last, by rw [split]; rfl, ?_, ended⟩
      · rw [List.flatMap_cons, poured]
        exact joined
      · intro frame member
        rcases List.mem_cons.mp member with rfl | later
        · exact unended
        · exact plain frame later

/-- A stall emits nothing of a message. -/
theorem quiet_stall
    {connection after : Connection}
    (waits : Waits connection.core)
    {outcome : Except NetError Unit}
    (stalls : stall connection = (outcome, after)) :
    ∃ later, after.events = connection.events ++ later ∧
      messageSent later = [] := by
  have pumped {released : Connection} {read : Except NetError Bool}
      (same : released.sight = connection.sight)
      (reads : pump released = (read, after)) :
      ∃ later, after.events = connection.events ++ later ∧
        messageSent later = [] := by
    have cores : released.core = connection.core := congrArg Sight.core same
    have events : released.events = connection.events :=
      congrArg Core.events cores
    obtain ⟨later, grown, controls⟩ := quiet_pump (cores ▸ waits)
    rw [reads, events] at grown
    exact ⟨later, grown, Event.messageSent_eq_nil controls⟩
  cases stalled_of_stall stalls with
  | unwritten releases same =>
      refine ⟨[], ?_, rfl⟩
      rw [List.append_nil]
      exact congrArg (fun sight => sight.core.events) same
  | broken releases same reads => exact pumped same reads
  | closed releases same reads => exact pumped same reads
  | read releases same reads => exact pumped same reads

theorem content_dataFrame
    (id : Nat)
    (ends : Bool)
    (piece : List UInt8) :
    (dataFrame id ends piece).content = .ok piece := by
  have unpadded : (dataFrame id ends piece).has padded = false := by
    simp only [Frame.has, dataFrame]
    cases ends <;> decide
  exact Frame.content_of_plain unpadded fun headers => by cases headers

/-- Each of the frames is one the loop cut from the body: at some turn, within
both windows and the peer's frame size, and without padding. -/
def Cuts (id : Nat) (ends : Bool) (body : List UInt8) (connection : Connection)
    (frames : List Frame) : Prop :=
  ∀ frame ∈ frames, ∃ left middle stream,
    Underway id ends (body, connection) (left, middle) ∧
      Piece middle id stream frame ∧ frame.content = .ok frame.payload

theorem Cuts.head
    {id : Nat}
    {ends : Bool}
    {body left : List UInt8}
    {connection after : Connection}
    {frames : List Frame}
    (cuts : Cuts id ends left after frames)
    (turn : Underway id ends (body, connection) (left, after)) :
    Cuts id ends body connection frames := by
  intro frame member
  obtain ⟨last, middle, stream, underway, piece⟩ := cuts frame member
  exact ⟨last, middle, stream, turn.trans underway, piece⟩

/-- The loop emits the body from its start. -/
theorem pours_sendFrom
    {client : Bool}
    {connection : Connection}
    {id : Nat}
    {ends : Bool}
    {rest : List UInt8}
    (sending : Sending client rest connection) :
    ∃ later, (sendFrom id ends rest connection).2.events =
        connection.events ++ later ∧
      Pours id ends rest (sendFrom id ends rest connection).1
        (messageSent later) ∧
      Cuts id ends rest connection (messageSent later) := by
  have carries {frame : Frame} (kind : frame.kind = .data) :
      ¬frame.Control :=
    fun control => control.1 kind
  fun_induction sendFrom id ends rest connection with
  | case1 rest connection failure after runs =>
      obtain ⟨reached, held, nonempty⟩ := sending
      have none : Cuts id ends rest connection [] :=
        fun _ member => by cases member
      cases turned_of_sendStep held nonempty runs with
      | refused shut =>
          exact ⟨[], (List.append_nil _).symm, pours_nil id ends rest failure,
            none⟩
      | broken opens shut stalls =>
          obtain ⟨later, grown, quiet⟩ := quiet_stall reached.sound.waits stalls
          refine ⟨later, grown, ?_⟩
          rw [quiet]
          exact ⟨pours_nil id ends rest failure, none⟩
  | case2 rest connection after runs =>
      obtain ⟨reached, held, nonempty⟩ := sending
      have turned := turned_of_sendStep held nonempty runs
      generalize made : (Except.ok none : Except NetError _) = outcome at turned
      cases turned with
      | refused | broken | waited => cases made
      | @pieced _ stream _ taken opens free piece =>
          refine ⟨[.emitted _], rfl, ?_⟩
          rw [Event.messageSent_emitted (carries piece.kind)]
          refine ⟨pours_last (Except.ok.inj made).symm, fun frame member => ?_⟩
          cases List.mem_singleton.mp member
          exact ⟨rest, connection, stream, .refl, piece,
            content_dataFrame _ _ _⟩
  | case3 rest connection left after runs inductionHypothesis =>
      have turn : Underway id ends (rest, connection) (left, after) :=
        .single runs
      have on : Sending client left after := sending.underway turn
      obtain ⟨more, further, pours, cuts⟩ := inductionHypothesis on
      obtain ⟨reached, held, nonempty⟩ := sending
      have turned := turned_of_sendStep held nonempty runs
      generalize made : (Except.ok (some left) : Except NetError _) = outcome
        at turned
      cases turned with
      | refused | broken => cases made
      | waited opens shut stalls =>
          cases made
          obtain ⟨later, grown, quiet⟩ := quiet_stall reached.sound.waits stalls
          refine ⟨later ++ more, ?_, ?_⟩
          · rw [further, grown, List.append_assoc]
          · rw [Event.messageSent_append, quiet, List.nil_append]
            exact ⟨pours, cuts.head turn⟩
      | @pieced available stream _ taken opens free piece =>
          refine ⟨.emitted (pieceOf id ends rest
            (min connection.remoteSettings.maxFrameSize available)) :: more,
            ?_, ?_⟩
          · rw [further]
            exact List.append_assoc _ _ _
          · rw [← List.singleton_append, Event.messageSent_append,
              Event.messageSent_emitted (carries piece.kind)]
            refine ⟨pours.after (Except.ok.inj made).symm, fun frame member => ?_⟩
            rcases List.mem_cons.mp member with rfl | later
            · exact ⟨rest, connection, stream, .refl, piece,
                content_dataFrame _ _ _⟩
            · exact cuts.head turn frame later

/-- A body that fails found its stream shut, or could not be waited for: never
over a window that would not take a piece. -/
theorem fails_of_sendFrom
    {client : Bool}
    {connection : Connection}
    {id : Nat}
    {ends : Bool}
    {rest : List UInt8}
    (sending : Sending client rest connection)
    {failure : NetError}
    (fails : (sendFrom id ends rest connection).1 = .error failure) :
    ∃ left middle, Underway id ends (rest, connection) (left, middle) ∧
      (middle.openWindow id = .error failure ∨
        ∃ available, middle.openWindow id = .ok available ∧
          min middle.remoteSettings.maxFrameSize available = 0 ∧
            (stall middle).1 = .error failure) := by
  fun_induction sendFrom id ends rest connection with
  | case1 rest connection refusal after runs =>
      cases fails
      refine ⟨rest, connection, .refl, ?_⟩
      cases turned_of_sendStep sending.held sending.nonempty runs with
      | refused shut => exact Or.inl shut
      | @broken _ _ available opens shut stalls =>
          exact Or.inr ⟨available, opens, shut, congrArg Prod.fst stalls⟩
  | case2 rest connection after runs => cases fails
  | case3 rest connection left after runs inductionHypothesis =>
      have turn : Underway id ends (rest, connection) (left, after) :=
        .single runs
      obtain ⟨last, middle, underway, made⟩ :=
        inductionHypothesis (sending.underway turn) fails
      exact ⟨last, middle, turn.trans underway, made⟩

/-! ## A body of no octets -/

/-- How sending a body of no octets on `id` ends: the stream is shut, or one
`DATA` without a payload was held. -/
inductive Emptied (connection : Connection) (id : Nat) (ends : Bool) :
    Except NetError Unit → Connection → Prop
  | refused {failure : NetError} :
      Emptied connection id ends (.error failure) connection
  | emitted {outcome : Except NetError Unit} {after : Connection}
      (kept : SendsKept connection.streams after.streams)
      (sent : after.core =
        { connection.core.log (.emitted (dataFrame id ends [])) with
          streams := after.streams })
      (room : outcome = .ok () → 0 ≤ connection.send.value ∧
        ∃ stream, connection.streams[id]? = some stream ∧
          0 ≤ stream.send.value) :
      Emptied connection id ends outcome after

theorem eq_of_take_zero
    {window taken : Window}
    (takes : window.take 0 = .ok taken) :
    taken = window ∧ 0 ≤ window.value := by
  obtain ⟨within, value⟩ := Window.take_eq_ok_iff.mp takes
  rw [Nat.cast_zero, sub_zero] at value
  exact ⟨congrArg Window.mk value, within⟩

theorem takeSend_zero
    {connection after : Connection}
    {outcome : Except NetError Unit}
    (takes : takeSend 0 connection = (outcome, after)) :
    after = connection ∧ (outcome = .ok () → 0 ≤ connection.send.value) := by
  rw [takeSend, get_bind_apply] at takes
  cases taking : connection.send.take 0 with
  | error violation =>
      rw [taking] at takes
      cases takes
      exact ⟨rfl, fun fine => by cases fine⟩
  | ok taken =>
      obtain ⟨rfl, room⟩ := eq_of_take_zero taking
      rw [taking] at takes
      cases takes
      exact ⟨rfl, fun _ => room⟩

theorem takeStreamSend_zero
    {id : Nat}
    {connection after : Connection}
    {stream : Stream}
    (found : connection.streams[id]? = some stream)
    {outcome : Except NetError Unit}
    (takes : takeStreamSend id 0 connection = (outcome, after)) :
    SendsKept connection.streams after.streams ∧
      after.core = { connection.core with streams := after.streams } ∧
        (outcome = .ok () → 0 ≤ stream.send.value) := by
  rw [takeStreamSend, get_bind_apply, found] at takes
  simp only at takes
  cases taking : stream.send.take 0 with
  | error violation =>
      rw [taking] at takes
      cases takes
      exact ⟨sendsKept_refl _, rfl, fun fine => by cases fine⟩
  | ok taken =>
      obtain ⟨rfl, room⟩ := eq_of_take_zero taking
      rw [taking] at takes
      cases takes
      exact ⟨sendsKept_sets found (sets_insert _ _ _) rfl, rfl, fun _ => room⟩

theorem emptied_sendStep
    {connection : Connection}
    (held : connection.held.isSome = true)
    (id : Nat)
    (ends : Bool) :
    ∃ outcome after, sendStep id ends [] connection = (outcome, after) ∧
      ((∃ failure, outcome = .error failure) ∨ outcome = .ok none) ∧
        Emptied connection id ends (outcome.map fun _ => ()) after := by
  obtain ⟨bytes, held⟩ := Option.isSome_iff_exists.mp held
  cases opens : connection.openWindow id with
  | error failure =>
      exact ⟨_, _, sendStep_of_refused opens ends [], Or.inl ⟨failure, rfl⟩,
        .refused⟩
  | ok available =>
      have step : sendStep id ends [] connection =
          (emit (dataFrame id ends []) >>= fun _ => takeSend 0 >>= fun _ =>
            takeStreamSend id 0 >>= fun _ => pure none) connection := by
        rw [sendStep_apply, opens]
        simp only [ne_eq, not_true_eq_false, and_false, if_false, sendPiece,
          List.take_nil, List.drop_nil, List.isEmpty_nil, Bool.true_and,
          List.length_nil, if_true]
      obtain ⟨stream, found, _⟩ := openWindow_eq_ok_iff.mp opens
      have still : ({ connection.log (.emitted (dataFrame id ends [])) with
          held := some (bytes ++ (dataFrame id ends []).encode) } :
            Connection).streams[id]? = some stream := found
      rw [step, bind_of_ok (emit_of_held held _), bind_apply]
      split
      next _ after takes =>
        obtain ⟨rfl, room⟩ := takeSend_zero takes
        rw [bind_apply]
        split
        next _ last takes =>
          obtain ⟨kept, sent, roomOn⟩ := takeStreamSend_zero still takes
          exact ⟨_, _, rfl, Or.inr rfl, .emitted kept sent fun _ =>
            ⟨room rfl, stream, found, roomOn rfl⟩⟩
        next failure last takes =>
          obtain ⟨kept, sent, _⟩ := takeStreamSend_zero still takes
          exact ⟨_, _, rfl, Or.inl ⟨failure, rfl⟩,
            .emitted kept sent fun fine => by cases fine⟩
      next failure after takes =>
        obtain ⟨rfl, _⟩ := takeSend_zero takes
        exact ⟨_, _, rfl, Or.inl ⟨failure, rfl⟩,
          .emitted (sendsKept_refl _) rfl fun fine => by cases fine⟩

theorem emptied_sendFrom
    {connection : Connection}
    (held : connection.held.isSome = true)
    (id : Nat)
    (ends : Bool) :
    Emptied connection id ends (sendFrom id ends [] connection).1
      (sendFrom id ends [] connection).2 := by
  obtain ⟨outcome, after, runs, ⟨failure, rfl⟩ | rfl, emptied⟩ :=
    emptied_sendStep held id ends
  · rw [sendFrom]
    split
    next steps =>
      cases runs.symm.trans steps
      exact emptied
    next steps => cases runs.symm.trans steps
    next steps => cases runs.symm.trans steps
  · rw [sendFrom]
    split
    next steps => cases runs.symm.trans steps
    next steps =>
      cases runs.symm.trans steps
      exact emptied
    next steps => cases runs.symm.trans steps

section Emptied

variable {client : Bool} {connection after : Connection} {id : Nat}
  {ends : Bool} {outcome : Except NetError Unit}

theorem Emptied.events
    (emptied : Emptied connection id ends outcome after) :
    ∃ later, after.events = connection.events ++ later ∧
      ((later = [] ∧ ∃ failure, outcome = .error failure) ∨
        later = [.emitted (dataFrame id ends [])]) := by
  cases emptied with
  | refused => exact ⟨[], (List.append_nil _).symm, Or.inl ⟨rfl, _, rfl⟩⟩
  | emitted kept sent => exact ⟨_, congrArg Core.events sent, Or.inr rfl⟩

theorem Emptied.measured
    (emptied : Emptied connection id ends outcome after)
    (reached : Reached client connection) :
    Measured client after.events := by
  obtain ⟨later, grown, ⟨rfl, _⟩ | rfl⟩ := emptied.events
  · rw [grown, List.append_nil]
    exact reached.measured
  · rw [grown]
    refine reached.measured.emit fun unbreached => ?_
    have within := within_of_purse (reached.purse unbreached)
    exact ⟨within.spent, fun some => absurd rfl some, Nat.zero_le _⟩

theorem Emptied.purse
    (emptied : Emptied connection id ends outcome after)
    (reached : Reached client connection)
    (unbreached : Unbreached after.events) :
    Purse after.core := by
  obtain ⟨later, grown, _⟩ := emptied.events
  have purse := reached.purse
    (unbreached.of_prefix (grown ▸ List.prefix_append _ _))
  cases emptied with
  | refused => exact purse
  | emitted kept sent =>
      rw [sent]
      exact (purse.log (Event.neutral_empty rfl)).keep kept

theorem Emptied.pours
    (emptied : Emptied connection id ends outcome after) :
    ∃ later, after.events = connection.events ++ later ∧
      Pours id ends [] outcome (bodySent later) := by
  obtain ⟨later, grown, ⟨rfl, failure, rfl⟩ | rfl⟩ := emptied.events
  · exact ⟨[], grown, pours_nil id ends [] failure⟩
  · refine ⟨_, grown, ?_⟩
    have one : bodySent [.emitted (dataFrame id ends [])] =
        [dataFrame id ends []] := rfl
    rw [one]
    refine ⟨?_, List.nil_prefix, fun _ => ⟨rfl, [], _, rfl, ?_, ?_⟩⟩
    · intro frame member
      cases List.mem_singleton.mp member
      rfl
    · exact fun _ member => by cases member
    · exact has_dataFrame id ends []

end Emptied

/-! ## Sending a body -/

theorem sendData_apply
    (id : Nat)
    (body : List UInt8)
    (ends : Bool)
    (connection : Connection) :
    sendData id body ends connection =
      match sendFrom id ends body connection with
      | (.ok _, after) =>
          (.ok (), if ends then after.endLocally id else after)
      | (.error failure, after) => (.error failure, after) := by
  rw [sendData, bind_apply, sendLoop]
  rcases sendFrom id ends body connection with ⟨failure | _, after⟩
  · rfl
  · cases ends <;> rfl

theorem ended_sendData
    (id : Nat)
    (body : List UInt8)
    (ends : Bool)
    (connection : Connection) :
    let sent := (sendFrom id ends body connection).2
    let after := (sendData id body ends connection).2
    (sendData id body ends connection).1 =
        (sendFrom id ends body connection).1 ∧
      SendsKept sent.streams after.streams ∧
        after.core = { sent.core with streams := after.streams } := by
  simp only [sendData_apply]
  rcases sendFrom id ends body connection with ⟨failure | _, sent⟩
  · exact ⟨rfl, sendsKept_refl _, rfl⟩
  · cases ends with
    | true => exact ⟨rfl, sendsKept_modify _ _ fun _ => rfl, rfl⟩
    | false => exact ⟨rfl, sendsKept_refl _, rfl⟩

/-- What sending a body keeps to, whatever the peer sends in between. Up to the
first breach of the connection every `DATA` is one the peer had given room for
and the windows stay windows; a piece is taken from both windows, and only a
stream that is shut or a wait that breaks fails the body; what was emitted is
the body from its start. -/
structure Affords (client : Bool) (connection : Connection) (id : Nat)
    (body : List UInt8) (ends : Bool) (outcome : Except NetError Unit)
    (after : Connection) : Prop where
  measured : Measured client after.events
  within : ∀ {rest : List UInt8} {middle : Connection},
    Underway id ends (body, connection) (rest, middle) →
      Unbreached middle.events → Within middle
  ended : Unbreached after.events → Within after
  takes : body ≠ [] → ∀ {rest : List UInt8} {middle : Connection}
    {available : Nat}, Underway id ends (body, connection) (rest, middle) →
      middle.openWindow id = .ok available →
      min middle.remoteSettings.maxFrameSize available ≠ 0 →
        let size := min rest.length
          (min middle.remoteSettings.maxFrameSize available)
        ∃ taken stream left, middle.send.take size = .ok taken ∧
          middle.streams[id]? = some stream ∧
            stream.send.take size = .ok left
  fails : body ≠ [] → ∀ failure, outcome = .error failure →
    ∃ rest middle, Underway id ends (body, connection) (rest, middle) ∧
      (middle.openWindow id = .error failure ∨
        ∃ available, middle.openWindow id = .ok available ∧
          min middle.remoteSettings.maxFrameSize available = 0 ∧
            (stall middle).1 = .error failure)
  pours : ∃ later, after.events = connection.events ++ later ∧
    Pours id ends body outcome (bodySent later)

theorem affords_of_sending
    {client : Bool}
    {connection : Connection}
    {body : List UInt8}
    (sending : Sending client body connection)
    (id : Nat)
    (ends : Bool) :
    Affords client connection id body ends
      (sendData id body ends connection).1
      (sendData id body ends connection).2 := by
  obtain ⟨outcome, _, cores⟩ := ended_sendData id body ends connection
  have reached := sending.reached.strides
    (Beats.strides (plays_sendData sending.held sending.nonempty id ends))
  have events : (sendData id body ends connection).2.events =
      (sendFrom id ends body connection).2.events :=
    congrArg Core.events cores
  refine ⟨reached.measured, ?_, ?_, ?_, ?_, ?_⟩
  · intro rest middle underway unbreached
    exact within_of_purse ((sending.underway underway).reached.purse unbreached)
  · exact fun unbreached => within_of_purse (reached.purse unbreached)
  · intro _ rest middle available underway opens free
    exact takes_of_open opens (sending.underway underway).nonempty free
  · intro _ failure fails
    exact fails_of_sendFrom sending (outcome ▸ fails)
  · obtain ⟨later, grown, pours, cuts⟩ := pours_sendFrom sending
    refine ⟨later, events.trans grown, ?_⟩
    rw [outcome, Event.bodySent_eq fun frame member => ?_]
    · exact pours
    · obtain ⟨_, _, _, _, piece, _⟩ := cuts frame member
      exact piece.kind

/-- A body of no octets is one frame at the most, and it spends nothing. -/
theorem affords_of_empty
    {client : Bool}
    {connection : Connection}
    (reached : Reached client connection)
    (held : connection.held.isSome = true)
    (id : Nat)
    (ends : Bool) :
    Affords client connection id [] ends (sendData id [] ends connection).1
      (sendData id [] ends connection).2 := by
  obtain ⟨outcome, kept, cores⟩ := ended_sendData id [] ends connection
  have events : (sendData id [] ends connection).2.events =
      (sendFrom id ends [] connection).2.events :=
    congrArg Core.events cores
  have emptied := emptied_sendFrom held id ends
  have still {rest : List UInt8} {middle : Connection}
      (underway : Underway id ends ([], connection) (rest, middle)) :
      middle = connection := by
    rcases Relation.ReflTransGen.cases_head underway with same | ⟨_, turn, _⟩
    · exact (congrArg Prod.snd same).symm
    · obtain ⟨given, after, runs, gives, _⟩ := emptied_sendStep held id ends
      cases runs.symm.trans turn
      rcases gives with ⟨failure, fails⟩ | none
      · cases fails
      · cases none
  refine ⟨?_, ?_, ?_, fun some => absurd rfl some, fun some => absurd rfl some,
    ?_⟩
  · rw [events]
    exact emptied.measured reached
  · intro rest middle underway unbreached
    rw [still underway] at unbreached ⊢
    exact within_of_purse (reached.purse unbreached)
  · intro unbreached
    rw [events] at unbreached
    have purse := (emptied.purse reached unbreached).keep kept
    rw [← cores] at purse
    exact within_of_purse purse
  · rw [events, outcome]
    exact emptied.pours

/-- Inside `together`, where a body is sent, one is sent within what the peer
gives. -/
theorem Reached.affords
    {client : Bool}
    {connection : Connection}
    (reached : Reached client connection)
    (held : connection.held.isSome = true)
    (id : Nat)
    (body : List UInt8)
    (ends : Bool) :
    Affords client connection id body ends
      (sendData id body ends connection).1
      (sendData id body ends connection).2 := by
  by_cases empty : body = []
  · rw [empty]
    exact affords_of_empty reached held id ends
  · exact affords_of_sending ⟨reached, held, empty⟩ id ends

end Connection

namespace Server

open Connection

/-- A client that gives two octets, takes one back, and gives four. -/
def shrinkingWire : Wire where
  incoming := [.octets (preface ++
    (⟨.settings, 0, 0, [0, 4, 0, 0, 0, 2]⟩ : Frame).encode ++
    (⟨.headers, endStream ||| endHeaders, 1, [0x82, 0x86, 0x84]⟩ :
      Frame).encode ++
    (⟨.settings, 0, 0, [0, 4, 0, 0, 0, 1]⟩ : Frame).encode ++
    (Frame.windowUpdate 1 4).encode)]
  accepts := []
  written := []

/-- A window taken below zero in the middle of a body holds the rest of it
back. -/
theorem affords_of_shrinking :
    ∃ server, handshake shrinkingWire = .ok server ∧
      let now := { (run .bare server [.readFrame, .readFrame]).2.connection with
        held := some [] }
      let sent := sendData 1 [1, 2, 3, 4, 5] true now
      sent.1.isOk = true ∧ sent.2.stalls = 2 ∧
        Event.Unbreached sent.2.events ∧
          Affords false now 1 [1, 2, 3, 4, 5] true sent.1 sent.2 := by
  obtain ⟨server, opens, checked⟩ := exists_of_handshake
    (show (handshake shrinkingWire).toOption.map (fun server =>
      let now := { (run .bare server [.readFrame, .readFrame]).2.connection with
        held := some [] }
      let sent := sendData 1 [1, 2, 3, 4, 5] true now
      decide (sent.1.isOk = true ∧ sent.2.stalls = 2 ∧
        Event.Unbreached sent.2.events)) = some true by decide +kernel)
  obtain ⟨fine, stalls, unbreached⟩ := of_decide_eq_true checked
  have before := reached_run .bare opens [.readFrame, .readFrame]
  have building : Reached false
      { (run .bare server [.readFrame, .readFrame]).2.connection with
        held := some [] } :=
    before.strides (.single (.beat (.aside rfl)))
  exact ⟨server, opens, fine, stalls, unbreached,
    building.affords rfl 1 [1, 2, 3, 4, 5] true⟩

end Server
end Http2
end XmipNet

import XmipNet.Http2.Incoming
import XmipNet.Http2.Outgoing

/-!
# A message from one side to the other

What one side sends on a stream is what the other reads off it: the head, the
body and the trailers, whatever the frames were cut into and however often the
sender stalled, and the stream ended where the sender ended it.
-/

namespace XmipNet
namespace Http2

open Hpack (Field)
open Wire (Delivers)

namespace Message

/-- A list of fields that a peer which announced `limit` takes as a head or as
trailers: every name there and without a capital, the pseudo-fields first, and
not the head of a 1xx. -/
structure Carriable (limit : Nat) (fields : List Field) : Prop where
  named : ∀ field ∈ fields, field.1 ≠ ""
  lowercase : ∀ field ∈ fields, ∀ octet ∈ Text.octets field.1,
    ¬(65 ≤ octet ∧ octet ≤ 90)
  ordered : fields.Pairwise fun earlier later =>
    pseudo later = true → pseudo earlier = true
  final : Stream.informational fields = false
  sized : listSize fields ≤ limit

theorem checkNames_eq_ok
    {regular : Bool}
    {fields : List Field}
    (names : ∀ field ∈ fields, badName field.1 = false)
    (regulars : regular = true → ∀ field ∈ fields, pseudo field = false)
    (ordered : fields.Pairwise fun earlier later =>
      pseudo later = true → pseudo earlier = true) :
    checkNames regular fields = .ok () := by
  induction fields generalizing regular with
  | nil => rfl
  | cons field rest inductionHypothesis =>
      obtain ⟨name, names⟩ := List.forall_mem_cons.mp names
      obtain ⟨before, ordered⟩ := List.pairwise_cons.mp ordered
      have inOrder : ¬(pseudo field = true ∧ regular = true) := by
        rintro ⟨isPseudo, came⟩
        rw [regulars came field List.mem_cons_self] at isPseudo
        cases isPseudo
      rw [checkNames, if_neg (by rw [name]; exact Bool.false_ne_true),
        if_neg inOrder]
      refine inductionHypothesis names (fun came later member => ?_) ordered
      rcases (Bool.or_eq_true _ _).mp came with came | came
      · exact regulars came later (List.mem_cons_of_mem _ member)
      · rw [Bool.not_eq_true'] at came
        refine Bool.eq_false_iff.mpr fun isPseudo => ?_
        rw [before later member isPseudo] at came
        cases came

theorem Carriable.check
    {limit : Nat}
    {fields : List Field}
    (carriable : Carriable limit fields) :
    check fields limit = .ok () := by
  rw [Message.check]
  simp only [if_neg (not_lt.mpr carriable.sized)]
  refine checkNames_eq_ok (fun field member => ?_)
    (fun came => by cases came) carriable.ordered
  rw [badName, decide_eq_false_iff_not, not_or]
  refine ⟨carriable.named field member, ?_⟩
  rw [Bool.not_eq_true, List.any_eq_false]
  intro octet among
  rw [decide_eq_true_iff]
  exact carriable.lowercase field member octet among

end Message

namespace Stream

/-- The first final block on a stream is its head. -/
theorem headers_first
    {stream : Stream}
    (receiving : stream.state.receiving = true)
    (none : stream.head = none)
    {fields : List Field}
    (final : informational fields = false)
    (ends : Bool) :
    stream.headers fields ends = .ok { stream with
      state := if ends then stream.state.endedRemotely else stream.state
      head := some fields } := by
  simp [headers, receiving, none, final]

/-- The next one is its trailers, where it ends the stream. -/
theorem headers_second
    {stream : Stream}
    (receiving : stream.state.receiving = true)
    (some : stream.head.isSome = true)
    {fields : List Field}
    (final : informational fields = false) :
    stream.headers fields true = .ok { stream with
      state := stream.state.endedRemotely
      trailers := fields } := by
  have head : stream.head ≠ none := Option.isSome_iff_ne_none.mp some
  simp [headers, receiving, head, final]

end Stream

namespace Connection

open Fallible Core
open Hpack (Channel)

/-! ## Frames conveyed -/

/-- Frames that come next are heard, all this side answers is the octets given
back, and where they have been heard `holds` does. -/
def Conveys (frames : List Frame) (connection : Connection)
    (holds : Connection → Prop) : Prop :=
  ∀ rest, Delivers connection.wire.incoming
      (frames.flatMap Frame.encode ++ rest) →
    ∃ heard, Hearing frames connection heard ∧ Attuned connection heard ∧
      Delivers heard.wire.incoming rest ∧ holds heard

theorem Conveys.append
    {frames more : List Frame}
    {connection : Connection}
    {between holds : Connection → Prop}
    (conveys : Conveys frames connection between)
    (goes : ∀ heard, Attuned connection heard → between heard →
      Conveys more heard holds) :
    Conveys (frames ++ more) connection holds := by
  intro rest delivers
  rw [List.flatMap_append, List.append_assoc] at delivers
  obtain ⟨middle, hearing, attuned, left, met⟩ := conveys _ delivers
  obtain ⟨heard, further, still, final, holding⟩ :=
    goes middle attuned met rest left
  exact ⟨heard, hearing.append further, attuned.trans still, final, holding⟩

theorem Conveys.mono
    {frames : List Frame}
    {connection : Connection}
    {between holds : Connection → Prop}
    (conveys : Conveys frames connection between)
    (weaker : ∀ heard, between heard → holds heard) :
    Conveys frames connection holds := by
  intro rest delivers
  obtain ⟨heard, hearing, attuned, left, met⟩ := conveys rest delivers
  exact ⟨heard, hearing, attuned, left, weaker heard met⟩

/-- What the sender may send at a moment the peer has room for: frames of the
size it takes, and `room` on the stream `id`. -/
structure Covers (receiver : Connection) (room : Int) (id : Nat)
    (sender : Connection) : Prop where
  frames : sender.remoteSettings.maxFrameSize ≤
    receiver.localSettings.maxFrameSize
  window : sender.send.value ≤ receiver.receive.value
  windowOn : ∀ stream, sender.streams[id]? = some stream →
    stream.send.value ≤ room

instance (receiver : Connection) (room : Int) (id : Nat)
    (sender : Connection) :
    Decidable (Covers receiver room id sender) :=
  decidable_of_iff
    (sender.remoteSettings.maxFrameSize ≤
        receiver.localSettings.maxFrameSize ∧
      sender.send.value ≤ receiver.receive.value ∧
        ∀ stream ∈ sender.streams[id]?, stream.send.value ≤ room)
    ⟨fun covers => ⟨covers.1, covers.2.1, covers.2.2⟩,
      fun covers => ⟨covers.frames, covers.window, covers.windowOn⟩⟩

theorem Covers.attuned
    {receiver heard sender : Connection}
    {room : Int}
    {id : Nat}
    (covers : Covers receiver room id sender)
    (attuned : Attuned receiver heard) :
    Covers heard room id sender :=
  ⟨attuned.settings ▸ covers.frames, attuned.receive ▸ covers.window,
    covers.windowOn⟩

/-- A `DATA` that the sender had room for fits at the peer. -/
theorem Roomy.fits
    {sender receiver : Connection}
    {id : Nat}
    {stream : Stream}
    {frame : Frame}
    (roomy : Roomy sender id frame)
    (covers : Covers receiver stream.receive.value id sender) :
    Fits receiver id stream frame := by
  obtain ⟨record, found, within⟩ := roomy.roomOn
  exact ⟨roomy.kind, roomy.onStream, roomy.content,
    roomy.sized.trans covers.frames, roomy.room.trans covers.window,
    within.trans (covers.windowOn record found)⟩

/-- The pieces of a header block are read as the fields it was written from, and
the record takes them. -/
theorem conveys_block
    {sender receiver : Connection}
    {fields : List Field}
    {most : Nat}
    {piece : List UInt8}
    {cut : List (List UInt8)}
    (sliced : Sliced most (sender.encoder.encode fields).1 piece cut)
    (sized : most ≤ receiver.localSettings.maxFrameSize)
    (short : (sender.encoder.encode fields).1.length ≤ maxBlock)
    (consumed : Channel.Consumed ⟨sender.encoder, receiver.decoder⟩)
    (hears : Hears receiver)
    (idle : receiver.continuing = none)
    {id : Nat}
    {stream changed : Stream}
    (expects : Expects receiver.core id stream)
    (checks : Message.check fields receiver.headerListLimit = .ok ())
    {ends : Bool}
    (takes : stream.headers fields ends = .ok changed)
    (capped : receiver.receive.value ≤ maxStreamId)
    (cappedOn : stream.receive.value ≤ maxStreamId) :
    Conveys (blockFrames id ends .headers (piece :: cut)) receiver fun heard =>
      Stands heard id changed ∧
        Channel.Consumed
          ⟨(sender.encoder.encode fields).2, heard.decoder⟩ ∧
        heard.decoder.limit = receiver.decoder.limit := by
  intro rest delivers
  obtain ⟨mirror, limited⟩ := consumed.mirror
  have carries := Channel.carry_of_length mirror limited
    (short.trans (by decide))
  obtain ⟨_, limit⟩ := Channel.allRead_of_carry mirror carries
  have decodes : receiver.decoder.decode ([] ++ (piece :: cut).flatten) =
      (.ok fields, (Channel.carry ⟨sender.encoder, receiver.decoder⟩
        fields).2.decoder) := by
    rw [List.nil_append, sliced.whole]
    exact Prod.ext carries rfl
  obtain ⟨heard, hearing, stands, attuned, moved, left⟩ :=
    (Halfway.first idle).hearing hears expects
      (fun other member => (sliced.sized other member).trans sized)
      (by rw [List.nil_append, sliced.whole]; exact short) decodes checks takes
      capped cappedOn delivers
  refine ⟨heard, hearing, attuned, left, stands, ?_, ?_⟩
  · rw [moved]
    exact consumed.carried carries
  · rw [moved]
    exact limit

/-- The frames of a body are read as the body. -/
theorem conveys_body
    {sender connection : Connection}
    {id : Nat}
    {stream : Stream}
    (stands : Stands connection id stream)
    (receiving : stream.state.receiving = true)
    {body : List UInt8}
    {ends : Bool}
    {earlier : List Frame}
    {last : Frame}
    (bodied : Bodied sender id body ends earlier last)
    (covers : ∀ left middle, Underway id ends (body, sender) (left, middle) →
      Covers connection stream.receive.value id middle)
    (within : stream.body.length + body.length ≤ maxBody) :
    Conveys (earlier ++ [last]) connection fun heard =>
      heard.decoder = connection.decoder ∧
        ∃ changed, Stands heard id changed ∧
          changed = { stream with
            body := stream.body ++ body
            state := if ends then stream.state.endedRemotely else stream.state
            receive := changed.receive } := by
  intro rest delivers
  have fits : ∀ frame ∈ earlier ++ [last], Fits connection id stream frame := by
    intro frame member
    obtain ⟨left, middle, underway, roomy⟩ := bodied.roomy frame member
    exact roomy.fits (covers left middle underway)
  obtain ⟨heard, changed, hearing, still, attuned, kept, made, left⟩ :=
    stands.body receiving fits bodied.plain
      (by rw [bodied.whole]; exact within) delivers
  rw [bodied.whole, bodied.ended] at made
  exact ⟨heard, hearing, attuned, left, kept, changed, still, made⟩

/-! ## A message -/

/-- A connection that a message on `id` may come to: the peer's settings have
been seen, nothing it writes fails, no block is under way, and the record of
`id`, or the one it gets, has had nothing yet. -/
structure Listens (receiver : Connection) (id : Nat) (stream : Stream) :
    Prop where
  seen : receiver.settingsSeen = true
  unfailing : Unfailing receiver
  small : receiver.localSettings.maxFrameSize < 2 ^ 24
  idle : receiver.continuing = none
  expects : Expects receiver.core id stream
  head : stream.head = none
  body : stream.body = []
  trailers : stream.trailers = []
  receiving : stream.state.receiving = true
  capped : receiver.receive.value ≤ maxStreamId
  cappedOn : stream.receive.value ≤ maxStreamId

theorem Listens.hears
    {receiver : Connection}
    {id : Nat}
    {stream : Stream}
    (listens : Listens receiver id stream) :
    Hears receiver := by
  refine ⟨listens.seen, listens.unfailing, listens.small, ?_⟩
  intro waiting begun
  cases listens.idle.symm.trans begun

/-- The peer has heard all that was sent so far on `id`, and its decoder has
consumed the sender's blocks. -/
structure Abreast (sender heard : Connection) (id : Nat) (stream : Stream) :
    Prop where
  stands : Stands heard id stream
  consumed : Channel.Consumed ⟨sender.encoder, heard.decoder⟩
  tables : encoderTable ≤ heard.decoder.limit

end Connection

namespace Outgoing

open Connection
open Hpack (Channel)

/-- A moment of the sender at which frames of a message are cut. -/
inductive Amid (message : Outgoing) (id : Nat) (sender : Connection) :
    Connection → Prop
  | head : Amid message id sender sender
  | body {body left : List UInt8} {headed middle : Connection}
      (carries : message.body = some body)
      (heads : message.sendHead id sender = (.ok (), headed))
      (underway : Underway id message.endsBody (body, headed)
        (left, middle)) :
      Amid message id sender middle
  | trailers {fields : List Field} {headed bodied : Connection}
      (carries : message.trailers = some fields)
      (heads : message.sendHead id sender = (.ok (), headed))
      (bodies : message.sendBody id headed = (.ok (), bodied)) :
      Amid message id sender bodied

/-- A message that a peer which announced `limit` takes: its lists, the blocks
they are encoded to and its body are within what is read. -/
structure Carriable (message : Outgoing) (id : Nat) (sender : Connection)
    (limit : Nat) : Prop where
  head : Message.Carriable limit message.head
  headBlock : (sender.encoder.encode message.head).1.length ≤ maxBlock
  body : ∀ body, message.body = some body → body.length ≤ maxBody
  trailers : ∀ fields, message.trailers = some fields →
    Message.Carriable limit fields
  trailersBlock : ∀ fields headed bodied, message.trailers = some fields →
    message.sendHead id sender = (.ok (), headed) →
    message.sendBody id headed = (.ok (), bodied) →
      (bodied.encoder.encode fields).1.length ≤ maxBlock

/-- A record holds what was sent, and the stream is ended by the peer exactly
where the sender ended it. -/
structure Arrived (message : Outgoing) (stream : Stream) : Prop where
  head : stream.head = some message.head
  body : stream.body = message.body.getD []
  trailers : stream.trailers = message.trailers.getD []
  live : stream.reset = none
  ended : stream.state.receiving = false ↔ message.asked = true

/-- A record after a head and a body. -/
def filled (message : Outgoing) (stream : Stream) (receive : Window) : Stream :=
  { stream with
    head := some message.head
    body := message.body.getD []
    state :=
      if message.endsBody then stream.state.endedRemotely else stream.state
    receive }

theorem receiving_filled
    (message : Outgoing)
    {stream : Stream}
    (receiving : stream.state.receiving = true)
    (receive : Window) :
    (message.filled stream receive).state.receiving = !message.endsBody := by
  simp only [filled]
  cases message.endsBody with
  | true => exact State.receiving_endedRemotely _
  | false => exact receiving

theorem conveys_head
    {client : Bool}
    {sender headed receiver : Connection}
    (reached : Reached client sender)
    (held : sender.held.isSome = true)
    {message : Outgoing}
    {id : Nat}
    (heads : message.sendHead id sender = (.ok (), headed))
    {stream : Stream}
    (listens : Listens receiver id stream)
    (consumed : Channel.Consumed ⟨sender.encoder, receiver.decoder⟩)
    (tables : encoderTable ≤ receiver.decoder.limit)
    (covers : Covers receiver stream.receive.value id sender)
    (carriable : message.Carriable id sender receiver.headerListLimit) :
    ∃ later, headed.events = sender.events ++ later ∧
      headed.remoteSettings.Admitted ∧
      Conveys (Event.messageSent later) receiver fun heard =>
        Abreast headed heard id { stream with
          state :=
            if message.endsHead then
              stream.state.endedRemotely
            else
              stream.state
          head := some message.head } := by
  have admitted := reached.admitted
  obtain ⟨piece, cut, later, grown, frames, sliced, encoder, settings⟩ :=
    sliced_of_sendHeaders admitted held heads
  refine ⟨later, grown, settings ▸ admitted, ?_⟩
  rw [frames]
  have takes := Stream.headers_first listens.receiving listens.head
    carriable.head.final message.endsHead
  intro rest delivers
  obtain ⟨heard, hearing, attuned, left, stands, still, limit⟩ :=
    conveys_block sliced covers.frames carriable.headBlock consumed
      listens.hears listens.idle listens.expects carriable.head.check takes
      listens.capped listens.cappedOn rest delivers
  exact ⟨heard, hearing, attuned, left, stands, encoder ▸ still,
    limit ▸ tables⟩

theorem conveys_filled
    {client : Bool}
    {sender headed bodied receiver : Connection}
    (reached : Reached client sender)
    (held : sender.held.isSome = true)
    {message : Outgoing}
    {id : Nat}
    (heads : message.sendHead id sender = (.ok (), headed))
    (bodies : message.sendBody id headed = (.ok (), bodied))
    {stream : Stream}
    (listens : Listens receiver id stream)
    (consumed : Channel.Consumed ⟨sender.encoder, receiver.decoder⟩)
    (tables : encoderTable ≤ receiver.decoder.limit)
    (covers : ∀ middle, message.Amid id sender middle →
      Covers receiver stream.receive.value id middle)
    (carriable : message.Carriable id sender receiver.headerListLimit) :
    ∃ later, bodied.events = sender.events ++ later ∧
      bodied.remoteSettings.Admitted ∧ bodied.held.isSome = true ∧
      Conveys (Event.messageSent later) receiver fun heard =>
        ∃ receive, Abreast bodied heard id (message.filled stream receive) := by
  have heldHead : headed.held.isSome = true :=
    (held_of_steady ((keeps_steady_sendHeaders _ _ _).of_eq heads)).trans held
  obtain ⟨later, grown, admitted, conveys⟩ := conveys_head reached held heads
    listens consumed tables (covers sender .head) carriable
  cases carries : message.body with
  | none =>
      rw [sendBody, carries] at bodies
      cases bodies
      refine ⟨later, grown, admitted, heldHead, conveys.mono ?_⟩
      intro heard abreast
      refine ⟨stream.receive, ?_⟩
      have same : message.endsHead = message.endsBody := by
        rw [endsHead, carries]
        rfl
      rw [same] at abreast
      rw [filled, carries, Option.getD_none, ← listens.body]
      exact abreast
  | some body =>
      have unended : message.endsHead = false := by
        rw [endsHead, carries]
        rfl
      have sends : sendData id body message.endsBody headed =
          (.ok (), bodied) := by
        rw [sendBody, carries] at bodies
        exact bodies
      have beats := (plays_sendHeaders
        (fun asked => by rw [unended] at asked; cases asked)
        message.head).of_eq heads
      obtain ⟨earlier, last, more, pieces, further, frames, still⟩ :=
        bodied_of_sendData (reached.strides beats.strides) heldHead sends
      refine ⟨later ++ more, ?_, still, ?_, ?_⟩
      · rw [further, grown, List.append_assoc]
      · exact (held_of_steady
          ((keeps_steady_sendData _ _ _).of_eq sends)).trans heldHead
      rw [Event.messageSent_append, frames]
      refine conveys.append fun heard attuned abreast => ?_
      rw [unended, if_neg Bool.false_ne_true] at abreast
      obtain ⟨stands, tuned, room⟩ := abreast
      have within := carriable.body body carries
      refine (conveys_body stands listens.receiving pieces ?_ ?_).mono ?_
      · exact fun left middle underway =>
          (covers middle (.body carries heads underway)).attuned attuned
      · rw [listens.body, List.length_nil, Nat.zero_add]
        exact within
      · rintro final ⟨kept, changed, standing, made⟩
        refine ⟨changed.receive, ?_, ?_, kept ▸ room⟩
        · rw [filled, carries, Option.getD_some]
          rw [listens.body, List.nil_append] at made
          exact made ▸ standing
        · have resized := consumed_of_resizes
            (resizes_sendData id body message.endsBody) room tuned
          rw [sends] at resized
          exact kept ▸ resized

/-- What one side sends on a stream the other reads off it. Wherever the frames
of a message come next, they breach nothing, and the record holds the head, the
body and the trailers that were sent, ended exactly where the sender ended it. -/
theorem conveys_send
    {client : Bool}
    {sender after receiver : Connection}
    (reached : Reached client sender)
    (held : sender.held.isSome = true)
    {message : Outgoing}
    {id : Nat}
    (sends : message.send id sender = (.ok (), after))
    {stream : Stream}
    (listens : Listens receiver id stream)
    (consumed : Channel.Consumed ⟨sender.encoder, receiver.decoder⟩)
    (tables : encoderTable ≤ receiver.decoder.limit)
    (covers : ∀ middle, message.Amid id sender middle →
      Covers receiver stream.receive.value id middle)
    (carriable : message.Carriable id sender receiver.headerListLimit) :
    ∃ later, after.events = sender.events ++ later ∧
      Conveys (Event.messageSent later) receiver fun heard =>
        ∃ changed, heard.streams[id]? = some changed ∧
          message.Arrived changed := by
  obtain ⟨headed, bodied, heads, bodies, trails⟩ := stages_of_send sends
  obtain ⟨later, grown, admitted, heldBody, conveys⟩ := conveys_filled reached
    held heads bodies listens consumed tables covers carriable
  cases carries : message.trailers with
  | none =>
      rw [sendTrailers, carries] at trails
      cases trails
      refine ⟨later, grown, conveys.mono ?_⟩
      rintro heard ⟨receive, abreast⟩
      refine ⟨_, abreast.stands.found, rfl, rfl, ?_, abreast.stands.live, ?_⟩
      · rw [carries]
        exact listens.trailers
      · rw [receiving_filled message listens.receiving, asked, endsBody, carries]
        cases message.ends <;> decide
  | some fields =>
      have sends : sendHeaders id fields true bodied = (.ok (), after) := by
        rw [sendTrailers, carries] at trails
        exact trails
      have unended : message.endsBody = false := by
        rw [endsBody, carries]
        rfl
      obtain ⟨piece, cut, more, further, frames, sliced, encoder, _⟩ :=
        sliced_of_sendHeaders admitted heldBody sends
      refine ⟨later ++ more, ?_, ?_⟩
      · rw [further, grown, List.append_assoc]
      rw [Event.messageSent_append, frames]
      refine conveys.append ?_
      rintro heard attuned ⟨receive, stands, tuned, _⟩
      have list := carriable.trailers fields carries
      have room := covers bodied (.trailers carries heads bodies)
      have receiving := receiving_filled message listens.receiving receive
      rw [unended] at receiving
      have expects : Expects heard.core id (message.filled stream receive) :=
        .standing stands.placed stands.bounded stands.known stands.found
          stands.live
      have checks : Message.check fields heard.headerListLimit = .ok () := by
        rw [Connection.headerListLimit, attuned.settings]
        exact list.check
      have takes := Stream.headers_second receiving rfl list.final
      refine (conveys_block sliced (room.attuned attuned).frames
        (carriable.trailersBlock fields headed bodied carries heads bodies)
        tuned stands.hears stands.idle expects checks takes stands.capped
        stands.cappedOn).mono ?_
      rintro final ⟨standing, _⟩
      refine ⟨_, standing.found, rfl, rfl, ?_, standing.live, ?_⟩
      · rw [carries]
        rfl
      · rw [asked, carries]
        exact iff_of_true (State.receiving_endedRemotely _) rfl

/-- A head, a body and trailers. -/
def posted : Outgoing where
  head := [(":method", "POST"), (":path", "/")]
  body := some [1, 2, 3]
  trailers := some [("a", "b")]
  ends := true

/-- A client that has opened a stream and builds what it sends on it. -/
def asking : Connection :=
  { (initial ⟨[], [], []⟩ true).openStream 1 with held := some [] }

/-- The client's preface, its settings and what it sent. -/
def postedWire : Wire where
  incoming := [.octets (preface ++ (⟨.settings, 0, 0, []⟩ : Frame).encode ++
    (Event.messageSent (posted.send 1 asking).2.events).flatMap Frame.encode)]
  accepts := []
  written := []

theorem amid_posted
    {middle : Connection}
    (amid : posted.Amid 1 asking middle) :
    middle = asking ∨ middle = (posted.sendHead 1 asking).2 ∨
      middle = (posted.sendBody 1 (posted.sendHead 1 asking).2).2 := by
  cases amid with
  | head => exact Or.inl rfl
  | @body body left headed _ carries heads underway =>
      cases carries
      have same : headed = (posted.sendHead 1 asking).2 := by rw [heads]
      subst same
      rcases Relation.ReflTransGen.cases_head underway with same | ⟨_, turn, _⟩
      · exact Or.inr (Or.inl (congrArg Prod.snd same).symm)
      · have whole : (sendStep 1 posted.endsBody [1, 2, 3]
            (posted.sendHead 1 asking).2).1 = .ok none := by decide +kernel
        rw [turn] at whole
        cases whole
  | trailers carries heads bodies =>
      rw [heads, bodies]
      exact Or.inr (Or.inr rfl)

theorem carriable_posted
    {limit : Nat}
    (within : 1000 ≤ limit) :
    posted.Carriable 1 asking limit where
  head :=
    { named := by decide
      lowercase := by decide +kernel
      ordered := by decide
      final := by decide
      sized := le_trans (by decide +kernel) within }
  headBlock := by decide +kernel
  body := fun body carries => by
    cases carries
    decide
  trailers := fun fields carries => by
    cases carries
    exact
      { named := by decide
        lowercase := by decide +kernel
        ordered := by decide
        final := by decide
        sized := le_trans (by decide +kernel) within }
  trailersBlock := fun fields headed bodied carries heads bodies => by
    cases carries
    rw [show headed = (posted.sendHead 1 asking).2 by rw [heads]] at bodies
    rw [show bodied =
      (posted.sendBody 1 (posted.sendHead 1 asking).2).2 by rw [bodies]]
    decide +kernel

/-- A server reads a request with a body and trailers as it was sent. -/
theorem conveys_send_posted :
    ∃ server, Server.handshake postedWire = .ok server ∧
      ∃ later heard changed,
        (posted.send 1 asking).2.events = asking.events ++ later ∧
        Hearing (Event.messageSent later)
          (Server.run .bare server [.readFrame]).2.connection heard ∧
        heard.streams[1]? = some changed ∧ posted.Arrived changed := by
  obtain ⟨server, opens, checked⟩ := Server.exists_of_handshake
    (show (Server.handshake postedWire).toOption.map (fun server =>
      let receiver := (Server.run .bare server [.readFrame]).2.connection
      decide ((receiver.settingsSeen = true ∧ receiver.wire.accepts = [] ∧
          receiver.localSettings.maxFrameSize < 2 ^ 24 ∧
          receiver.continuing = none ∧ receiver.receive.value ≤ maxStreamId) ∧
        (receiver.client = false ∧ receiver.lastPeer = 0 ∧
          receiver.streams[1]? = none ∧ receiver.goingAway = false ∧
          receiver.core.openCount < receiver.core.mostStreams) ∧
        receiver.localSettings.initialWindowSize = 65535 ∧
        receiver.decoder = .new 4096 ∧ 1000 ≤ receiver.headerListLimit ∧
        (Covers receiver 65535 1 asking ∧
          Covers receiver 65535 1 (posted.sendHead 1 asking).2 ∧
          Covers receiver 65535 1
            (posted.sendBody 1 (posted.sendHead 1 asking).2).2) ∧
        Delivers receiver.wire.incoming ((Event.messageSent
          (posted.send 1 asking).2.events).flatMap Frame.encode))) =
      some true by decide +kernel)
  obtain ⟨⟨seen, accepts, small, idle, capped⟩,
    ⟨asServer, none, absent, staying, few⟩, receive, decoder, limit,
    ⟨first, second, third⟩, delivers⟩ := of_decide_eq_true checked
  refine ⟨server, opens, ?_⟩
  generalize (Server.run .bare server [.readFrame]).2.connection = receiver
    at seen accepts small idle capped asServer none absent staying few
      receive decoder limit first second third delivers ⊢
  have opensStream : Core.Opens receiver.core 1 :=
    { server := asServer
      odd := rfl
      above := none.trans_lt Nat.one_pos
      absent
      seen
      bounded := by decide }
  have room : (Stream.new receiver.core.remoteSettings.initialWindowSize
      receiver.core.localSettings.initialWindowSize).receive.value = 65535 :=
    congrArg Nat.cast receive
  have listens : Listens receiver 1
      (.new receiver.core.remoteSettings.initialWindowSize
        receiver.core.localSettings.initialWindowSize) :=
    { seen
      unfailing := Or.inr fun acceptance member => by
        rw [accepts] at member
        cases member
      small
      idle
      expects := .fresh opensStream staying few
      head := rfl
      body := rfl
      trailers := rfl
      receiving := rfl
      capped
      cappedOn := by
        rw [room]
        decide }
  have consumed : Channel.Consumed ⟨asking.encoder, receiver.decoder⟩ := by
    rw [decoder]
    exact .new (show encoderTable ≤ 4096 by decide) (by decide) true
  have covers : ∀ middle, posted.Amid 1 asking middle → Covers receiver
      (Stream.new receiver.core.remoteSettings.initialWindowSize
        receiver.core.localSettings.initialWindowSize).receive.value 1
          middle := by
    intro middle amid
    rw [room]
    rcases amid_posted amid with rfl | rfl | rfl
    · exact first
    · exact second
    · exact third
  have reached : Reached true asking :=
    ⟨⟨[], [], []⟩, .tail (.single (.opened rfl (by decide)))
      (.beat (.aside rfl))⟩
  have sends : posted.send 1 asking = (.ok (), (posted.send 1 asking).2) :=
    Prod.ext (by decide +kernel) rfl
  obtain ⟨later, grown, conveys⟩ := conveys_send reached rfl sends listens
    consumed (by rw [decoder]; decide) covers (carriable_posted limit)
  have all : later = (posted.send 1 asking).2.events := by
    rw [grown]
    rfl
  obtain ⟨heard, hearing, _, _, changed, found, arrived⟩ := conveys [] (by
    rw [all, List.append_nil]
    exact delivers)
  exact ⟨later, heard, changed, grown, hearing, found, arrived⟩

end Outgoing
end Http2
end XmipNet

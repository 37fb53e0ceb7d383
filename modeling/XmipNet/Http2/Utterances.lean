import XmipNet.Http2.Requests
import XmipNet.Http2.Speech

/-!
# What every action says

An action emits the frames of a message, all of them on one stream, or none: the
items they say are added to what the side has said. A message goes out as its
head, its body in pieces and its trailers; one that fails on the way has said a
beginning that does not end the stream.
-/

namespace XmipNet
namespace Http2

open Hpack (Field)

namespace Connection

open Fallible Core
open Event (messageSent)

/-! ## Actions that say nothing -/

/-- From `connection` to `after` no frame of a message was emitted. -/
structure Silent (connection after : Connection) : Prop where
  quiet : ∃ later, after.events = connection.events ++ later ∧
    messageSent later = []
  resizes : Relation.ReflTransGen Resizes connection after

/-- From `connection` to `after` the items `added` were said on `id`, and
nothing on another stream. -/
structure Utters (id : Nat) (connection after : Connection)
    (added : List Item) : Prop where
  grown : ∃ later, after.events = connection.events ++ later ∧
    ∀ frame ∈ messageSent later, frame.stream = id
  spoken : ∀ said,
    Spoken (messageSent connection.events) said connection.encoder →
      Spoken (messageSent after.events) (said ++ added.map (Prod.mk id))
        after.encoder

section Silent

variable {connection middle after : Connection} {id : Nat}
  {added more : List Item}

theorem silent_refl (connection : Connection) :
    Silent connection connection :=
  ⟨⟨[], (List.append_nil _).symm, rfl⟩, .refl⟩

theorem Silent.trans
    (first : Silent connection middle)
    (second : Silent middle after) :
    Silent connection after := by
  obtain ⟨⟨earlier, before, none⟩, resizes⟩ := first
  obtain ⟨⟨later, grown, nothing⟩, onward⟩ := second
  refine ⟨⟨earlier ++ later, ?_, ?_⟩, resizes.trans onward⟩
  · rw [grown, before, List.append_assoc]
  · rw [Event.messageSent_append, none, nothing, List.append_nil]

theorem silent_of_kept
    (events : after.events = connection.events)
    (encoder : after.encoder = connection.encoder) :
    Silent connection after :=
  ⟨⟨[], by rw [events, List.append_nil], rfl⟩, .single (.kept encoder)⟩

theorem silent_of_emitted
    (frame : Frame)
    (control : frame.Control)
    (events : after.events = connection.events ++ [.emitted frame])
    (encoder : after.encoder = connection.encoder) :
    Silent connection after := by
  refine ⟨⟨_, events, Event.messageSent_eq_nil ?_⟩, .single (.kept encoder)⟩
  intro other member
  cases List.mem_singleton.mp member
  exact control

theorem spoken_of_resizes
    {frames : List Frame}
    {said : List (Nat × Item)}
    (resizes : Relation.ReflTransGen Resizes connection after)
    (spoken : Spoken frames said connection.encoder) :
    Spoken frames said after.encoder := by
  induction resizes with
  | refl => exact spoken
  | tail _ resizes inductionHypothesis =>
      cases resizes with
      | kept same => exact same ▸ inductionHypothesis
      | resized within resizes =>
          rw [resizes]
          exact inductionHypothesis.resized within

theorem Silent.utters
    (silent : Silent connection after)
    (id : Nat) :
    Utters id connection after [] := by
  obtain ⟨⟨later, grown, nothing⟩, resizes⟩ := silent
  refine ⟨⟨later, grown, fun frame member => ?_⟩, fun said spoken => ?_⟩
  · rw [nothing] at member
    cases member
  · rw [grown, Event.messageSent_append, nothing, List.append_nil,
      List.map_nil, List.append_nil]
    exact spoken_of_resizes resizes spoken

theorem Utters.trans
    (first : Utters id connection middle added)
    (second : Utters id middle after more) :
    Utters id connection after (added ++ more) := by
  obtain ⟨⟨earlier, before, onStream⟩, spoken⟩ := first
  obtain ⟨⟨later, grown, further⟩, speaks⟩ := second
  refine ⟨⟨earlier ++ later, ?_, fun frame member => ?_⟩, fun said begins => ?_⟩
  · rw [grown, before, List.append_assoc]
  · rw [Event.messageSent_append] at member
    rcases List.mem_append.mp member with member | member
    · exact onStream frame member
    · exact further frame member
  · rw [List.map_append, ← List.append_assoc]
    exact speaks _ (spoken said begins)

theorem Utters.after_silent
    (silent : Silent connection middle)
    (utters : Utters id middle after added) :
    Utters id connection after added :=
  (silent.utters id).trans utters

theorem Utters.silent
    (utters : Utters id connection middle added)
    (silent : Silent middle after) :
    Utters id connection after added := by
  have both := utters.trans (silent.utters id)
  rwa [List.append_nil] at both

/-- Reading a frame says nothing. -/
theorem silent_pump
    (waits : Waits connection.core) :
    Silent connection (pump connection).2 := by
  obtain ⟨later, grown, controls⟩ := quiet_pump waits
  exact ⟨⟨later, grown, Event.messageSent_eq_nil controls⟩,
    resizes_pump connection⟩

theorem silent_release (connection : Connection) :
    Silent connection (release connection).2 := by
  refine silent_of_kept ?_ ?_
  · exact congrArg (fun sight => sight.core.events)
      (keeps_sight_release connection)
  · have keeps : Keeps encoder release := by
      refine keeps_bind keeps_get fun connection => ?_
      split
      · exact keeps_pure _
      · exact keeps_pure _
      · exact keeps_bind (keeps_modify fun _ => rfl) fun _ =>
          keeps_bind (fun _ => rfl) fun _ => fun _ => rfl
    exact keeps connection

theorem silent_stall
    (waits : Waits connection.core)
    {outcome : Except NetError Unit}
    (stalls : stall connection = (outcome, after)) :
    Silent connection after := by
  have resizes := resizes_stall connection
  rw [stalls] at resizes
  exact ⟨quiet_stall waits stalls, resizes⟩

/-- Waiting for the peer says nothing. -/
theorem silent_pumpUntil
    (waits : Waits connection.core)
    (done : Connection → Bool) :
    Silent connection (pumpUntil done connection).2 := by
  rw [pumpUntil]
  fun_induction pumpFrom done connection with
  | case1 connection met => exact silent_refl connection
  | case2 connection unmet failure after reads =>
      have silent := silent_pump waits
      rwa [reads] at silent
  | case3 connection unmet after reads =>
      have silent := silent_pump waits
      rwa [reads] at silent
  | case4 connection unmet after reads inductionHypothesis =>
      have silent := silent_pump waits
      have steps := (plays_pump connection).moves waits
      rw [reads] at silent
      rw [Moves, reads] at steps
      exact silent.trans (inductionHypothesis (steps.waits waits))

theorem silent_emit
    (frame : Frame)
    (control : frame.Control)
    (connection : Connection) :
    Silent connection (emit frame connection).2 :=
  silent_of_emitted frame control (events_emit _ _) (keeps_encoder_emit _ _)

theorem silent_reset
    (id : Nat)
    (code : ErrorCode)
    (connection : Connection) :
    Silent connection (reset id code connection).2 := by
  refine silent_of_emitted (.reset id code) ?_
    (congrArg Core.events (core_reset id code connection)) ?_
  · exact ⟨Kind.noConfusion, Kind.noConfusion, Kind.noConfusion⟩
  · exact (keeps_bind (keeps_modify fun _ => rfl) fun _ =>
      keeps_encoder_emit _ : Keeps encoder (reset id code)) connection

theorem silent_goAway
    (code : ErrorCode)
    (debug : String)
    (connection : Connection) :
    Silent connection (goAway code debug connection).2 := by
  refine silent_of_emitted
    (.goaway connection.lastPeer code (Text.octets debug)) ?_
    (congrArg Core.events (core_goAway code debug connection)) ?_
  · exact ⟨Kind.noConfusion, Kind.noConfusion, Kind.noConfusion⟩
  · exact (keeps_bind (keeps_modify fun _ => rfl) fun _ =>
      keeps_bind keeps_get fun _ => keeps_encoder_emit _ :
        Keeps encoder (goAway code debug)) connection

theorem silent_ping
    (waits : Waits connection.core)
    (opaqueData : List UInt8) :
    Silent connection (ping opaqueData connection).2 := by
  have sent := silent_emit (.ping opaqueData false)
    ⟨Kind.noConfusion, Kind.noConfusion, Kind.noConfusion⟩ connection
  have plain : (Frame.ping opaqueData false).Plain :=
    ⟨Kind.noConfusion, Kind.noConfusion, Kind.noConfusion⟩
  have moved := moves_emit plain connection
  rw [ping, bind_apply]
  rw [Moves] at moved
  split
  next emitted runs =>
    rw [runs] at sent moved
    have waited := silent_pumpUntil (moved.waits waits)
      fun connection => decide (opaqueData ∈ connection.pongs)
    rw [bind_apply]
    split
    next back read runs =>
      rw [runs] at waited
      cases back <;> exact sent.trans waited
    next failure read runs =>
      rw [runs] at waited
      exact sent.trans waited
  next failure emitted runs =>
    rw [runs] at sent
    exact sent

/-- Starting a connection says nothing. -/
theorem silent_start
    {wire : Wire}
    {client : Bool}
    (starts : start wire client = .ok connection) :
    Silent (initial wire client) connection := by
  have preface : Silent (initial wire client)
      (writePreface (initial wire client)).2 := by
    rw [writePreface, get_bind_apply]
    split
    · exact silent_of_kept rfl rfl
    · exact silent_refl _
  have silent : Silent (initial wire client) (opening (initial wire client)).2 := by
    rw [opening, bind_apply]
    split
    next written runs =>
      rw [runs] at preface
      rw [get_bind_apply]
      exact preface.trans (silent_emit _
        ⟨Kind.noConfusion, Kind.noConfusion, Kind.noConfusion⟩ _)
    next failure written runs =>
      rw [runs] at preface
      exact preface
  rw [start] at starts
  split at starts
  next opened =>
    cases starts
    rw [opened] at silent
    exact silent
  · cases starts

/-- What is built together says what building it does. -/
theorem utters_together
    {α : Type}
    {build : Action α}
    (utters : Utters id { connection with held := some [] }
      (build { connection with held := some [] }).2 added) :
    Utters id connection (together build connection).2 added := by
  have holds : Silent connection { connection with held := some [] } :=
    silent_of_kept rfl rfl
  have released := silent_release
    (build { connection with held := some [] }).2
  have unheld : Silent
      (release (build { connection with held := some [] }).2).2
      { (release (build { connection with held := some [] }).2).2 with
        held := none } := silent_of_kept rfl rfl
  rw [together_apply]
  exact ((utters.after_silent holds).silent released).silent unheld

end Silent

/-! ## A header block and a body -/

/-- The pieces of a body that were said, and whether all of it was: only the
last piece of all ends the stream, where `ends` says so. -/
inductive Pieces (ends : Bool) : List UInt8 → List Item → Bool → Prop
  | cut (rest : List UInt8) : Pieces ends rest [] false
  | last (piece : List UInt8) : Pieces ends piece [.data piece ends] true
  | more {piece rest : List UInt8} {items : List Item} {whole : Bool}
      (pieces : Pieces ends rest items whole) :
      Pieces ends (piece ++ rest) (.data piece false :: items) whole

theorem Pieces.onward
    {ends whole : Bool}
    {size : Nat}
    {rest : List UInt8}
    {items : List Item}
    (pieces : Pieces ends (rest.drop size) items whole) :
    Pieces ends rest (.data (rest.take size) false :: items) whole := by
  have longer : Pieces ends (rest.take size ++ rest.drop size)
      (.data (rest.take size) false :: items) whole := .more pieces
  rwa [List.take_append_drop] at longer

section Parts

variable {connection after : Connection} {id : Nat}

/-- A header block that is held is said whole. -/
theorem utters_sendHeaders
    (admitted : connection.remoteSettings.Admitted)
    (held : connection.held.isSome = true)
    (id : Nat)
    (fields : List Field)
    (ends : Bool) :
    (sendHeaders id fields ends connection).1 = .ok () ∧
      Utters id connection (sendHeaders id fields ends connection).2
        [.block fields ends] := by
  have fine : (sendHeaders id fields ends connection).1 = .ok () := by
    obtain ⟨bytes, held⟩ := Option.isSome_iff_exists.mp held
    rw [sendHeaders_of_held held]
  refine ⟨fine, ?_⟩
  obtain ⟨piece, cut, later, grown, frames, sliced, encoder, _⟩ :=
    sliced_of_sendHeaders admitted held
      (show sendHeaders id fields ends connection =
        (.ok (), (sendHeaders id fields ends connection).2) from
          Prod.ext fine rfl)
  refine ⟨⟨later, grown, fun frame member => ?_⟩, fun said spoken => ?_⟩
  · rw [frames] at member
    exact (of_mem_blockFrames (Or.inl rfl) member).1
  · rw [grown, Event.messageSent_append, frames, encoder]
    exact spoken.block sliced.whole

/-- A piece of a body that is held. -/
theorem utters_afterPiece
    {stream : Stream}
    {frame : Frame}
    (piece : Piece connection id stream frame)
    (content : frame.content = .ok frame.payload)
    (bytes : List UInt8) :
    Utters id connection (afterPiece connection id stream bytes frame)
      [.data frame.payload (frame.has endStream)] := by
  have carries : ¬frame.Control := fun control => control.1 piece.kind
  have sent := Event.messageSent_emitted carries
  refine ⟨⟨[.emitted frame], rfl, fun other member => ?_⟩,
    fun said spoken => ?_⟩
  · rw [sent] at member
    cases List.mem_singleton.mp member
    exact piece.onStream
  · have grown : (afterPiece connection id stream bytes frame).events =
        connection.events ++ [.emitted frame] := rfl
    rw [grown, Event.messageSent_append, sent, List.map_singleton,
      ← piece.onStream]
    exact spoken.data piece.kind content

/-- The loop says the body from its start, and all of it where it ends well. -/
theorem utters_sendFrom
    {client : Bool}
    {rest : List UInt8}
    (sending : Sending client rest connection)
    (id : Nat)
    (ends : Bool) :
    ∃ said, Utters id connection (sendFrom id ends rest connection).2 said ∧
      Pieces ends rest said (sendFrom id ends rest connection).1.isOk := by
  fun_induction sendFrom id ends rest connection with
  | case1 rest connection failure after runs =>
      obtain ⟨reached, held, nonempty⟩ := sending
      refine ⟨[], Silent.utters ?_ id, .cut rest⟩
      cases turned_of_sendStep held nonempty runs with
      | refused shut => exact silent_refl connection
      | broken opens shut stalls =>
          exact silent_stall reached.sound.waits stalls
  | case2 rest connection after runs =>
      obtain ⟨reached, held, nonempty⟩ := sending
      have turned := turned_of_sendStep held nonempty runs
      generalize made : (Except.ok none : Except NetError _) = outcome at turned
      cases turned with
      | refused | broken | waited => cases made
      | @pieced available _ bytes taken opens free piece =>
          have last := (Except.ok.inj made).symm
          rw [restOf] at last
          split at last
          next done =>
            have whole : rest.take (min rest.length
                (min connection.remoteSettings.maxFrameSize available)) =
                  rest := by
              rw [List.take_eq_self_iff]
              exact List.drop_eq_nil_iff.mp (List.isEmpty_iff.mp done)
            have said := utters_afterPiece piece (content_dataFrame _ _ _) bytes
            refine ⟨_, said, ?_⟩
            rw [pieceOf, has_dataFrame, done, Bool.true_and]
            simp only [dataFrame, whole]
            exact .last rest
          · cases last
  | case3 rest connection left after runs inductionHypothesis =>
      have turn : Underway id ends (rest, connection) (left, after) :=
        .single runs
      obtain ⟨more, further, pieces⟩ :=
        inductionHypothesis (sending.underway turn)
      obtain ⟨reached, held, nonempty⟩ := sending
      have turned := turned_of_sendStep held nonempty runs
      generalize made : (Except.ok (some left) : Except NetError _) = outcome
        at turned
      cases turned with
      | refused | broken => cases made
      | waited opens shut stalls =>
          cases made
          exact ⟨more, further.after_silent
            (silent_stall reached.sound.waits stalls), pieces⟩
      | @pieced available _ bytes taken opens free piece =>
          have leaves := (Except.ok.inj made).symm
          rw [restOf] at leaves
          split at leaves
          · cases leaves
          next some =>
            cases leaves
            have said := utters_afterPiece piece (content_dataFrame _ _ _) bytes
            have unended : (pieceOf id ends rest
                (min connection.remoteSettings.maxFrameSize available)).has
                  endStream = false := by
              rw [pieceOf, has_dataFrame, Bool.eq_false_of_not_eq_true some,
                Bool.false_and]
            rw [unended] at said
            exact ⟨_, said.trans further, pieces.onward⟩

/-- A body is said from its start, and all of it where it is sent well. -/
theorem utters_sendData
    {client : Bool}
    {body : List UInt8}
    (sending : Sending client body connection)
    (id : Nat)
    (ends : Bool) :
    ∃ said, Utters id connection (sendData id body ends connection).2 said ∧
      Pieces ends body said (sendData id body ends connection).1.isOk := by
  obtain ⟨said, utters, pieces⟩ := utters_sendFrom sending id ends
  rw [sendData_apply]
  rcases runs : sendFrom id ends body connection with ⟨failure | _, sent⟩
  · rw [runs] at utters pieces
    exact ⟨said, utters, pieces⟩
  · rw [runs] at utters pieces
    refine ⟨said, utters.silent ?_, pieces⟩
    cases ends with
    | true => exact silent_of_kept rfl rfl
    | false => exact silent_refl sent

end Parts

end Connection

/-! ## A message -/

namespace Held

/-- Items none of which ends the stream have not ended it. -/
theorem unended_of_items
    {items : List Item}
    (unended : ∀ item ∈ items, item.ends = false) :
    (of items).ended = false := by
  induction items using List.reverseRecOn with
  | nil => rfl
  | append_singleton items item inductionHypothesis =>
      have before := inductionHypothesis fun other member =>
        unended other (List.mem_append_left _ member)
      have last := unended item
        (List.mem_append_right _ (List.mem_singleton_self _))
      rw [of_append_singleton]
      cases item with
      | data content ends =>
          simp only [Item.ends] at last
          rw [take, before, last, Bool.or_self]
      | block fields ends =>
          simp only [Item.ends] at last
          simp only [take, before, last, Bool.or_self]
          split
          · rfl
          · split <;> rfl

/-- Pieces of a body alone give no head. -/
theorem headless_of_items
    {items : List Item}
    (bodies : ∀ item ∈ items, ∃ content ends, item = .data content ends) :
    (of items).head = none := by
  induction items using List.reverseRecOn with
  | nil => rfl
  | append_singleton items item inductionHypothesis =>
      obtain ⟨content, ends, rfl⟩ := bodies item
        (List.mem_append_right _ (List.mem_singleton_self _))
      rw [of_append_singleton, take]
      exact inductionHypothesis fun other member =>
        bodies other (List.mem_append_left _ member)

end Held

namespace Connection

section Pieces

variable {ends : Bool} {body : List UInt8} {items : List Item}

theorem Pieces.bodies
    {whole : Bool}
    (pieces : Pieces ends body items whole) :
    ∀ item ∈ items, ∃ content done, item = .data content done := by
  induction pieces with
  | cut rest => exact fun _ member => by cases member
  | last piece =>
      intro item member
      exact ⟨piece, ends, List.mem_singleton.mp member⟩
  | more _ inductionHypothesis =>
      intro item member
      rcases List.mem_cons.mp member with rfl | later
      · exact ⟨_, false, rfl⟩
      · exact inductionHypothesis item later

/-- A body that was not said to its end does not end its stream. -/
theorem Pieces.unended
    (pieces : Pieces ends body items false) :
    ∀ item ∈ items, item.ends = false := by
  obtain ⟨whole, cut⟩ : ∃ whole, whole = false := ⟨_, rfl⟩
  rw [← cut] at pieces
  induction pieces with
  | cut rest => exact fun _ member => by cases member
  | last piece => cases cut
  | more _ inductionHypothesis =>
      intro item member
      rcases List.mem_cons.mp member with rfl | later
      · rfl
      · exact inductionHypothesis cut item later

/-- Of a body said to its end the last piece alone ends the stream, where that
is asked for. -/
theorem Pieces.split
    (pieces : Pieces ends body items true) :
    ∃ earlier last, items = earlier ++ [last] ∧
      (∀ item ∈ earlier, item.ends = false) ∧ last.ends = ends := by
  generalize said : true = whole at pieces
  induction pieces with
  | cut rest => cases said
  | last piece => exact ⟨[], _, rfl, fun _ member => (by cases member), rfl⟩
  | @more piece rest items whole _ inductionHypothesis =>
      obtain ⟨earlier, last, rfl, unended, ended⟩ := inductionHypothesis said
      refine ⟨_ :: earlier, last, rfl, fun item member => ?_, ended⟩
      rcases List.mem_cons.mp member with rfl | before
      · rfl
      · exact unended item before

/-- The pieces of a whole body are taken as the body is. -/
theorem Pieces.taken
    (pieces : Pieces ends body items true)
    (held : Held) :
    items.foldl Held.take held = held.take (.data body ends) := by
  generalize said : true = whole at pieces
  induction pieces generalizing held with
  | cut rest => cases said
  | last piece => rfl
  | more _ inductionHypothesis =>
      rw [List.foldl_cons, inductionHypothesis _ said]
      simp only [Held.take, List.append_assoc, Bool.or_false]

end Pieces

end Connection

namespace Outgoing

open Connection

/-- The trailers of a message, as they are said. -/
def trailing (message : Outgoing) : List Item :=
  message.trailers.toList.map fun trailers => .block trailers true

/-- What a message says: its head, its body in one piece and its trailers. -/
def items (message : Outgoing) : List Item :=
  .block message.head message.endsHead ::
    (message.body.toList.map (fun body => .data body message.endsBody) ++
      message.trailing)

/-- The pieces of the body of a message that were said, and whether all of it
was. -/
def Spelt (message : Outgoing) (pieces : List Item) (whole : Bool) : Prop :=
  match message.body with
  | none => pieces = [] ∧ whole = true
  | some body => Pieces message.endsBody body pieces whole

/-- What was said of a message that may have failed on the way. -/
inductive Voiced (message : Outgoing) : List Item → Prop
  | partly {pieces : List Item}
      (spelt : message.Spelt pieces false) :
      Voiced message (.block message.head message.endsHead :: pieces)
  | whole {pieces : List Item}
      (spelt : message.Spelt pieces true) :
      Voiced message
        (.block message.head message.endsHead :: (pieces ++ message.trailing))

section Voiced

variable {message : Outgoing} {said came : List Item}

theorem Spelt.taken
    {pieces : List Item}
    (spelt : message.Spelt pieces true)
    (held : Held) :
    pieces.foldl Held.take held =
      (message.body.toList.map fun body =>
        Item.data body message.endsBody).foldl Held.take held := by
  rw [Spelt] at spelt
  cases body : message.body with
  | none =>
      rw [body] at spelt
      rw [spelt.1]
      rfl
  | some octets =>
      rw [body] at spelt
      exact Pieces.taken spelt held

/-- All that was said of a message is taken as the message is. -/
theorem Spelt.held
    {pieces : List Item}
    (spelt : message.Spelt pieces true) :
    Held.of (.block message.head message.endsHead ::
      (pieces ++ message.trailing)) = Held.of message.items := by
  rw [Held.of, Held.of, items, List.foldl_cons, List.foldl_cons,
    List.foldl_append, List.foldl_append, spelt.taken]

/-- A message that is to end its stream ends it with the last it says. -/
theorem Spelt.last
    {pieces : List Item}
    (spelt : message.Spelt pieces true) :
    ∃ earlier last, .block message.head message.endsHead ::
        (pieces ++ message.trailing) = earlier ++ [last] ∧
      ∀ item ∈ earlier, item.ends = false := by
  have front {earlier : List Item}
      (headed : message.endsHead = false)
      (unended : ∀ item ∈ earlier, item.ends = false) :
      ∀ item ∈ Item.block message.head message.endsHead :: earlier,
        item.ends = false := by
    intro item member
    rcases List.mem_cons.mp member with rfl | later
    · exact headed
    · exact unended item later
  rw [Spelt] at spelt
  cases trailers : message.trailers with
  | some fields =>
      have unasked : message.endsBody = false := by
        rw [endsBody, trailers]
        rfl
      have headed : message.endsHead = false := by
        rw [endsHead, unasked, Bool.and_false]
      refine ⟨.block message.head message.endsHead :: pieces,
        .block fields true, ?_, front headed fun item member => ?_⟩
      · rw [trailing, trailers]
        rfl
      · cases body : message.body with
        | none =>
            rw [body] at spelt
            rw [spelt.1] at member
            cases member
        | some octets =>
            rw [body, unasked] at spelt
            obtain ⟨earlier, last, rfl, unended, ended⟩ := Pieces.split spelt
            rcases List.mem_append.mp member with before | final
            · exact unended item before
            · rw [List.mem_singleton.mp final]
              exact ended
  | none =>
      rw [trailing, trailers]
      cases body : message.body with
      | none =>
          rw [body] at spelt
          rw [spelt.1]
          exact ⟨[], _, rfl, fun _ member => by cases member⟩
      | some octets =>
          rw [body] at spelt
          have headed : message.endsHead = false := by
            rw [endsHead, body]
            rfl
          obtain ⟨earlier, last, rfl, unended, _⟩ := Pieces.split spelt
          exact ⟨_ :: earlier, last, by simp, front headed unended⟩

theorem Spelt.unended
    {pieces : List Item}
    (spelt : message.Spelt pieces false) :
    ∀ item ∈ Item.block message.head message.endsHead :: pieces,
      item.ends = false := by
  rw [Spelt] at spelt
  cases body : message.body with
  | none =>
      rw [body] at spelt
      cases spelt.2
  | some octets =>
      rw [body] at spelt
      intro item member
      rcases List.mem_cons.mp member with rfl | later
      · rw [Item.ends, endsHead, body]
        rfl
      · exact Pieces.unended spelt item later

/-- After its head a message without trailers says pieces of its body alone. -/
theorem Voiced.later
    (voiced : message.Voiced said)
    (none : message.trailers = none) :
    ∃ later, said = .block message.head message.endsHead :: later ∧
      ∀ item ∈ later, ∃ content ends, item = .data content ends := by
  have bodies {pieces : List Item} {whole : Bool}
      (spelt : message.Spelt pieces whole) :
      ∀ item ∈ pieces, ∃ content ends, item = .data content ends := by
    rw [Spelt] at spelt
    split at spelt
    · rw [spelt.1]
      exact fun _ member => by cases member
    · exact Pieces.bodies spelt
  cases voiced with
  | partly spelt => exact ⟨_, rfl, bodies spelt⟩
  | whole spelt =>
      have untrailed : message.trailing = [] := by
        rw [trailing, none]
        rfl
      rw [untrailed, List.append_nil]
      exact ⟨_, rfl, bodies spelt⟩

/-- Whoever has heard the stream of a message end has heard all of it, and holds
what the message says. -/
theorem Voiced.heard
    (voiced : message.Voiced said)
    (heard : came <+: said)
    (ended : (Held.of came).ended = true) :
    Held.of came = Held.of message.items := by
  have never (unended : ∀ item ∈ came, item.ends = false) : False := by
    cases (Held.unended_of_items unended).symm.trans ended
  cases voiced with
  | partly spelt =>
      exact (never fun item member =>
        spelt.unended item (heard.subset member)).elim
  | @whole pieces spelt =>
      obtain ⟨earlier, last, same, unended⟩ := spelt.last
      rw [same] at heard
      rcases List.prefix_concat_iff.mp heard with all | before
      · rw [all, ← same]
        exact spelt.held
      · exact (never fun item member =>
          unended item (before.subset member)).elim

end Voiced

/-- The trailers of a message whose body was said to its end. -/
theorem voiced_sendTrailers
    {connection bodied : Connection}
    {message : Outgoing}
    {id : Nat}
    {pieces : List Item}
    (uttered : Utters id connection bodied
      (.block message.head message.endsHead :: pieces))
    (admitted : bodied.remoteSettings.Admitted)
    (held : bodied.held.isSome = true)
    (spelt : message.Spelt pieces true) :
    ∃ said, Utters id connection (message.sendTrailers id bodied).2 said ∧
      message.Voiced said := by
  refine ⟨_, ?_, .whole spelt⟩
  rw [sendTrailers, trailing]
  cases message.trailers with
  | none =>
      rw [Option.toList_none, List.map_nil, List.append_nil]
      exact uttered
  | some trailers =>
      obtain ⟨_, last⟩ := utters_sendHeaders admitted held id trailers true
      exact uttered.trans last

/-- A message that is sent is said, whether or not all of it is. -/
theorem utters_send
    {client : Bool}
    {connection : Connection}
    (reached : Reached client connection)
    (held : connection.held.isSome = true)
    (message : Outgoing)
    (some : message.body ≠ some [])
    (id : Nat) :
    ∃ said, Utters id connection (message.send id connection).2 said ∧
      message.Voiced said := by
  obtain ⟨fine, headed⟩ := utters_sendHeaders reached.admitted held id
    message.head message.endsHead
  have steady := keeps_steady_sendHeaders id message.head message.endsHead
    connection
  rcases heads : sendHeaders id message.head message.endsHead connection with
    ⟨outcome, begun⟩
  rw [heads] at fine headed steady
  cases fine
  have heldStill : begun.held.isSome = true := (held_of_steady steady).trans held
  have admitted : begun.remoteSettings.Admitted := by
    obtain ⟨_, _, _, _, _, _, _, same⟩ :=
      sliced_of_sendHeaders reached.admitted held heads
    exact same ▸ reached.admitted
  have first : message.send id connection =
      (message.sendBody id >>= fun _ => message.sendTrailers id) begun :=
    Fallible.bind_of_ok heads _
  rw [first]
  cases body : message.body with
  | none =>
      have none : (message.sendBody id >>= fun _ => message.sendTrailers id)
          begun = message.sendTrailers id begun := by
        rw [sendBody, body]
        rfl
      have spelt : message.Spelt [] true := by
        rw [Spelt, body]
        exact ⟨rfl, rfl⟩
      rw [none]
      exact voiced_sendTrailers headed admitted heldStill spelt
  | some octets =>
      have onward : ¬message.endsHead = true := by
        rw [endsHead, body]
        exact Bool.false_ne_true
      have beats := (plays_sendHeaders (fun asked => absurd asked onward)
        message.head).of_eq heads
      have sending : Sending client octets begun :=
        ⟨reached.strides beats.strides, heldStill,
          fun none => some (none ▸ body)⟩
      have whole : message.sendBody id = sendData id octets message.endsBody := by
        rw [sendBody, body]
      obtain ⟨pieces, uttered, spelt⟩ :=
        utters_sendData sending id message.endsBody
      have steady := keeps_steady_sendData id octets message.endsBody begun
      rw [whole, Fallible.bind_apply]
      have both := headed.trans uttered
      rcases sends : sendData id octets message.endsBody begun with
        ⟨failure | _, bodied⟩
      · rw [sends] at both spelt
        refine ⟨_, both, .partly ?_⟩
        rw [Spelt, body]
        exact spelt
      · have plays := (plays_sendData heldStill sending.nonempty id
          message.endsBody).of_eq sends
        rw [sends] at both spelt steady
        refine voiced_sendTrailers both
          (sending.reached.strides plays.strides).admitted
          ((held_of_steady steady).trans heldStill) ?_
        rw [Spelt, body]
        exact spelt

end Outgoing
end Http2
end XmipNet

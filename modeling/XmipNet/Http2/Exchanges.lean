import XmipNet.Http2.Heeding
import XmipNet.Http2.Mishaps

/-!
# What a client keeps of an exchange

A request goes out on a stream of its own and its answer comes back on it, and
then the record of the stream is taken off: unless the call is left early, while
the request is still being sent or because a read failed.
-/

namespace XmipNet
namespace Http2

namespace Event

/-- `id` was shut to this side: it was reset, or the peer went away naming a
stream below it. -/
def ShutSeen (events : List Event) (id : Nat) : Prop :=
  ResetSeen events id ∨ ∃ frame last, received frame ∈ events ∧
    frame.kind = .goaway ∧ frame.word 0 = some last ∧
      last &&& maxStreamId < id

theorem ShutSeen.mono
    {events later : List Event}
    {id : Nat}
    (seen : ShutSeen events id)
    (grows : events ⊆ later) :
    ShutSeen later id := by
  rcases seen with reset | ⟨frame, last, arrived, rest⟩
  · exact Or.inl (reset.mono grows)
  · exact Or.inr ⟨frame, last, grows arrived, rest⟩

end Event

namespace Core

/-- The record of `id` is there, and this side may send on it. -/
def SendsOn (streams : Streams) (id : Nat) : Prop :=
  ∃ stream, streams[id]? = some stream ∧ stream.reset = none ∧
    stream.state.sending = true

theorem sending_endedRemotely
    {state : State}
    (receiving : state.receiving = true)
    (sending : state.sending = true) :
    state.endedRemotely.sending = true := by
  cases state with
  | opened => rfl
  | halfClosedLocal => cases sending
  | halfClosedRemote => cases receiving
  | closed => cases sending

section SendsOn

variable {streams changed : Streams} {id other : Nat} {stream : Stream}

theorem SendsOn.sets_other
    (sends : SendsOn streams id)
    (different : other ≠ id)
    (sets : Sets streams other stream changed) :
    SendsOn changed id := by
  rw [SendsOn, sets id, if_neg different]
  exact sends

/-- A record written that this side may send on where it might before. -/
theorem SendsOn.sets
    (sends : SendsOn streams id)
    (sets : Sets streams other stream changed)
    (own : other = id → ∀ whole, streams[id]? = some whole →
      whole.reset = none → whole.state.sending = true →
        stream.reset = none ∧ stream.state.sending = true) :
    SendsOn changed id := by
  by_cases same : other = id
  · obtain ⟨whole, found, live, sending⟩ := sends
    obtain ⟨alive, still⟩ := own same whole found live sending
    cases same
    exact ⟨stream, sets.own, alive, still⟩
  · exact sends.sets_other same sets

theorem SendsOn.sameButSend
    (sends : SendsOn streams id)
    (same : SameButSend streams changed) :
    SendsOn changed id := by
  obtain ⟨whole, found, live, sending⟩ := sends
  have equal := same id
  rw [found, Option.map_some, eq_comm, Option.map_eq_some_iff] at equal
  obtain ⟨record, there, alike⟩ := equal
  obtain ⟨state, reset⟩ := same_of_unsent alike.symm
  exact ⟨record, there, reset ▸ live, state ▸ sending⟩

end SendsOn

/-- This side may send on `id`, or `id` was shut to it. -/
def SendsOrShut (core : Core) (id : Nat) : Prop :=
  SendsOn core.streams id ∨ Event.ShutSeen core.events id

section Shut

variable {core after : Core} {id : Nat}

theorem sendsOrShut_spoil
    (sends : SendsOn core.streams id)
    (other : Nat)
    (code : ErrorCode) :
    SendsOrShut (core.spoil other code) id := by
  by_cases same : other = id
  · cases same
    refine Or.inr (Or.inl (Or.inr ⟨code, ?_⟩))
    exact List.mem_append_right _ (List.mem_singleton_self _)
  · obtain ⟨stream, found, live⟩ := sends
    refine Or.inl ⟨stream, ?_, live⟩
    have kept : (core.spoil other code).streams[id]? = core.streams[id]? := by
      rw [spoil, log, markReset, NatMap.getElem?_modify, if_neg same]
    rw [kept, found]

theorem Extends.sendsOrShut
    {frame : Frame}
    (carries : Extends frame core after)
    (sends : SendsOn core.streams id) :
    SendsOrShut after id := by
  cases carries with
  | letGo found dead => exact Or.inl sends
  | spoiled code shut => exact sendsOrShut_spoil sends _ code
  | @overBody stream content streams accepts exceeds sets =>
      have still : SendsOn { core with streams := streams }.streams id := by
        refine sends.sets sets fun same whole found live sending => ?_
        cases same
        cases accepts.found.symm.trans found
        exact ⟨live, sending⟩
      exact sendsOrShut_spoil still _ _
  | ended accepts within ends sets =>
      refine Or.inl (sends.sets sets fun same whole found live sending => ?_)
      cases same
      cases accepts.found.symm.trans found
      exact ⟨live, sending_endedRemotely accepts.receiving sending⟩
  | grown accepts within stays positive sets =>
      refine Or.inl (sends.sets sets fun same whole found live sending => ?_)
      cases same
      cases accepts.found.symm.trans found
      exact ⟨live, sending⟩
  | empty accepts within stays none sets =>
      refine Or.inl (sends.sets sets fun same whole found live sending => ?_)
      cases same
      cases accepts.found.symm.trans found
      exact ⟨live, sending⟩

theorem Heads.sendsOrShut
    {other : Nat}
    {fields : List Hpack.Field}
    {ends : Bool}
    (heads : Heads other fields ends core after)
    (sends : SendsOn core.streams id) :
    SendsOrShut after id := by
  cases heads with
  | malformed violation fails => exact sendsOrShut_spoil sends _ _
  | letGo checks found dead => exact Or.inl sends
  | @headed stream changed checks found live heads =>
      obtain ⟨receiving, state, kept⟩ := Stream.headers_eq_ok heads
      refine Or.inl (sends.sets (sets_insert _ _ _) ?_)
      intro same whole there alive sending
      cases same
      cases found.symm.trans there
      refine ⟨by rw [kept]; exact alive, ?_⟩
      rw [state]
      split
      · exact sending_endedRemotely receiving sending
      · exact sending
  | unheaded checks found live violation fails =>
      exact sendsOrShut_spoil sends _ _
  | opened checks opens staying fits heads sets =>
      refine Or.inl (sends.sets sets ?_)
      intro same whole there
      cases same
      cases opens.absent.symm.trans there
  | passedOver checks opens leaving => exact Or.inl sends
  | refused checks opens staying full =>
      have still : SendsOn (core.reach other).streams id := sends
      exact sendsOrShut_spoil still _ _

end Shut

theorem SendsOn.regain
    {core : Core}
    {id : Nat}
    (sends : SendsOn core.streams id)
    (length : Nat) :
    SendsOn (core.regain length).streams id := by
  rw [Core.regain]
  split
  · exact sends
  · exact sends

theorem sendsOrShut_passedOver
    {core : Core}
    {id : Nat}
    (sends : SendsOn core.streams id)
    {frame : Frame}
    (arrived : .received frame ∈ core.events)
    (kind : frame.kind = .goaway)
    {last : Nat}
    (word : frame.word 0 = some last)
    (goaway : Option (Nat × ErrorCode)) :
    SendsOrShut
      { core with
        goaway := goaway
        streams := core.streams.map
          (Connection.passedOverBy core.client (last &&& maxStreamId)) } id := by
  obtain ⟨stream, found, live, sending⟩ := sends
  by_cases below : last &&& maxStreamId < id
  · exact Or.inr (Or.inr ⟨frame, last, arrived, kind, word, below⟩)
  · refine Or.inl ⟨stream, ?_, live, sending⟩
    rw [NatMap.getElem?_map, found, Option.map_some, Connection.passedOverBy,
      if_neg fun exceeds => below exceeds.1]

end Core

open Core in
/-- After a frame was taken this side may send on a stream as before, or the
stream was shut to it. -/
theorem Took.sendsOrShut
    {frame : Frame}
    {sight after : Sight}
    (took : Took frame sight after)
    (arrived : .received frame ∈ sight.core.events)
    {id : Nat}
    (sends : SendsOn sight.core.streams id) :
    SendsOrShut after.core id := by
  cases took with
  | data kind unbroken room opened carries =>
      exact carries.sendsOrShut (sends.regain _)
  | waiting | unheard | pinged | ponged => exact Or.inl sends
  | decoded assembles whole decodes heads =>
      have still : SendsOn { sight.core with continuing := none }.streams id :=
        sends
      exact heads.sendsOrShut still
  | spoiled code kind => exact sendsOrShut_spoil sends _ code
  | reset code kind opened =>
      by_cases same : frame.stream = id
      · exact Or.inr (Or.inl (Or.inl ⟨frame, arrived, kind, same⟩))
      · obtain ⟨stream, found, live⟩ := sends
        refine Or.inl ⟨stream, ?_, live⟩
        simp only [markReset, NatMap.getElem?_modify, if_neg same, found]
  | settings kind same => exact Or.inl (sends.sameButSend same)
  | wentAway kind word => exact sendsOrShut_passedOver sends arrived kind word _
  | granted kind same => exact Or.inl (sends.sameButSend same)

namespace Frame

/-- The last frame of a body on `id`. -/
def Closes (id : Nat) (frame : Frame) : Prop :=
  frame.kind = .data ∧ frame.stream = id ∧ frame.has endStream = true

end Frame

namespace Connection

open Core
open Fallible (bind_apply modify_bind_apply Keeps)

/-- Between two points of a run no body was ended on `id`. -/
def Unfinished (id : Nat) (connection after : Connection) : Prop :=
  ∃ frames, Event.sent after.events = Event.sent connection.events ++ frames ∧
    ∀ frame ∈ frames, ¬frame.Closes id

/-- Between two points of a run something went wrong, or the peer closed the
connection, or `id` was shut. -/
def Thwarted (id : Nat) (connection after : Connection) : Prop :=
  Upset connection after ∨ ClosedBetween connection after ∨
    Event.ShutSeen after.events id

section Between

variable {id : Nat} {start connection middle after final : Connection}

theorem Unfinished.trans
    (first : Unfinished id connection middle)
    (second : Unfinished id middle after) :
    Unfinished id connection after := by
  obtain ⟨frames, grown, none⟩ := first
  obtain ⟨more, further, noMore⟩ := second
  refine ⟨frames ++ more, by rw [further, grown, List.append_assoc], ?_⟩
  intro frame member
  rcases List.mem_append.mp member with before | later
  · exact none frame before
  · exact noMore frame later

theorem unfinished_of_events
    (same : after.events = connection.events) :
    Unfinished id connection after :=
  ⟨[], by rw [same, List.append_nil], fun _ member => by cases member⟩

theorem unfinished_of_control
    {frames : List Frame}
    (sent : Event.sent after.events = Event.sent connection.events ++ frames)
    (controls : ∀ frame ∈ frames, frame.Control) :
    Unfinished id connection after :=
  ⟨frames, sent, fun frame member closes => (controls frame member).1 closes.1⟩

/-- What thwarted a part of a run thwarted the run. -/
theorem Thwarted.between
    (thwarted : Thwarted id connection after)
    (before : Leads start connection)
    (leads : Leads connection after)
    (later : Leads after final) :
    Thwarted id start final := by
  rcases thwarted with upset | ⟨wire, rest, reaches, read, further⟩ | shut
  · exact Or.inl (upset.between before later leads.settings)
  · have last := later.reads
    rw [leads.settings, before.settings] at last
    rw [before.settings] at reaches read further
    exact Or.inr (Or.inl
      ⟨wire, rest, before.reads.trans reaches, read, further.trans last⟩)
  · exact Or.inr (Or.inr (shut.mono later.events.subset))

theorem unfinished_stall
    {outcome : Except NetError Unit}
    (stalls : stall connection = (outcome, after)) :
    Unfinished id connection after := by
  have pumped {released : Connection} {read : Except NetError Bool}
      (same : released.sight = connection.sight)
      (reads : pump released = (read, after)) :
      Unfinished id connection after := by
    obtain ⟨frames, sent, controls⟩ := control_pump released
    have events : released.events = connection.events :=
      congrArg (fun sight => sight.core.events) same
    rw [reads, events] at sent
    exact unfinished_of_control sent controls
  cases stalled_of_stall stalls with
  | unwritten releases same =>
      exact unfinished_of_events
        (congrArg (fun sight => sight.core.events) same)
  | broken releases same reads => exact pumped same reads
  | closed releases same reads => exact pumped same reads
  | read releases same reads => exact pumped same reads

theorem openWindow_of_sendsOn
    (sends : SendsOn connection.streams id) :
    ∃ available, connection.openWindow id = .ok available := by
  obtain ⟨stream, found, live, sending⟩ := sends
  exact ⟨_, openWindow_eq_ok_iff.mpr ⟨stream, found, live, sending, rfl⟩⟩

theorem sendsOrShut_stall
    (waits : Waits connection.core)
    (either : SendsOrShut connection.core id)
    (stalls : stall connection = (.ok (), after)) :
    SendsOrShut after.core id := by
  cases stalled_of_stall stalls with
  | @read released _ releases same reads =>
      have cores : released.core = connection.core := congrArg Sight.core same
      have still : Waits released.core := cores ▸ waits
      rw [← cores] at either
      rcases either with sends | shut
      · obtain ⟨frame, _, took⟩ := took_of_pump_true still reads
        refine took.sendsOrShut ?_ sends
        exact List.mem_append_right _ (List.mem_singleton_self _)
      · have moved := moves_pump still
        rw [Moves, reads] at moved
        exact Or.inr (shut.mono moved.events.subset)

theorem leads_afterPiece
    (connection : Connection)
    (id : Nat)
    (stream : Stream)
    (bytes : List UInt8)
    (frame : Frame) :
    Leads connection (afterPiece connection id stream bytes frame) :=
  ⟨rfl, .refl, List.suffix_refl _, List.prefix_append _ _⟩

/-- A piece that leaves something to send does not end the stream. -/
theorem not_closes_pieceOf
    {ends : Bool}
    {rest left : List UInt8}
    {most : Nat}
    (leaves : restOf rest most = some left) :
    ¬(pieceOf id ends rest most).Closes id := by
  rintro ⟨_, _, ended⟩
  rw [restOf] at leaves
  split at leaves
  · cases leaves
  next more =>
    have unended : ((rest.drop (min rest.length most)).isEmpty && ends) =
        false := by
      rw [Bool.eq_false_of_not_eq_true more, Bool.false_and]
    simp only [Frame.has, pieceOf, dataFrame, unended] at ended
    exact absurd ended (by decide)

theorem sendsOn_afterPiece
    {stream : Stream}
    {frame : Frame}
    (piece : Piece connection id stream frame)
    (bytes : List UInt8) :
    SendsOn (afterPiece connection id stream bytes frame).streams id :=
  ⟨_, NatMap.getElem?_insert_self _ _, piece.live, piece.sending⟩

/-- The loop that sends a body leads on; it fails only where something went
wrong, the peer closed the connection or shut the stream, and then the body was
not ended. -/
theorem fares_sendLoop
    (waits : Waits connection.core)
    (held : connection.held.isSome = true)
    {rest : List UInt8}
    (nonempty : rest ≠ [])
    (ends : Bool)
    (either : SendsOrShut connection.core id) :
    Leads connection (sendLoop id ends rest connection).2 ∧
      ∀ failure, (sendLoop id ends rest connection).1 = .error failure →
        Thwarted id connection (sendLoop id ends rest connection).2 ∧
          Unfinished id connection (sendLoop id ends rest connection).2 := by
  rw [sendLoop]
  fun_induction sendFrom id ends rest connection with
  | case1 rest connection failure after runs =>
      cases turned_of_sendStep held nonempty runs with
      | refused shut =>
          refine ⟨leads_refl connection, fun _ _ => ⟨?_, ?_⟩⟩
          · rcases either with sends | seen
            · obtain ⟨_, opens⟩ := openWindow_of_sendsOn sends
              cases opens.symm.trans shut
            · exact Or.inr (Or.inr seen)
          · exact unfinished_of_events rfl
      | broken opens shut stalls =>
          obtain ⟨leads, fails⟩ := fares_stall waits stalls
          refine ⟨leads, fun _ _ => ⟨?_, unfinished_stall stalls⟩⟩
          rcases fails failure rfl with upset | closed
          · exact Or.inl upset
          · exact Or.inr (Or.inl closed)
  | case2 rest connection after runs =>
      have turned := turned_of_sendStep held nonempty runs
      generalize (Except.ok none : Except NetError _) = outcome at turned
      refine ⟨?_, fun _ fails => by cases fails⟩
      cases turned with
      | refused => exact leads_refl connection
      | broken opens shut stalls | waited opens shut stalls =>
          exact (fares_stall waits stalls).1
      | pieced bytes opens free piece => exact leads_afterPiece _ _ _ _ _
  | case3 rest connection left after runs inductionHypothesis =>
      have moved := ((plays_sendStep held nonempty id ends).of_eq runs).steps
        waits
      have heldStill := (held_of_steady
        ((keeps_steady_sendStep id ends rest).of_eq runs)).trans held
      have turned := turned_of_sendStep held nonempty runs
      generalize made : (Except.ok (some left) : Except NetError _) = outcome
        at turned
      have stepped : Leads connection after ∧ Unfinished id connection after ∧
          SendsOrShut after.core id := by
        cases turned with
        | refused | broken => cases made
        | waited opens shut stalls =>
            exact ⟨(fares_stall waits stalls).1, unfinished_stall stalls,
              sendsOrShut_stall waits either stalls⟩
        | @pieced available stream bytes held opens free piece =>
            refine ⟨leads_afterPiece _ _ _ _ _, ⟨[_], Event.sent_append _ _, ?_⟩,
              Or.inl (sendsOn_afterPiece piece bytes)⟩
            intro frame member
            rw [List.mem_singleton.mp member]
            exact not_closes_pieceOf (Except.ok.inj made).symm
      obtain ⟨leads, unfinished, still⟩ := stepped
      obtain ⟨further, fails⟩ := inductionHypothesis (moved.waits waits)
        heldStill (nonempty_of_sendStep nonempty runs) still
      refine ⟨leads.trans further, fun failure failed => ?_⟩
      obtain ⟨thwarted, unfinishedStill⟩ := fails failure failed
      exact ⟨thwarted.between leads further (leads_refl _),
        unfinished.trans unfinishedStill⟩

theorem sent_emitted (frames : List Frame) :
    Event.sent (frames.map .emitted) = frames := by
  rw [Event.sent, List.filterMap_map]
  exact List.filterMap_some

theorem not_closes_of_block
    {frame : Frame}
    (block : frame.kind = .headers ∨ frame.kind = .continuation) :
    ¬frame.Closes id := by
  rintro ⟨data, _⟩
  rcases block with kind | kind
  · cases data.symm.trans kind
  · cases data.symm.trans kind

/-- Inside `together` a header block is held whole, and ends no body. -/
theorem fares_sendHeaders
    (id : Nat)
    (held : connection.held.isSome = true)
    {other : Nat}
    {fields : List Hpack.Field}
    {ends : Bool}
    {outcome : Except NetError Unit}
    (sends : sendHeaders other fields ends connection = (outcome, after)) :
    outcome = .ok () ∧ Leads connection after ∧
      Unfinished id connection after := by
  obtain ⟨bytes, held⟩ := Option.isSome_iff_exists.mp held
  rw [sendHeaders_of_held held] at sends
  have frames : after.events = connection.events ++
      (connection.headerFrames other fields ends).map .emitted ∧
      after.wire = connection.wire ∧
        after.localSettings = connection.localSettings := by
    cases ends <;> cases sends <;> exact ⟨rfl, rfl, rfl⟩
  obtain ⟨events, wire, settings⟩ := frames
  refine ⟨by cases sends; rfl, ⟨settings, ?_, ?_, ?_⟩, ?_⟩
  · rw [wire]
  · rw [wire]
  · rw [events]
    exact List.prefix_append _ _
  · refine ⟨connection.headerFrames other fields ends, ?_, ?_⟩
    · rw [events, Event.sent_append, sent_emitted]
    · intro frame member
      exact not_closes_of_block (of_mem_blockFrames (Or.inl rfl) member).2

end Between

end Connection

namespace Client

open Core Connection
open Fallible (bind_apply modify_bind_apply)

section Exchange

variable {connection after : Connection} {id : Nat}

/-- Sending a request fails only where something went wrong, the server closed
the connection or shut the stream, and then its body was not ended. -/
theorem fares_sendRequest
    (waits : Waits connection.core)
    (held : connection.held.isSome = true)
    (unended : Unended connection id)
    (sends : SendsOn connection.streams id)
    {fields : List Hpack.Field}
    {body : List UInt8}
    {outcome : Except NetError Unit}
    (runs : sendRequest id fields body connection = (outcome, after)) :
    Leads connection after ∧
      ∀ failure, outcome = .error failure →
        body ≠ [] ∧ Thwarted id connection after ∧
          Unfinished id connection after := by
  rw [sendRequest, bind_apply] at runs
  split at runs
  next headed heads =>
    obtain ⟨_, leads, unfinished⟩ := fares_sendHeaders id held heads
    have heldStill := (held_of_steady
      ((keeps_steady_sendHeaders _ _ _).of_eq heads)).trans held
    have moved := ((plays_sendHeaders (fun _ => unended) fields).of_eq
      heads).steps waits
    rw [sendBody] at runs
    split at runs
    · cases runs
      exact ⟨leads, fun _ fails => by cases fails⟩
    next some =>
      have streams : headed.streams = connection.streams := by
        obtain ⟨bytes, held⟩ := Option.isSome_iff_exists.mp held
        rw [sendHeaders_of_held held, decide_eq_false some] at heads
        cases heads
        rfl
      have either : SendsOrShut headed.core id :=
        Or.inl (show SendsOn headed.streams id from streams ▸ sends)
      obtain ⟨further, fails⟩ := fares_sendLoop (moved.waits waits) heldStill
        some true either
      rw [sendData, bind_apply] at runs
      split at runs
      next sent sends =>
        rw [sends] at further
        cases runs
        have ended : Leads headed (sent.endLocally id) :=
          ⟨further.settings, further.reads, further.accepts, further.events⟩
        exact ⟨leads.trans ended, fun _ failed => by cases failed⟩
      next failure sent sends =>
        rw [sends] at further fails
        cases runs
        obtain ⟨thwarted, unfinishedStill⟩ := fails failure rfl
        exact ⟨leads.trans further, fun _ _ => ⟨some,
          thwarted.between leads further (leads_refl _),
          unfinished.trans unfinishedStill⟩⟩
  next failure headed heads =>
    obtain ⟨fine, _⟩ := fares_sendHeaders id held heads
    cases fine

/-- Building and writing a request. -/
theorem fares_together_sendRequest
    (waits : Waits connection.core)
    (unended : Unended connection id)
    (sends : SendsOn connection.streams id)
    {fields : List Hpack.Field}
    {body : List UInt8}
    {outcome : Except NetError Unit}
    (runs : together (sendRequest id fields body) connection =
      (outcome, after)) :
    Leads connection after ∧
      ∀ failure, outcome = .error failure →
        Upset connection after ∨ (body ≠ [] ∧ Thwarted id connection after ∧
          Unfinished id connection after) := by
  have holding : Leads connection { connection with held := some [] } :=
    ⟨rfl, .refl, List.suffix_refl _, List.prefix_refl _⟩
  rw [together_apply] at runs
  rcases builds : sendRequest id fields body
    { connection with held := some [] } with ⟨made, built⟩
  obtain ⟨leads, fails⟩ := fares_sendRequest (by exact waits) rfl
    (by exact unended) (by exact sends) builds
  have releasing := fares_release built
  have kept := keeps_sight_release built
  rw [builds] at runs
  simp only at runs
  rcases writes : release built with ⟨written, released⟩
  rw [writes] at runs releasing kept
  have letting : Leads released { released with held := none } :=
    ⟨rfl, .refl, List.suffix_refl _, List.prefix_refl _⟩
  obtain ⟨result, rfl⟩ := Prod.mk.inj runs
  have before := holding.trans leads
  have later := releasing.leads.trans letting
  refine ⟨before.trans later, fun failure failed => ?_⟩
  cases made with
  | error cause =>
      obtain ⟨some, thwarted, unfinished⟩ := fails cause rfl
      refine Or.inr ⟨some, thwarted.between holding leads later, ?_⟩
      have events : released.events = built.events :=
        congrArg (fun sight => sight.core.events) kept
      exact unfinished.trans (unfinished_of_events events)
  | ok _ =>
      cases written with
      | ok _ =>
          rw [← result] at failed
          cases failed
      | error cause =>
          exact Or.inl ((releasing.upset cause rfl).between before letting
            releasing.leads.settings)

/-- The wait for an answer takes the record off, or something went wrong. -/
theorem fares_receiveAnswer
    (waits : Waits connection.core)
    (id : Nat) :
    Leads connection (receiveAnswer id connection).2 ∧
      ((receiveAnswer id connection).2.streams[id]? = none ∨
        Upset connection (receiveAnswer id connection).2) := by
  have fares := fares_pumpUntil (answered id) waits
  have removed (read : Connection) : (read.remove id).streams[id]? = none := by
    rw [remove, NatMap.getElem?_erase, if_pos rfl]
  have removing {read : Connection} (leads : Leads connection read) :
      Leads connection (read.remove id) :=
    ⟨leads.settings, leads.reads, leads.accepts, leads.events⟩
  rw [receiveAnswer_apply]
  split
  next failure read runs =>
    rw [runs] at fares
    exact ⟨fares.leads, Or.inr (fares.upset failure rfl)⟩
  next read runs =>
    rw [runs] at fares
    exact ⟨removing fares.leads, Or.inl (removed read)⟩
  next read runs =>
    rw [runs] at fares
    exact ⟨removing fares.leads, Or.inl (removed read)⟩

theorem sendsOn_openStream
    (absent : connection.streams[id]? = none) :
    SendsOn (connection.openStream id).streams id :=
  ⟨_, NatMap.getElem?_insertIfNew_self absent _, rfl, rfl⟩

/-- A request sent and answered leaves no record of its stream, unless something
went wrong or its body could not be sent whole. -/
theorem fares_exchange
    (sound : Sound connection.core)
    (asClient : connection.client = true)
    (fresh : connection.highest < id)
    {fields : List Hpack.Field}
    {body : List UInt8}
    {outcome : Except NetError Http.Response}
    (runs : exchange id fields body connection = (outcome, after)) :
    after.streams[id]? = none ∨ Upset connection after ∨
      (body ≠ [] ∧ Thwarted id connection after ∧
        Unfinished id connection after) := by
  have opening : Leads connection (connection.openStream id) :=
    ⟨rfl, .refl, List.suffix_refl _, List.prefix_refl _⟩
  have turned : Turn connection.core (connection.openStream id).core :=
    .opened _ asClient fresh
  have opened := turned.sound sound
  have unended := unended_openStream sound fresh
  have sends := sendsOn_openStream (sound.placed.absent_of_fresh fresh)
  rw [exchange, modify_bind_apply, bind_apply] at runs
  split at runs
  next sent requests =>
    obtain ⟨leads, _⟩ := fares_together_sendRequest opened.waits unended
      sends requests
    have moved := ((plays_together_sendRequest unended fields body).of_eq
      requests).steps opened.waits
    have answered := fares_receiveAnswer (moved.waits opened.waits) id
    rw [runs] at answered
    obtain ⟨further, removed | upset⟩ := answered
    · exact Or.inl removed
    · exact Or.inr (Or.inl (upset.between (opening.trans leads)
        (leads_refl _) further.settings))
  next failure sent requests =>
    obtain ⟨leads, fails⟩ := fares_together_sendRequest opened.waits unended
      sends requests
    cases runs
    rcases fails failure rfl with upset | ⟨some, thwarted, unfinished⟩
    · exact Or.inr (Or.inl (upset.between opening (leads_refl _)
        leads.settings))
    · exact Or.inr (Or.inr ⟨some,
        thwarted.between opening leads (leads_refl _), unfinished⟩)

end Exchange

/-! ## Every call -/

/-- The body on `id` was ended between two points of a run. -/
def Finished (id : Nat) (connection after : Connection) : Prop :=
  ∃ later frame, after.events = connection.events ++ later ∧
    .emitted frame ∈ later ∧ frame.Closes id

theorem not_unfinished
    {id : Nat}
    {connection after : Connection}
    (finished : Finished id connection after) :
    ¬Unfinished id connection after := by
  rintro ⟨frames, sent, none⟩
  obtain ⟨later, frame, events, emitted, closes⟩ := finished
  rw [events, Event.sent_append, List.append_cancel_left_eq] at sent
  refine none frame ?_ closes
  rw [← sent]
  exact List.mem_filterMap.mpr ⟨.emitted frame, emitted, rfl⟩

/-- Nothing comes between a request and its answer: it is not sent at all, or no
read and no write of the connection underneath fails and the server breaches
nothing, and where the request has a body, that goes out whole; it does where
the server neither closes the connection nor shuts the stream. -/
def Undisturbed (codec : Percent) (client : Client) (request : Http.Request) :
    Prop :=
  let before := client.connection
  let after := (send codec request client).2.connection
  before.goaway ≠ none ∨ maxStreamId < client.next ∨
    (¬Upset before after ∧
      (request.body = [] ∨ Finished client.next before after ∨
        (¬ClosedBetween before after ∧
          ¬Event.ShutSeen after.events client.next)))

/-- A client that keeps no record. -/
def Kempt (client : Client) : Prop :=
  ∀ id : Nat, client.connection.streams[id]? = none

/-- On a client no step makes a record. -/
theorem absent_of_steps
    {core after : Core}
    (steps : Steps core after)
    (asClient : core.client = true)
    {id : Nat}
    (absent : core.streams[id]? = none) :
    after.streams[id]? = none := by
  induction steps with
  | refl => exact absent
  | @tail middle after moved step inductionHypothesis =>
      cases found : after.streams[id]? with
      | none => rfl
      | some stream =>
          rcases step.present found with ⟨before, there⟩ | ⟨opens, _⟩
          · cases inductionHypothesis.symm.trans there
          · have same := (Steps.client moved).trans asClient
            cases opens.server.symm.trans same

section Kempt

variable {codec : Percent} {client : Client}

theorem Kempt.of_steps
    (kempt : Kempt client)
    (asking : Asking client)
    {after : Connection}
    (steps : Steps client.connection.core after.core) :
    Kempt { client with connection := after } :=
  fun id => absent_of_steps steps asking.asClient (kempt id)

/-- An undisturbed exchange leaves none on its own stream. -/
theorem absent_of_undisturbed
    (asking : Asking client)
    (staying : client.connection.goaway = none)
    (free : client.next ≤ maxStreamId)
    {request : Http.Request}
    (undisturbed : Undisturbed codec client request) :
    (send codec request client).2.connection.streams[client.next]? = none := by
  rw [Undisturbed, send_of_free staying free] at undisturbed
  rw [send_of_free staying free]
  rcases runs : exchange client.next
    (Message.requestFields codec client.scheme request) request.body
    client.connection with ⟨outcome, after⟩
  rw [runs] at undisturbed
  simp only at undisturbed ⊢
  rcases undisturbed with away | spent | ⟨calm, goesOut⟩
  · exact absurd staying away
  · exact absurd spent (not_lt.mpr free)
  · rcases fares_exchange asking.sound asking.asClient asking.fresh runs with
      gone | upset | ⟨some, thwarted, unfinished⟩
    · exact gone
    · exact absurd upset calm
    · rcases goesOut with none | finished | ⟨unclosed, unshut⟩
      · exact absurd none some
      · exact absurd unfinished (not_unfinished finished)
      · rcases thwarted with upset | closed | shut
        · exact absurd upset calm
        · exact absurd closed unclosed
        · exact absurd shut unshut

/-- An exchange makes no record but that of its own stream. -/
theorem absent_of_exchange
    (asking : Asking client)
    (fields : List Hpack.Field)
    (body : List UInt8)
    {id : Nat}
    (other : id ≠ client.next)
    (absent : client.connection.streams[id]? = none) :
    (exchange client.next fields body client.connection).2.streams[id]? =
      none := by
  obtain ⟨reached, beats, ends⟩ := beats_exchange asking.sound asking.fresh
    fields body
  have steps : Steps (client.connection.openStream client.next).core
      reached.core := beats.steps asking.sound.waits
  have opened : (client.connection.openStream client.next).streams[id]? =
      none := by
    rw [Connection.openStream, NatMap.getElem?_insertIfNew_ne other.symm]
    exact absent
  have still : reached.streams[id]? = none :=
    absent_of_steps steps asking.asClient opened
  rcases ends with ends | ends
  · rw [ends]
    exact still
  · rw [ends, Connection.remove, NatMap.getElem?_erase, if_neg other.symm]
    exact still

theorem Kempt.send
    (kempt : Kempt client)
    (asking : Asking client)
    {request : Http.Request}
    (undisturbed : Undisturbed codec client request) :
    Kempt (send codec request client).2 := by
  cases away : client.connection.goaway with
  | some departure =>
      rw [send_of_goaway away]
      exact kempt
  | none =>
      by_cases free : client.next ≤ maxStreamId
      · intro id
        by_cases own : id = client.next
        · rw [own]
          exact absent_of_undisturbed asking away free undisturbed
        · rw [send_of_free away free]
          exact absent_of_exchange asking _ _ own (kempt id)
      · rw [send_of_spent away (not_le.mp free)]
        exact kempt

theorem Kempt.perform
    (kempt : Kempt client)
    (asking : Asking client)
    {ask : Ask}
    (undisturbed : ∀ request, ask = .send request →
      Undisturbed codec client request) :
    Kempt (perform codec client ask) := by
  cases ask with
  | send request => exact kempt.send asking (undisturbed request rfl)
  | ping =>
      exact kempt.of_steps asking ((plays_ping (BigEndian.write 8 client.next)
        client.connection).moves asking.sound.waits)
  | close =>
      exact kempt.of_steps asking (moves_goAway .noError "" client.connection)

theorem Kempt.run
    (kempt : Kempt client)
    (asking : Asking client)
    {asks : List Ask}
    (undisturbed : ∀ earlier request later,
      asks = earlier ++ .send request :: later →
        Undisturbed codec (run codec client earlier) request) :
    Kempt (run codec client asks) := by
  induction asks generalizing client with
  | nil => exact kempt
  | cons ask rest inductionHypothesis =>
      have first : ∀ request, ask = .send request →
          Undisturbed codec client request :=
        fun request sends => undisturbed [] request rest (sends ▸ rfl)
      refine inductionHypothesis (kempt.perform asking first)
        (asking.perform codec ask).1 fun earlier request later split => ?_
      exact undisturbed (ask :: earlier) request later
        (congrArg (ask :: ·) split)

theorem kempt_of_handshake
    {wire : Wire}
    {scheme : String}
    (opens : handshake wire scheme = .ok client) :
    Kempt client := by
  rw [handshake] at opens
  cases starts : Connection.start wire true with
  | error failure =>
      rw [starts] at opens
      cases opens
  | ok connection =>
      rw [starts] at opens
      cases opens
      exact fun id => absent_of_steps (steps_start starts) rfl
        (NatMap.getElem?_empty id)

end Kempt

/-- In every run in which nothing comes between a request and its answer, the
client keeps no record between its calls. -/
theorem kempt_of_undisturbed
    (codec : Percent)
    {wire : Wire}
    {scheme : String}
    {client : Client}
    (opens : handshake wire scheme = .ok client)
    {asks : List Ask}
    (undisturbed : ∀ earlier request later,
      asks = earlier ++ .send request :: later →
        Undisturbed codec (run codec client earlier) request)
    {earlier later : List Ask}
    (split : asks = earlier ++ later) :
    Kempt (run codec client earlier) := by
  refine (kempt_of_handshake opens).run (asking_of_handshake opens) ?_
  rintro first request rest rfl
  refine undisturbed first request (rest ++ later) ?_
  rw [split, List.append_assoc]
  rfl

/-! ## Runs that show both -/

/-- Whether `incoming` reads to its end in `count` frames, none of them cut. -/
def readsOut (maxSize : Nat) : (count : Nat) → List Arrival → Bool
  | 0, incoming => incoming.isEmpty
  | count + 1, incoming =>
      match Frame.read { incoming, accepts := [], written := [] } maxSize with
      | (.error _, _) => false
      | (.ok _, rest) => readsOut maxSize count rest.incoming

section ReadsOut

variable {maxSize : Nat} {incoming later : List Arrival}

/-- What a read gives and leaves is up to what there is to read. -/
theorem read_of_incoming
    (maxSize : Nat)
    (wire : Wire) :
    let bare : Wire :=
      { incoming := wire.incoming, accepts := [], written := [] }
    (Frame.read wire maxSize).1 = (Frame.read bare maxSize).1 ∧
      (Frame.read wire maxSize).2.incoming =
        (Frame.read bare maxSize).2.incoming := by
  rw [Frame.read_eq]
  exact ⟨rfl, rfl⟩

theorem exists_readsOut_of_reads
    (out : ∃ count, readsOut maxSize count incoming = true)
    (reads : Reads maxSize incoming later) :
    ∃ count, readsOut maxSize count later = true := by
  obtain ⟨wire, rfl, rfl⟩ := reads
  rw [(read_of_incoming maxSize wire).2]
  obtain ⟨count, out⟩ := out
  cases count with
  | zero =>
      rw [readsOut, List.isEmpty_iff] at out
      rw [out]
      exact ⟨0, rfl⟩
  | succ count =>
      rw [readsOut] at out
      split at out
      · cases out
      next runs =>
        rw [runs]
        exact ⟨count, out⟩

theorem exists_readsOut
    (out : ∃ count, readsOut maxSize count incoming = true)
    (reads : Relation.ReflTransGen (Reads maxSize) incoming later) :
    ∃ count, readsOut maxSize count later = true := by
  induction reads with
  | refl => exact out
  | tail _ step inductionHypothesis =>
      exact exists_readsOut_of_reads inductionHypothesis step

theorem read_of_readsOut
    {wire : Wire}
    (out : ∃ count, readsOut maxSize count wire.incoming = true)
    (failure : Frame.ReadFailure) :
    (Frame.read wire maxSize).1 ≠ .error failure := by
  rw [(read_of_incoming maxSize wire).1]
  obtain ⟨count, out⟩ := out
  intro fails
  cases count with
  | zero =>
      rw [readsOut, List.isEmpty_iff] at out
      rw [out] at fails
      cases fails
  | succ count =>
      rw [readsOut] at out
      split at out
      · cases out
      next runs =>
        rw [runs] at fails
        cases fails

end ReadsOut

/-- Nothing went wrong where every frame reads, every write goes through and no
breach is on record. -/
theorem not_upset_of_readsOut
    {connection after : Connection}
    {count : Nat}
    (out : readsOut connection.localSettings.maxFrameSize count
      connection.wire.incoming = true)
    (writes : connection.wire.accepts = [])
    (unbreached : Event.Unbreached after.events) :
    ¬Upset connection after := by
  intro upset
  cases upset with
  | unread before fails later =>
      exact read_of_readsOut (exists_readsOut ⟨count, out⟩ before) _
        (congrArg Prod.fst fails)
  | @unwritten used acceptance split member fails =>
      rw [writes] at split
      rw [(List.append_eq_nil_iff.mp split.symm).1] at member
      cases member
  | @breached later violation split member =>
      refine unbreached violation ?_
      rw [split]
      exact List.mem_append_right _ member

/-- A server that answers the request on stream 1. -/
def answeringWire : Wire where
  incoming := [.octets ((⟨.settings, 0, 0, []⟩ : Frame).encode ++
    (⟨.headers, endStream ||| endHeaders, 1, [0x88]⟩ : Frame).encode)]
  accepts := []
  written := []

/-- A request that is answered leaves no record. -/
theorem kempt_of_answered :
    ∃ client, handshake answeringWire "http" = .ok client ∧
      (send .bare plainRequest client).1.isOk = true ∧
        Kempt (run .bare client [.send plainRequest]) := by
  obtain ⟨client, opens, checked⟩ := exists_of_handshake
    (show (handshake answeringWire "http").toOption.map (fun client =>
      (send .bare plainRequest client).1.isOk &&
        (readsOut client.connection.localSettings.maxFrameSize 2
            client.connection.wire.incoming &&
          (decide (client.connection.wire.accepts = []) &&
            decide (Event.Unbreached
              (send .bare plainRequest client).2.connection.events)))) =
        some true by decide +kernel)
  simp only [Bool.and_eq_true, decide_eq_true_eq] at checked
  obtain ⟨answered, out, writes, unbreached⟩ := checked
  refine ⟨client, opens, answered, ?_⟩
  refine kempt_of_undisturbed .bare opens ?_
    (show [Ask.send plainRequest] = [.send plainRequest] ++ [] from rfl)
  intro earlier request later split
  cases earlier with
  | nil =>
      cases split
      exact Or.inr (Or.inr ⟨not_upset_of_readsOut out writes unbreached,
        Or.inl rfl⟩)
  | cons ask rest =>
      rw [List.cons_append, List.cons.injEq] at split
      cases rest <;> cases split.2

/-- A server that grants nothing, answers the first request and then resets the
stream of the second. -/
def resettingWire : Wire where
  incoming := [.octets
    ((⟨.settings, 0, 0, [0, 4, 0, 0, 0, 0]⟩ : Frame).encode ++
      (⟨.headers, endStream ||| endHeaders, 1, [0x88]⟩ : Frame).encode ++
      (Frame.reset 3 .noError).encode)]
  accepts := []
  written := []

/-- A request with a body of one octet. -/
def bodiedRequest : Http.Request :=
  { plainRequest with method := "POST", body := [0] }

/-- A request reset while its body waits for a window leaves its record. -/
theorem not_kempt_of_reset :
    ∃ client, handshake resettingWire "http" = .ok client ∧
      ¬Kempt (run .bare client
        [.send plainRequest, .send bodiedRequest]) := by
  obtain ⟨client, opens, checked⟩ := exists_of_handshake
    (show (handshake resettingWire "http").toOption.map (fun client =>
      (run .bare client [.send plainRequest,
        .send bodiedRequest]).connection.streams[3]?.isSome) =
        some true by decide +kernel)
  refine ⟨client, opens, fun kempt => ?_⟩
  rw [kempt 3] at checked
  cases checked

end Client
end Http2
end XmipNet

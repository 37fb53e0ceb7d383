import XmipNet.Http2.Exchanges

/-!
# Answers that come before the request is out

A server may answer before it has read the whole of a request. The answer is
kept on the record of the stream, and nothing but a reset takes it away again;
the client gives it to its caller once the rest of the body is out.
-/

namespace XmipNet
namespace Http2

namespace Core

/-- What a record the peer has ended becomes: it was reset, or it holds what it
held. -/
def Rests (stream now : Stream) : Prop :=
  now.reset ≠ none ∨
    (now.head = stream.head ∧ now.body = stream.body ∧
      now.trailers = stream.trailers ∧ now.state.receiving = false ∧
        now.reset = stream.reset)

theorem receiving_endedLocally_eq_false
    {state : State}
    (ended : state.receiving = false) :
    state.endedLocally.receiving = false := by
  cases state with
  | opened => cases ended
  | halfClosedLocal => cases ended
  | halfClosedRemote => rfl
  | closed => rfl

theorem Step.rests
    {core after : Core}
    (step : Step core after)
    {id : Nat}
    {stream now : Stream}
    (found : core.streams[id]? = some now)
    (rests : Rests stream now)
    (ended : now.reset = none → now.state.receiving = false) :
    ∃ next, after.streams[id]? = some next ∧ Rests stream next ∧
      (next.reset = none → next.state.receiving = false) := by
  have change := step.change id
  rw [found] at change
  generalize after.streams[id]? = record at change
  cases change with
  | kept => exact ⟨now, rfl, rests, ended⟩
  | grown grows =>
      cases grows.receiving.symm.trans (ended grows.live)
  | headed live heads seen =>
      cases (Stream.headers_eq_ok heads).1.symm.trans (ended live)
  | ended | reset =>
      exact ⟨_, rfl, Or.inl (Option.some_ne_none _), fun none => by cases none⟩
  | passedOver =>
      exact ⟨_, rfl, Or.inl (Option.some_ne_none _), fun none => by cases none⟩
  | @windowed _ changed same =>
      simp only [unsent, Stream.mk.injEq] at same
      obtain ⟨state, _, _, head, body, trailers, reset⟩ := same
      refine ⟨changed, rfl, ?_, ?_⟩
      · rw [Rests, ← reset, ← state, ← head, ← body, ← trailers]
        exact rests
      · rw [← reset, ← state]
        exact ended
  | endedLocally _ unended =>
      refine ⟨_, rfl, ?_, fun live => receiving_endedLocally_eq_false
        (ended live)⟩
      rcases rests with reset | ⟨head, body, trailers, receiving, same⟩
      · exact Or.inl reset
      · exact Or.inr ⟨head, body, trailers,
          receiving_endedLocally_eq_false receiving, same⟩

/-- However far a run goes on, a record the peer has ended holds what it held,
or was reset. -/
theorem Steps.rests
    {core after : Core}
    (steps : Steps core after)
    {id : Nat}
    {stream : Stream}
    (found : core.streams[id]? = some stream)
    (ended : stream.state.receiving = false) :
    ∃ now, after.streams[id]? = some now ∧ Rests stream now := by
  obtain ⟨now, there, rests, _⟩ := steps.invariant
    (motive := fun reached => ∃ now, reached.streams[id]? = some now ∧
      Rests stream now ∧ (now.reset = none → now.state.receiving = false))
    (fun step holds => by
      obtain ⟨_, there, rests, done⟩ := holds
      exact step.rests there rests done)
    ⟨stream, found, Or.inr ⟨rfl, rfl, rfl, ended, rfl⟩, fun _ => ended⟩
  exact ⟨now, there, rests⟩

end Core

namespace Connection

open Core
open Fallible (bind_apply modify_bind_apply)

/-! ## The points of a loop -/

/-- One turn of the loop that sends a body on `id`, with something left to send
after it. -/
def TurnsTo (id : Nat) (here there : List UInt8 × Connection) : Prop :=
  sendStep id true here.1 here.2 = (.ok (some there.1), there.2)

/-- What is left of a body can go out from here: as long as it is going out the
stream is not shut to this side, a wait for a window meets no failure, breach or
end of the connection, and what is held at the end can be written. -/
structure GoesOut (id : Nat) (left : List UInt8) (connection : Connection) :
    Prop where
  opened : ∀ rest now, Relation.ReflTransGen (TurnsTo id) (left, connection)
    (rest, now) → SendsOn now.streams id
  waits : ∀ rest now available, Relation.ReflTransGen (TurnsTo id)
    (left, connection) (rest, now) → now.openWindow id = .ok available →
      min now.remoteSettings.maxFrameSize available = 0 →
        (stall now).1 = .ok ()
  written : ∀ rest now after, Relation.ReflTransGen (TurnsTo id)
    (left, connection) (rest, now) →
      sendStep id true rest now = (.ok none, after) →
        (release (after.endLocally id)).1 = .ok ()

section Loop

variable {id : Nat} {connection after : Connection} {rest left : List UInt8}

/-- A loop gives what it gives from any of its points. -/
theorem sendFrom_of_turns
    {here there : List UInt8 × Connection}
    (turns : Relation.ReflTransGen (TurnsTo id) here there) :
    sendFrom id true here.1 here.2 = sendFrom id true there.1 there.2 := by
  induction turns using Relation.ReflTransGen.head_induction_on with
  | refl => rfl
  | @head here middle turn turned inductionHypothesis =>
      rw [← inductionHypothesis, sendFrom]
      split
      next failure after runs => cases turn.symm.trans runs
      next after runs => cases turn.symm.trans runs
      next later after runs =>
        cases turn.symm.trans runs
        rfl

theorem GoesOut.of_turn
    (goesOut : GoesOut id rest connection)
    (turn : TurnsTo id (rest, connection) (left, after)) :
    GoesOut id left after where
  opened later now turns := goesOut.opened later now (.head turn turns)
  waits later now available turns :=
    goesOut.waits later now available (.head turn turns)
  written later now last turns := goesOut.written later now last
    (.head turn turns)

/-- What can go out goes out, on a stream that stays open to this side. -/
theorem GoesOut.sendFrom
    (goesOut : GoesOut id rest connection)
    (held : connection.held.isSome = true)
    (nonempty : rest ≠ []) :
    ∃ sent, sendFrom id true rest connection = (.ok (), sent) ∧
      SendsOn sent.streams id ∧ (release (sent.endLocally id)).1 = .ok () := by
  fun_induction Connection.sendFrom id true rest connection with
  | case1 rest connection failure after runs =>
      exfalso
      cases turned_of_sendStep held nonempty runs with
      | refused shut =>
          obtain ⟨_, opens⟩ := openWindow_of_sendsOn
            (goesOut.opened rest connection .refl)
          cases opens.symm.trans shut
      | broken opens shut stalls =>
          have fine := goesOut.waits rest connection _ .refl opens shut
          rw [stalls] at fine
          cases fine
  | case2 rest connection after runs =>
      refine ⟨after, rfl, ?_, goesOut.written rest connection after .refl runs⟩
      have turned := turned_of_sendStep held nonempty runs
      generalize made : (Except.ok none : Except NetError _) = outcome at turned
      cases turned with
      | refused | broken | waited => cases made
      | @pieced available stream bytes held opens free piece =>
          exact sendsOn_afterPiece piece bytes
  | case3 rest connection later after runs inductionHypothesis =>
      have heldStill := (held_of_steady
        ((keeps_steady_sendStep id true rest).of_eq runs)).trans held
      exact inductionHypothesis (goesOut.of_turn runs) heldStill
        (nonempty_of_sendStep nonempty runs)

/-- At every point of the loop frames are held and something is left to send. -/
theorem held_of_turns
    {here there : List UInt8 × Connection}
    (turns : Relation.ReflTransGen (TurnsTo id) here there)
    (held : here.2.held.isSome = true)
    (nonempty : here.1 ≠ []) :
    there.2.held.isSome = true ∧ there.1 ≠ [] := by
  induction turns with
  | refl => exact ⟨held, nonempty⟩
  | tail turned turn inductionHypothesis =>
      obtain ⟨heldStill, more⟩ := inductionHypothesis
      have kept := (keeps_steady_sendStep id true _).of_eq turn
      exact ⟨(held_of_steady kept).trans heldStill,
        nonempty_of_sendStep more turn⟩

theorem steps_of_turns
    {here there : List UInt8 × Connection}
    (turns : Relation.ReflTransGen (TurnsTo id) here there)
    (waits : Waits here.2.core)
    (held : here.2.held.isSome = true)
    (nonempty : here.1 ≠ []) :
    Steps here.2.core there.2.core := by
  induction turns with
  | refl => exact .refl
  | tail turned turn inductionHypothesis =>
      obtain ⟨heldStill, more⟩ := held_of_turns turned held nonempty
      have moved := ((plays_sendStep heldStill more id true).of_eq turn).steps
        (inductionHypothesis.waits waits)
      exact inductionHypothesis.trans moved

/-- What went out and was written could go out. -/
theorem goesOut_of_sendFrom
    (sent : sendFrom id true rest connection = (.ok (), after))
    (held : connection.held.isSome = true)
    (nonempty : rest ≠ [])
    (writes : (release (after.endLocally id)).1 = .ok ()) :
    GoesOut id rest connection := by
  refine ⟨fun later now turns => ?_, fun later now available turns opens shut =>
    ?_, fun later now last turns runs => ?_⟩
  · have sends := (sendFrom_of_turns turns).symm.trans sent
    cases opens : now.openWindow id with
    | ok available =>
        obtain ⟨stream, found, live, sending, _⟩ :=
          openWindow_eq_ok_iff.mp opens
        exact ⟨stream, found, live, sending⟩
    | error failure =>
        have step := sendStep_of_refused opens true later
        rw [sendFrom] at sends
        split at sends
        · cases sends
        next runs => cases step.symm.trans runs
        next runs => cases step.symm.trans runs
  · have sends := (sendFrom_of_turns turns).symm.trans sent
    have step := sendStep_of_shut opens shut
      (held_of_turns turns held nonempty).2 true
    rw [bind_apply] at step
    rw [sendFrom] at sends
    split at step
    next stalls => rw [stalls]
    next stalls =>
      split at sends
      · cases sends
      next runs => cases step.symm.trans runs
      next runs => cases step.symm.trans runs
  · have sends := (sendFrom_of_turns turns).symm.trans sent
    rw [sendFrom] at sends
    split at sends
    · cases sends
    next ends =>
      cases runs.symm.trans ends
      cases sends
      exact writes
    next ends => cases runs.symm.trans ends

end Loop

end Connection

namespace Client

open Core Connection
open Fallible (bind_apply modify_bind_apply eq_ok_of_toOption)
open Http (Request Response)

/-- One frame read while waiting for the answer on `id`. -/
def WaitsTo (id : Nat) (here there : Connection) : Prop :=
  answered id here = false ∧ pump here = (.ok true, there)

/-- The points of a send between two frames of the server's: while the body goes
out, `left` being what is left of it, and while the answer is waited for. -/
inductive Underway (codec : Percent) (client : Client) (request : Request) :
    Option (List UInt8) → Connection → Prop
  | sending {start point : Connection} {left : List UInt8}
      (staying : client.connection.goaway = none)
      (free : client.next ≤ maxStreamId)
      (bodied : request.body ≠ [])
      (heads : sendHeaders client.next
        (Message.requestFields codec client.scheme request) false
        { client.connection.openStream client.next with held := some [] } =
          (.ok (), start))
      (turns : Relation.ReflTransGen (TurnsTo client.next)
        (request.body, start) (left, point)) :
      Underway codec client request (some left) point
  | waiting {sent point : Connection}
      (staying : client.connection.goaway = none)
      (free : client.next ≤ maxStreamId)
      (requests : together (sendRequest client.next
        (Message.requestFields codec client.scheme request) request.body)
        (client.connection.openStream client.next) = (.ok (), sent))
      (reads : Relation.ReflTransGen (WaitsTo client.next) sent point) :
      Underway codec client request none point

/-- The whole of a well-formed answer has come on `id`. -/
def Answered (id : Nat) (response : Response) (connection : Connection) :
    Prop :=
  ∃ stream, connection.streams[id]? = some stream ∧
    stream.state.receiving = false ∧ stream.reset = none ∧
      answerOf id (some stream) = .ok response

section Answered

variable {id : Nat} {response : Response} {connection after : Connection}

theorem answered_of_answered
    (whole : Answered id response connection) :
    answered id connection = true := by
  obtain ⟨stream, found, ended, _⟩ := whole
  rw [answered, found]
  simp only [Stream.finished, ended, Bool.not_false, Bool.or_true]

/-- The wait gives the answer that has come, and at once. -/
theorem receiveAnswer_of_answered
    (whole : Answered id response connection) :
    (receiveAnswer id connection).1 = .ok response := by
  have come := answered_of_answered whole
  obtain ⟨stream, found, _, _, answers⟩ := whole
  rw [receiveAnswer_apply, pumpUntil, pumpFrom, if_pos come]
  simp only [found, answers]

theorem receiveAnswer_of_waits
    (reads : Relation.ReflTransGen (WaitsTo id) connection after) :
    receiveAnswer id connection = receiveAnswer id after := by
  induction reads using Relation.ReflTransGen.head_induction_on with
  | refl => rfl
  | @head here middle wait waited inductionHypothesis =>
      obtain ⟨unanswered, reads⟩ := wait
      rw [← inductionHypothesis, receiveAnswer_apply, receiveAnswer_apply]
      have same : pumpUntil (answered id) here =
          pumpUntil (answered id) middle := by
        rw [pumpUntil, pumpFrom, unanswered, if_neg Bool.false_ne_true]
        split
        next runs => cases reads.symm.trans runs
        next runs => cases reads.symm.trans runs
        next runs =>
          cases reads.symm.trans runs
          rfl
      rw [same]

/-- An answer that has come stays where the stream stays open to this side. -/
theorem Answered.of_steps
    (whole : Answered id response connection)
    (steps : Steps connection.core after.core)
    (sends : SendsOn after.streams id) :
    Answered id response after := by
  obtain ⟨stream, found, ended, live, answers⟩ := whole
  obtain ⟨now, there, rests⟩ := steps.rests found ended
  obtain ⟨record, same, alive, _⟩ := sends
  cases there.symm.trans same
  rcases rests with reset | ⟨head, body, trailers, receiving, _⟩
  · exact absurd alive reset
  · refine ⟨now, there, receiving, alive, ?_⟩
    rw [answerOf, live] at answers
    rw [answerOf, alive, head, body, trailers]
    exact answers

theorem Answered.endLocally
    (whole : Answered id response connection) :
    Answered id response (connection.endLocally id) := by
  obtain ⟨stream, found, ended, live, answers⟩ := whole
  refine ⟨{ stream with state := stream.state.endedLocally }, ?_,
    receiving_endedLocally_eq_false ended, live, answers⟩
  rw [Connection.endLocally, NatMap.getElem?_modify, if_pos rfl, found,
    Option.map_some]

end Answered

/-! ## The whole of a send -/

section Exchange

variable {id : Nat} {connection start point : Connection}
variable {fields : List Hpack.Field} {body left : List UInt8}
variable {response : Response}

theorem sendRequest_of_heads
    (bodied : body ≠ [])
    (heads : sendHeaders id fields false connection = (.ok (), start)) :
    sendRequest id fields body connection =
      match sendFrom id true body start with
      | (.ok _, sent) => (.ok (), sent.endLocally id)
      | (.error failure, sent) => (.error failure, sent) := by
  rw [sendRequest, bind_apply, decide_eq_false bodied, heads]
  simp only [sendBody, if_neg bodied]
  rw [sendData, bind_apply, sendLoop]
  split
  next runs => rw [runs]; rfl
  next runs => rw [runs]

/-- An exchange whose request went out ends as the wait for its answer does. -/
theorem exchange_of_sent
    {sent : Connection}
    (requests : together (sendRequest id fields body)
      (connection.openStream id) = (.ok (), sent)) :
    exchange id fields body connection = receiveAnswer id sent := by
  rw [exchange, modify_bind_apply, bind_apply, requests]

theorem exists_sent_of_exchange
    (gives : (exchange id fields body connection).1 = .ok response) :
    ∃ sent, together (sendRequest id fields body)
      (connection.openStream id) = (.ok (), sent) := by
  rw [exchange, modify_bind_apply, bind_apply] at gives
  split at gives
  next sent requests => exact ⟨sent, requests⟩
  next failure sent requests => cases gives

/-- An answer that came while the body was going out is given if and only if the
rest of the body can go out. -/
theorem exchange_iff_goesOut
    (sound : Sound connection.core)
    (asClient : connection.client = true)
    (fresh : connection.highest < id)
    (bodied : body ≠ [])
    (heads : sendHeaders id fields false
      { connection.openStream id with held := some [] } = (.ok (), start))
    (turns : Relation.ReflTransGen (TurnsTo id) (body, start) (left, point))
    (whole : Answered id response point) :
    (exchange id fields body connection).1 = .ok response ↔
      GoesOut id left point := by
  have turned : Turn connection.core (connection.openStream id).core :=
    .opened _ asClient fresh
  have opened := turned.sound sound
  have unended := unended_openStream sound fresh
  have heldStart : start.held.isSome = true :=
    (held_of_steady ((keeps_steady_sendHeaders _ _ _).of_eq heads)).trans rfl
  have started : Steps (connection.openStream id).core start.core :=
    ((plays_sendHeaders (fun _ => by exact unended) fields).of_eq
      heads).steps (by exact opened.waits)
  obtain ⟨heldHere, some⟩ := held_of_turns turns heldStart bodied
  have waits := (steps_of_turns turns (started.waits opened.waits) heldStart
    bodied).waits (started.waits opened.waits)
  have built := sendRequest_of_heads bodied heads
  have same := sendFrom_of_turns turns
  constructor
  · intro gives
    obtain ⟨sent, requests⟩ := exists_sent_of_exchange gives
    rw [together_apply, built, same] at requests
    rcases sends : sendFrom id true left point with ⟨failure | _, out⟩
    · rw [sends] at requests
      cases requests
    · rw [sends] at requests
      refine goesOut_of_sendFrom sends heldHere some ?_
      simp only at requests
      rcases writes : release (out.endLocally id) with ⟨failure | _, released⟩
      · rw [writes] at requests
        cases requests
      · rfl
  · intro goesOut
    obtain ⟨out, sends, stillSends, writes⟩ := goesOut.sendFrom heldHere some
    have moved := ((plays_sendLoop heldHere some id true).of_eq sends).steps
      waits
    have kept := (whole.of_steps moved stillSends).endLocally
    rcases releases : release (out.endLocally id) with ⟨outcome, released⟩
    have released' := keeps_core_release (out.endLocally id)
    rw [releases] at released' writes
    simp only at writes
    have requests : together (sendRequest id fields body)
        (connection.openStream id) =
        (.ok (), { released with held := none }) := by
      rw [together_apply, built, same, sends]
      simp only
      rw [releases, writes]
      rfl
    rw [exchange_of_sent requests]
    refine receiveAnswer_of_answered ?_
    obtain ⟨stream, found, rest⟩ := kept
    have streams : released.streams = (out.endLocally id).streams :=
      congrArg Core.streams released'
    exact ⟨stream, by rw [← found, ← streams], rest⟩

end Exchange

/-- A server that grants nothing, answers the first request and then the second
before its body, and goes on with `last`. -/
def earlyWire (last : Frame) : Wire where
  incoming := [.octets
    ((⟨.settings, 0, 0, [0, 4, 0, 0, 0, 0]⟩ : Frame).encode ++
      (⟨.headers, endStream ||| endHeaders, 1, [0x88]⟩ : Frame).encode ++
      (⟨.headers, endStream ||| endHeaders, 3, [0x88]⟩ : Frame).encode ++
      last.encode)]
  accepts := []
  written := []

/-- The answer it gives. -/
def promptAnswer : Response where
  status := 200
  reason := "OK"
  headers := []
  body := []
  trailers := []

/-- Where the body of the second request begins to go out. -/
def beforeBody (client : Client) : Connection :=
  (sendHeaders 3 (Message.requestFields .bare client.scheme bodiedRequest)
    false { client.connection.openStream 3 with held := some [] }).2

/-- Whether the second request's answer has come whole before its body is out,
the request then ending with `response`. -/
def answeredEarly (client : Client) (response : Option Response) : Bool :=
  let (step, point) := sendStep 3 true [0] (beforeBody client)
  decide (client.connection.goaway = none) && decide (client.next = 3) &&
    (sendHeaders 3 (Message.requestFields .bare client.scheme bodiedRequest)
      false { client.connection.openStream 3 with
        held := some [] }).1.toOption.isSome &&
    decide (step.toOption = some (some [0])) &&
    (match point.streams[3]? with
      | some stream => !stream.state.receiving && stream.reset.isNone &&
          decide ((answerOf 3 (some stream)).toOption = some promptAnswer)
      | none => false) &&
    decide ((send .bare bodiedRequest client).1.toOption = response)

theorem underway_of_answeredEarly
    {client : Client}
    {response : Option Response}
    (early : answeredEarly client response = true) :
    client.next = 3 ∧ ∃ point,
      Underway .bare client bodiedRequest (some [0]) point ∧
        Answered 3 promptAnswer point ∧
          (send .bare bodiedRequest client).1.toOption = response := by
  simp only [answeredEarly, Bool.and_eq_true, decide_eq_true_eq] at early
  obtain ⟨⟨⟨⟨⟨staying, next⟩, heads⟩, step⟩, whole⟩, ends⟩ := early
  refine ⟨next, (sendStep 3 true [0] (beforeBody client)).2, ?_, ?_, ends⟩
  · obtain ⟨_, heads⟩ := Option.isSome_iff_exists.mp heads
    have headed : sendHeaders client.next
        (Message.requestFields .bare client.scheme bodiedRequest) false
        { client.connection.openStream client.next with held := some [] } =
          (.ok (), beforeBody client) := by
      rw [next]
      exact Prod.ext (eq_ok_of_toOption heads) rfl
    have turn : TurnsTo client.next ([0], beforeBody client)
        ([0], (sendStep 3 true [0] (beforeBody client)).2) := by
      rw [next]
      exact Prod.ext (eq_ok_of_toOption step) rfl
    exact .sending staying (by rw [next]; decide) (List.cons_ne_nil _ _)
      headed (.single turn)
  · split at whole
    next stream found =>
      simp only [Bool.and_eq_true, Bool.not_eq_true', Option.isNone_iff_eq_none,
        decide_eq_true_eq] at whole
      obtain ⟨⟨ended, live⟩, answers⟩ := whole
      exact ⟨stream, found, ended, live, eq_ok_of_toOption answers⟩
    · cases whole

end Client
end Http2
end XmipNet

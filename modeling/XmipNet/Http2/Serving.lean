import XmipNet.Http2.Farewell
import XmipNet.Http2.Server
import XmipNet.Http2.Beats

/-!
# What every call of a server keeps

`Serving` is what holds of a server between its calls, with the streams it has
delivered: each once, none above the last the client opened, and every one whose
record is still there waits for its answer, closed to the client. A call is made
of steps of the core, of looks that take a request off its record, and of the
removal of records.
-/

namespace XmipNet
namespace Http2

open Hpack (Field)
open Http (Request Response)

namespace Core

/-- The record of `id` is there and closed to the peer. -/
def ClosedTo (core : Core) (id : Nat) : Prop :=
  ∃ stream, core.streams[id]? = some stream ∧ stream.state.receiving = false

theorem Steps.closedTo
    {core after : Core}
    (steps : Steps core after)
    {id : Nat}
    (closed : ClosedTo core id) :
    ClosedTo after id := by
  refine steps.invariant (motive := fun reached => ClosedTo reached id) ?_ closed
  rintro reached next step ⟨stream, found, shut⟩
  obtain ⟨changed, there⟩ := step.keeps_record found
  exact ⟨changed, there, step.stays_closed found shut there⟩

end Core

namespace Connection

open Core Fallible

theorem unended_of_closedTo
    {connection : Connection}
    {id : Nat}
    (closed : ClosedTo connection.core id) :
    Unended connection id := by
  obtain ⟨stream, found, shut⟩ := closed
  intro record there ended
  have same : stream = record := Option.some.inj (found.symm.trans there)
  rw [same, ended] at shut
  cases shut

end Connection

namespace Server

open Core Connection
open Fallible (get modify lift attempt bind_apply get_bind_apply
  attempt_apply Keeps)

/-! ## An answer -/

/-- An answer on a stream closed to the client plays. -/
theorem plays_sendAnswer
    {connection : Connection}
    {id : Nat}
    (waits : Waits connection.core)
    (held : connection.held.isSome = true)
    (closed : ClosedTo connection.core id)
    (response : Response) :
    Plays (sendAnswer id response) connection := by
  have unended := unended_of_closedTo closed
  refine plays_bind (plays_sendHeaders (fun _ => unended) _) ?_
  intro _ headed heads
  have headMoved := ((plays_sendHeaders (fun _ => unended) _).of_eq heads).steps
    waits
  have heldStill := (held_of_steady
    ((keeps_steady_sendHeaders _ _ _).of_eq heads)).trans held
  have body : Plays
      (sendBody id response.body (Message.carried response.trailers = []))
      headed := by
    rw [sendBody]
    split
    · exact .refl
    next some => exact plays_sendData heldStill some id _
  refine plays_bind body ?_
  intro _ sent sends
  have bodyMoved := (body.of_eq sends).steps (headMoved.waits waits)
  rw [sendTrailers]
  split
  · exact .refl
  · have still := bodyMoved.closedTo (headMoved.closedTo closed)
    exact plays_sendHeaders (fun _ => unended_of_closedTo still) _

/-- Building and writing an answer plays. -/
theorem plays_answer
    {connection : Connection}
    {id : Nat}
    (waits : Waits connection.core)
    (closed : ClosedTo connection.core id)
    (response : Response) :
    Plays (together (sendAnswer id response)) connection := by
  refine plays_together (plays_sendAnswer ?_ ?_ ?_ response)
  · exact waits
  · rfl
  · exact closed

/-- Building and writing an answer moves the core by steps. -/
theorem moves_answer
    {connection : Connection}
    {id : Nat}
    (waits : Waits connection.core)
    (closed : ClosedTo connection.core id)
    (response : Response) :
    Moves (together (sendAnswer id response)) connection :=
  (plays_answer waits closed response).moves waits

theorem respond_of_unknown
    {server : Server}
    {id : Nat}
    (unknown : id ∉ server.answering)
    (response : Response) :
    respond id response server =
      (.error (.new s!"no request waits on stream {id}"), server) := by
  rw [respond, get_bind_apply, if_pos unknown]
  rfl

/-- A server's answer on `id`, its record let go. -/
theorem respond_of_waiting
    {server : Server}
    {id : Nat}
    (waiting : id ∈ server.answering)
    (response : Response) :
    respond id response server =
      ((together (sendAnswer id response) server.connection).1,
        { connection := (together (sendAnswer id response)
            server.connection).2.remove id
          answering := server.answering.erase id }) := by
  rw [respond, get_bind_apply, if_neg (not_not.mpr waiting)]
  rfl

/-! ## What holds between two calls -/

/-- What holds of a server that has delivered the requests on `delivered`. -/
structure Serving (server : Server) (delivered : List Nat) : Prop where
  serves : server.connection.client = false
  parted : Parted server.connection.core
  kept : ∀ id ∈ server.answering, ClosedTo server.connection.core id
  named : ∀ id ∈ server.answering, id ∈ delivered
  once : delivered.Nodup
  reached : ∀ id ∈ delivered, id ≤ server.connection.lastPeer
  waiting : ∀ id ∈ delivered, ∀ stream,
    server.connection.streams[id]? = some stream → id ∈ server.answering

section Calls

variable {server : Server} {delivered : List Nat}

/-- Steps of the core keep it. -/
theorem Serving.steps
    (serving : Serving server delivered)
    {after : Connection}
    (steps : Steps server.connection.core after.core) :
    Serving { server with connection := after } delivered where
  serves := steps.client.trans serving.serves
  parted := steps.turns.parted serving.parted
  kept id waits := steps.closedTo (serving.kept id waits)
  named := serving.named
  once := serving.once
  reached id member := (serving.reached id member).trans steps.monotone.1
  waiting id member stream found := by
    cases before : server.connection.streams[id]? with
    | some whole => exact serving.waiting id member whole before
    | none =>
        have absent :=
          steps.absent_of_reached (serving.reached id member) before
        exact absurd (absent.symm.trans found) (Option.some_ne_none stream).symm

/-- A record may be let go with its place among those that wait. -/
theorem Serving.letGo
    (serving : Serving server delivered)
    (id : Nat) :
    Serving
      { connection := server.connection.remove id
        answering := server.answering.erase id }
      delivered where
  serves := serving.serves
  parted := Turn.parted (.taken _ (thinned_erase _ id)) serving.parted
  kept other waits := by
    obtain ⟨different, waits⟩ := Finset.mem_erase.mp waits
    obtain ⟨stream, found, shut⟩ := serving.kept other waits
    exact ⟨stream, (NatMap.getElem?_erase ..).trans
      ((if_neg different.symm).trans found), shut⟩
  named other waits := serving.named other (Finset.mem_of_mem_erase waits)
  once := serving.once
  reached := serving.reached
  waiting other member stream found := by
    have there : (server.connection.streams.erase id)[other]? = some stream :=
      found
    rw [NatMap.getElem?_erase] at there
    split at there
    · cases there
    next different =>
      exact Finset.mem_erase.mpr
        ⟨Ne.symm different, serving.waiting other member stream there⟩

/-- A record that waits for no answer may be let go. -/
theorem Serving.remove
    (serving : Serving server delivered)
    {id : Nat}
    (unanswered : id ∉ server.answering) :
    Serving { server with connection := server.connection.remove id }
      delivered := by
  have gone := serving.letGo id
  rwa [Finset.erase_eq_of_notMem unanswered] at gone

/-- The head and body of a record may be taken off. -/
theorem Serving.untaken
    (serving : Serving server delivered)
    {id : Nat}
    {stream : Stream}
    (found : server.connection.streams[id]? = some stream) :
    Serving
      { server with
        connection := server.connection.setStream id (emptied stream) }
      delivered where
  serves := serving.serves
  parted := Turn.parted (.taken _ (thinned_untaken found)) serving.parted
  kept other waits := by
    obtain ⟨record, there, shut⟩ := serving.kept other waits
    by_cases same : id = other
    · cases same
      cases there.symm.trans found
      exact ⟨emptied stream, NatMap.getElem?_insert_self _ _, shut⟩
    · exact ⟨record, (NatMap.getElem?_insert_ne same _).trans there, shut⟩
  named := serving.named
  once := serving.once
  reached := serving.reached
  waiting other member record there := by
    by_cases same : id = other
    · cases same
      exact serving.waiting id member stream found
    · exact serving.waiting other member record
        ((NatMap.getElem?_insert_ne same _).symm.trans there)

/-- A record whose request is taken off waits for its answer. -/
theorem Serving.deliver
    (serving : Serving server delivered)
    {id : Nat}
    {stream : Stream}
    (found : server.connection.streams[id]? = some stream)
    (shut : stream.state.receiving = false)
    (unanswered : id ∉ server.answering) :
    Serving
      { connection := server.connection.setStream id (emptied stream)
        answering := insert id server.answering }
      (delivered ++ [id]) := by
  have taken := serving.untaken found
  have new : id ∉ delivered :=
    fun member => unanswered (serving.waiting id member stream found)
  refine ⟨taken.serves, taken.parted, ?_, ?_, ?_, ?_, ?_⟩
  · intro other waits
    rcases Finset.mem_insert.mp waits with rfl | waits
    · exact ⟨emptied stream, NatMap.getElem?_insert_self _ _, shut⟩
    · exact taken.kept other waits
  · intro other waits
    rcases Finset.mem_insert.mp waits with rfl | waits
    · exact List.mem_append_right _ (List.mem_singleton_self _)
    · exact List.mem_append_left _ (serving.named other waits)
  · exact List.nodup_append_comm.mp
      (List.nodup_cons.mpr ⟨new, serving.once⟩)
  · intro other member
    rcases List.mem_append.mp member with earlier | now
    · exact serving.reached other earlier
    · rw [List.mem_singleton.mp now]
      exact serving.parted.sound.placed.peers serving.serves id stream found
  · intro other member record there
    rcases List.mem_append.mp member with earlier | now
    · exact Finset.mem_insert_of_mem (taken.waiting other earlier record there)
    · rw [List.mem_singleton.mp now]
      exact Finset.mem_insert_self _ _

theorem Serving.append_nil
    (serving : Serving server delivered)
    {given : List (Nat × Request)}
    (nothing : given = []) :
    Serving server (delivered ++ given.map Prod.fst) := by
  rw [nothing, List.map_nil, List.append_nil]
  exact serving

end Calls

/-- A server that goes on to give requests: what holds between calls holds
after it, and its core has turned. -/
def Served (server : Server) (delivered : List Nat)
    (given : List (Nat × Request)) (after : Server) : Prop :=
  Serving after (delivered ++ given.map Prod.fst) ∧
    Turns server.connection.core after.connection.core

theorem Served.trans
    {server middle after : Server}
    {delivered : List Nat}
    {given more : List (Nat × Request)}
    (first : Served server delivered given middle)
    (second : Served middle (delivered ++ given.map Prod.fst) more after) :
    Served server delivered (given ++ more) after := by
  refine ⟨?_, first.2.trans second.2⟩
  rw [List.map_append, ← List.append_assoc]
  exact second.1

/-- Steps of the connection give nothing. -/
theorem Serving.served_of_moves
    {server : Server}
    {delivered : List Nat}
    (serving : Serving server delivered)
    {α : Type}
    {action : Action α}
    (moves : Moves action server.connection) :
    Served server delivered [] (onConnection action server).2 :=
  ⟨(serving.steps moves).append_nil rfl, moves.turns⟩

/-! ## One look -/

/-- The request an outcome gives, if it gives one. -/
def Look.given : Except NetError Look → List (Nat × Request)
  | .ok (.settled (some taken)) => [taken]
  | _ => []

/-- What a look takes as a request's head is the head of a live record. -/
theorem live_of_takenHead
    {stream : Stream}
    {head : List Field}
    (headed : takenHead stream = some head) :
    stream.reset = none ∧ stream.head = some head := by
  rw [takenHead] at headed
  split at headed
  next live => exact ⟨Option.isNone_iff_eq_none.mp live, headed⟩
  · cases headed

theorem shut_of_finished
    {stream : Stream}
    (finished : stream.finished = true)
    (live : stream.reset = none) :
    stream.state.receiving = false := by
  simpa [Stream.finished, live] using finished

theorem turn_emptied
    {connection : Connection}
    {id : Nat}
    {stream : Stream}
    (found : connection.streams[id]? = some stream) :
    Turn connection.core (connection.setStream id (emptied stream)).core :=
  .taken _ (thinned_untaken found)

theorem turn_remove
    (connection : Connection)
    (id : Nat) :
    Turn connection.core (connection.remove id).core :=
  .taken _ (thinned_erase _ id)

/-- Ending a stream whose head and body were taken off moves the core by
steps. -/
theorem Serving.moves_spoil
    {server : Server}
    {delivered : List Nat}
    (serving : Serving server delivered)
    {id : Nat}
    {stream : Stream}
    (found : server.connection.streams[id]? = some stream)
    (code : ErrorCode) :
    Moves (Connection.reset id code)
      (server.connection.setStream id (emptied stream)) := by
  have taken := serving.untaken found
  have settled := taken.parted.sound.placed.settled taken.serves id
    (emptied stream) (NatMap.getElem?_insert_self _ _)
  exact moves_reset settled
    (fun asClient => by cases taken.serves.symm.trans asClient) id

/-- A look keeps what holds between calls, its request delivered. -/
theorem Serving.look
    {codec : Percent}
    {server after : Server}
    {delivered : List Nat}
    (serving : Serving server delivered)
    {outcome : Except NetError Look}
    (runs : look codec server = (outcome, after)) :
    Served server delivered (Look.given outcome) after := by
  cases looked_of_look runs with
  | nothing nothing => exact ⟨serving.append_nil rfl, .refl⟩
  | @headless id stream first headless =>
      obtain ⟨found, _, unanswered⟩ := found_of_ready first
      exact ⟨((serving.untaken found).remove unanswered).append_nil rfl,
        (Relation.ReflTransGen.single (turn_emptied found)).tail
          (turn_remove _ id)⟩
  | request first headed reads =>
      obtain ⟨found, finished, unanswered⟩ := found_of_ready first
      obtain ⟨live, _⟩ := live_of_takenHead headed
      exact ⟨serving.deliver found (shut_of_finished finished live) unanswered,
        .single (turn_emptied found)⟩
  | @malformed id stream head malformed reset first headed fails resets =>
      obtain ⟨found, _, unanswered⟩ := found_of_ready first
      have moved := (serving.moves_spoil found malformed.code).of_eq resets
      exact ⟨(((serving.untaken found).steps moved).remove
          unanswered).append_nil rfl,
        ((Relation.ReflTransGen.single (turn_emptied found)).trans
          moved.turns).tail (turn_remove _ id)⟩
  | @lost id stream head malformed reset failure first headed fails resets =>
      obtain ⟨found, _, _⟩ := found_of_ready first
      have moved := (serving.moves_spoil found malformed.code).of_eq resets
      exact ⟨((serving.untaken found).steps moved).append_nil rfl,
        (Relation.ReflTransGen.single (turn_emptied found)).trans moved.turns⟩

/-! ## Every call -/

/-- The request a call gives, if it gives one. -/
def given : Except NetError (Option (Nat × Request)) → List (Nat × Request)
  | .ok (some taken) => [taken]
  | _ => []

section Calls

variable {codec : Percent} {server : Server} {delivered : List Nat}

theorem Serving.finished
    (serving : Serving server delivered)
    (codec : Percent) :
    Served server delivered (given (finished codec server).1)
      (finished codec server).2 := by
  rw [Server.finished]
  fun_induction lookFrom codec server with
  | case1 server failure after runs => exact serving.look runs
  | case2 server taken after runs =>
      cases taken <;> exact serving.look runs
  | case3 server after runs inductionHypothesis =>
      have looked := serving.look runs
      have still : Serving after delivered := by
        simpa [Look.given] using looked.1
      exact ⟨(inductionHypothesis still).1,
        looked.2.trans (inductionHypothesis still).2⟩

theorem Serving.readFrame
    (serving : Serving server delivered) :
    Served server delivered [] (readFrame server).2 := by
  rw [Server.readFrame, get_bind_apply]
  split
  · exact ⟨serving.append_nil rfl, .refl⟩
  · exact serving.served_of_moves (moves_pump serving.parted.sound.waits)

theorem Serving.await
    (serving : Serving server delivered)
    {outcome : Except NetError (Option (Option (Nat × Request)))}
    {after : Server}
    (runs : await codec server = (outcome, after)) :
    Served server delivered
      (given (outcome.map fun taken => taken.getD none)) after := by
  have looked := serving.finished codec
  rw [Server.await, bind_apply] at runs
  split at runs
  next taken middle finds =>
    rw [finds] at looked
    cases taken with
    | some request =>
        cases runs
        exact looked
    | none =>
        have still : Serving middle delivered := by
          simpa [given] using looked.1
        have read := still.readFrame
        simp only [bind_apply] at runs
        split at runs
        next more last reads =>
          rw [reads] at read
          cases runs
          cases more <;> exact ⟨read.1, looked.2.trans read.2⟩
        next failure last reads =>
          rw [reads] at read
          cases runs
          exact ⟨read.1, looked.2.trans read.2⟩
  next failure middle finds =>
    rw [finds] at looked
    cases runs
    exact looked

theorem Serving.nextRequest
    (serving : Serving server delivered)
    (codec : Percent) :
    Served server delivered (given (nextRequest codec server).1)
      (nextRequest codec server).2 := by
  rw [Server.nextRequest]
  fun_induction awaitFrom codec server with
  | case1 server failure after runs => exact serving.await runs
  | case2 server taken after runs => exact serving.await runs
  | case3 server after runs inductionHypothesis =>
      have waited := serving.await runs
      have still : Serving after delivered := by
        simpa [given, Except.map] using waited.1
      exact ⟨(inductionHypothesis still).1,
        waited.2.trans (inductionHypothesis still).2⟩

theorem Serving.respond
    (serving : Serving server delivered)
    (id : Nat)
    (response : Response) :
    Served server delivered [] (respond id response server).2 := by
  by_cases waiting : id ∈ server.answering
  · have moves := moves_answer serving.parted.sound.waits
      (serving.kept id waiting) response
    rw [respond_of_waiting waiting]
    exact ⟨((serving.steps moves).letGo id).append_nil rfl,
      moves.turns.tail (turn_remove _ id)⟩
  · rw [respond_of_unknown waiting]
    exact ⟨serving.append_nil rfl, .refl⟩

theorem Serving.goAway
    (serving : Serving server delivered) :
    Served server delivered [] (goAway server).2 :=
  serving.served_of_moves (moves_goAway _ _ _)

theorem moves_drain
    {connection : Connection}
    (waits : Waits connection.core)
    (limit : Nat) :
    Moves (drain limit) connection := by
  induction limit generalizing connection with
  | zero => exact .refl
  | succ limit inductionHypothesis =>
      have moves := moves_pump waits
      refine moves_bind moves ?_
      rintro read after ⟨⟩
      rcases (pump connection).1 with _ | more
      · exact .refl
      · cases more with
        | true => exact inductionHypothesis (Steps.waits moves waits)
        | false => exact .refl

theorem steps_sayGoodbye (server : Server) :
    Steps server.connection.core (sayGoodbye server).2.connection.core ∧
      (sayGoodbye server).2.answering = server.answering := by
  rw [sayGoodbye, get_bind_apply]
  split
  · exact ⟨.refl, rfl⟩
  · exact ⟨moves_goAway _ _ _, rfl⟩

/-- Closing moves the core by steps. -/
theorem steps_close
    (waits : Waits server.connection.core) :
    Steps server.connection.core (close server).2.connection.core ∧
      (close server).2.answering = server.answering := by
  obtain ⟨steps, same⟩ := steps_sayGoodbye server
  rw [close, bind_apply]
  split
  next after runs =>
    rw [runs] at steps same
    exact ⟨steps.trans (moves_drain (steps.waits waits) drainLimit), same⟩
  next failure after runs =>
    rw [runs] at steps same
    exact ⟨steps, same⟩

theorem Serving.close
    (serving : Serving server delivered) :
    Served server delivered [] (close server).2 := by
  obtain ⟨steps, same⟩ := steps_close serving.parted.sound.waits
  have still := serving.steps steps
  rw [← same] at still
  exact ⟨still.append_nil rfl, steps.turns⟩

end Calls

end Server
end Http2
end XmipNet

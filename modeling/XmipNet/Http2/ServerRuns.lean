import XmipNet.Http2.Serving

/-!
# Whole runs of a server

A run is a handshake and then any calls in any order, over a connection
underneath that does anything: it gives the requests the calls gave and the
server after them. Every request is given once and whole, every other answer is
refused, and what the server's `GOAWAY`s promise is kept as far as it is.
-/

namespace XmipNet
namespace Http2

open Hpack (Field)
open Http (Request Response)

namespace Server

open Core Connection
open Fallible (bind_apply get_bind_apply)

/-- A call of a server. -/
inductive Ask
  | readFrame
  | finished
  | nextRequest
  | respond (id : Nat) (response : Response)
  | goAway
  | close

/-- One call made: the request it gave, if it gave one, and the server after
it. -/
def perform (codec : Percent) (server : Server) :
    Ask → List (Nat × Request) × Server
  | .readFrame => ([], (readFrame server).2)
  | .finished =>
      (given (finished codec server).1, (finished codec server).2)
  | .nextRequest =>
      (given (nextRequest codec server).1, (nextRequest codec server).2)
  | .respond id response => ([], (respond id response server).2)
  | .goAway => ([], (goAway server).2)
  | .close => ([], (close server).2)

/-- Calls made one after another: the requests they gave, in order, and the
server after them. -/
def run (codec : Percent) : Server → List Ask → List (Nat × Request) × Server
  | server, [] => ([], server)
  | server, ask :: rest =>
      let (given, after) := perform codec server ask
      let (more, last) := run codec after rest
      (given ++ more, last)

theorem run_append
    (codec : Percent)
    (server : Server)
    (asks more : List Ask) :
    run codec server (asks ++ more) =
      ((run codec server asks).1 ++ (run codec (run codec server asks).2 more).1,
        (run codec (run codec server asks).2 more).2) := by
  induction asks generalizing server with
  | nil => rfl
  | cons ask rest inductionHypothesis =>
      simp only [List.cons_append, run, inductionHypothesis,
        List.append_assoc]

/-- A server whose handshake went well serves. -/
theorem serving_of_handshake
    {wire : Wire}
    {server : Server}
    (opens : handshake wire = .ok server) :
    Serving server [] := by
  rw [handshake] at opens
  split at opens
  · cases opens
  next opening after reads =>
    split at opens
    · cases opens
    · cases starts : Connection.start after false with
      | error failure =>
          rw [starts] at opens
          cases opens
      | ok connection =>
          rw [starts] at opens
          cases opens
          have steps := steps_start starts
          exact
            { serves := steps.client
              parted := steps.turns.parted (parted_initial after false)
              kept := fun _ waits => absurd waits (Finset.notMem_empty _)
              named := fun _ waits => absurd waits (Finset.notMem_empty _)
              once := List.nodup_nil
              reached := fun _ member => by cases member
              waiting := fun _ member => by cases member }

theorem Serving.perform
    {server : Server}
    {delivered : List Nat}
    (serving : Serving server delivered)
    (codec : Percent)
    (ask : Ask) :
    Served server delivered (perform codec server ask).1
      (perform codec server ask).2 := by
  cases ask with
  | readFrame => exact serving.readFrame
  | finished => exact serving.finished codec
  | nextRequest => exact serving.nextRequest codec
  | respond id response => exact serving.respond id response
  | goAway => exact serving.goAway
  | close => exact serving.close

theorem Serving.run
    {server : Server}
    {delivered : List Nat}
    (serving : Serving server delivered)
    (codec : Percent)
    (asks : List Ask) :
    Served server delivered (run codec server asks).1
      (run codec server asks).2 := by
  induction asks generalizing server delivered with
  | nil => exact ⟨serving.append_nil rfl, .refl⟩
  | cons ask rest inductionHypothesis =>
      have performed := serving.perform codec ask
      exact performed.trans (inductionHypothesis performed.1)

section Runs

variable {codec : Percent} {wire : Wire} {server : Server}

/-- A run from a handshake serves, and has turned from where it started. -/
theorem served_of_handshake
    (codec : Percent)
    (opens : handshake wire = .ok server)
    (asks : List Ask) :
    Serving (run codec server asks).2
      ((run codec server asks).1.map Prod.fst) := by
  have served := (serving_of_handshake opens).run codec asks
  simpa using served.1

/-! ## Farewells -/

/-- Over every run the `GOAWAY`s of a server are honest, never naming more than
one before and none a stream that was passed over, exactly where none comes
after a block that was passed over. -/
theorem honest_iff_final
    (opens : handshake wire = .ok server)
    (asks : List Ask) :
    Event.Honest (run codec server asks).2.connection.events ↔
      Event.Final (run codec server asks).2.connection.events :=
  (served_of_handshake codec opens asks).parted.farewells.honest_iff

end Runs

/-- What is so of the server a handshake gives, decided by running it. -/
theorem exists_of_handshake
    {wire : Wire}
    {holds : Server → Bool}
    (checks : ((handshake wire).toOption.map holds) = some true) :
    ∃ server, handshake wire = .ok server ∧ holds server = true := by
  cases opens : handshake wire with
  | error failure =>
      rw [opens] at checks
      cases checks
  | ok server =>
      rw [opens] at checks
      exact ⟨server, rfl, Option.some.inj checks⟩

/-- A client that opens a stream after the server's `GOAWAY` and then breaches
the connection with a `PING` of one octet. -/
def lateWire : Wire where
  incoming := [.octets (preface ++
    (⟨.settings, 0, 0, []⟩ : Frame).encode ++
    (⟨.headers, endStream ||| endHeaders, 1, [0x82]⟩ : Frame).encode ++
    (⟨.ping, 0, 0, [0]⟩ : Frame).encode)]
  accepts := []
  written := []

/-- Read the client's settings, go away, and read on. -/
def lateAsks : List Ask :=
  [.readFrame, .goAway, .readFrame, .readFrame]

/-- The second `GOAWAY` names the stream the first had left out and the server
passed over. -/
theorem not_honest_of_breach_after_goAway :
    ∃ server, handshake lateWire = .ok server ∧
      ¬Event.Honest (run .bare server lateAsks).2.connection.events := by
  obtain ⟨server, opens, named⟩ := exists_of_handshake
    (show (handshake lateWire).toOption.map (fun server => decide
      (Event.goodbyes (run .bare server lateAsks).2.connection.events =
        [0, 1])) = some true by decide +kernel)
  refine ⟨server, opens, fun honest => ?_⟩
  have falls := honest.lasts
  rw [of_decide_eq_true named] at falls
  exact absurd falls (by decide)

/-- A server that goes away, passes a stream over and reads nothing more keeps
its word. -/
theorem honest_iff_final_passed_over :
    ∃ server, handshake lateWire = .ok server ∧
      Event.passedOvers (run .bare server
        [.readFrame, .goAway, .readFrame]).2.connection.events = [1] ∧
      Event.Honest (run .bare server
        [.readFrame, .goAway, .readFrame]).2.connection.events := by
  obtain ⟨server, opens, checked⟩ := exists_of_handshake
    (show (handshake lateWire).toOption.map (fun server => decide
      (Event.passedOvers (run .bare server
          [.readFrame, .goAway, .readFrame]).2.connection.events = [1] ∧
        Event.Final (run .bare server
          [.readFrame, .goAway, .readFrame]).2.connection.events)) =
        some true by decide +kernel)
  obtain ⟨exceeds, final⟩ := of_decide_eq_true checked
  exact ⟨server, opens, exceeds, (honest_iff_final opens _).mpr final⟩

/-! ## Each request once and whole -/

/-- The request on `id` was given at `moment`: its record was there, closed to
the client and not reset, its head and body read as the request, and nothing has
happened since but that they were taken off. -/
structure Whole (codec : Percent) (moment after : Server) (id : Nat)
    (request : Request) (stream : Stream) (head : List Field) : Prop where
  found : moment.connection.streams[id]? = some stream
  live : stream.reset = none
  ended : stream.state.receiving = false
  headed : stream.head = some head
  reads : Message.requestOf codec head stream.body = .ok request
  untaken : id ∉ moment.answering
  after : after =
    { connection := moment.connection.setStream id (emptied stream)
      answering := insert id moment.answering }

section Deliveries

variable {codec : Percent} {server after : Server} {id : Nat}
  {request : Request}

theorem whole_of_look
    (runs : look codec server = (.ok (.settled (some (id, request))), after)) :
    ∃ stream head, Whole codec server after id request stream head := by
  cases looked_of_look runs with
  | @request _ stream head _ first headed reads =>
      obtain ⟨found, finished, unanswered⟩ := found_of_ready first
      obtain ⟨live, heads⟩ := live_of_takenHead headed
      exact ⟨stream, head, found, live, shut_of_finished finished live, heads,
        reads, unanswered, rfl⟩

theorem whole_of_finished
    (runs : finished codec server = (.ok (some (id, request)), after)) :
    ∃ moment stream head, Whole codec moment after id request stream head := by
  rw [finished] at runs
  fun_induction lookFrom codec server with
  | case1 server failure middle looks => cases runs
  | case2 server taken middle looks =>
      cases runs
      exact ⟨server, whole_of_look looks⟩
  | case3 server middle looks inductionHypothesis =>
      exact inductionHypothesis runs

theorem whole_of_nextRequest
    (runs : nextRequest codec server = (.ok (some (id, request)), after)) :
    ∃ moment stream head, Whole codec moment after id request stream head := by
  rw [nextRequest] at runs
  fun_induction awaitFrom codec server with
  | case1 server failure middle waits => cases runs
  | case2 server taken middle waits =>
      cases runs
      rw [await, bind_apply] at waits
      split at waits
      next looked middle finds =>
        cases looked with
        | some found =>
            cases waits
            exact whole_of_finished finds
        | none =>
            simp only [bind_apply] at waits
            split at waits
            next more last reads =>
              cases more <;> cases waits
            · cases waits
      · cases waits
  | case3 server middle waits inductionHypothesis =>
      exact inductionHypothesis runs

theorem eq_of_given
    {outcome : Except NetError (Option (Nat × Request))}
    {taken : Nat × Request}
    (gives : taken ∈ given outcome) :
    outcome = .ok (some taken) := by
  rcases outcome with failure | _ | other
  · cases gives
  · cases gives
  · rw [List.mem_singleton.mp gives]

/-- A call that gives a request gives it whole. -/
theorem whole_of_perform
    {ask : Ask}
    (gives : (id, request) ∈ (perform codec server ask).1) :
    ∃ moment stream head,
      Whole codec moment (perform codec server ask).2 id request stream head := by
  cases ask with
  | finished => exact whole_of_finished (Prod.ext (eq_of_given gives) rfl)
  | nextRequest =>
      exact whole_of_nextRequest (Prod.ext (eq_of_given gives) rfl)
  | readFrame => cases gives
  | respond => cases gives
  | goAway => cases gives
  | close => cases gives

end Deliveries

/-- At most `limit` looks, and none where there would be more. -/
def lookWithin (codec : Percent) :
    Nat → Server → Option (Except NetError (Option (Nat × Request)) × Server)
  | 0, _ => none
  | limit + 1, server =>
      match look codec server with
      | (.error failure, after) => some (.error failure, after)
      | (.ok (.settled taken), after) => some (.ok taken, after)
      | (.ok .again, after) => lookWithin codec limit after

/-- A call of `finished` makes at most one look more than there are records. -/
theorem lookWithin_eq_finished
    {codec : Percent}
    {server : Server}
    {limit : Nat}
    (enough : server.connection.streams.size < limit) :
    lookWithin codec limit server = some (finished codec server) := by
  rw [finished]
  fun_induction lookFrom codec server generalizing limit with
  | case1 server failure after looks =>
      obtain ⟨limit, rfl⟩ := Nat.exists_eq_add_one_of_ne_zero
        (Nat.ne_of_gt (Nat.zero_lt_of_lt enough))
      rw [lookWithin, looks]
  | case2 server taken after looks =>
      obtain ⟨limit, rfl⟩ := Nat.exists_eq_add_one_of_ne_zero
        (Nat.ne_of_gt (Nat.zero_lt_of_lt enough))
      rw [lookWithin, looks]
  | case3 server after looks inductionHypothesis =>
      obtain ⟨limit, rfl⟩ := Nat.exists_eq_add_one_of_ne_zero
        (Nat.ne_of_gt (Nat.zero_lt_of_lt enough))
      have smaller := size_of_look looks
      rw [lookWithin, looks]
      exact inductionHypothesis (by omega)

/-- A stream that was delivered and no longer waits is never answered again. -/
theorem unanswered_of_delivered
    {codec : Percent}
    {server : Server}
    {delivered : List Nat}
    (serving : Serving server delivered)
    {id : Nat}
    (member : id ∈ delivered)
    (unanswered : id ∉ server.answering)
    (asks : List Ask) :
    id ∉ (run codec server asks).2.answering := by
  have served := serving.run codec asks
  have absent : server.connection.streams[id]? = none := by
    cases found : server.connection.streams[id]? with
    | none => rfl
    | some stream =>
        exact absurd (serving.waiting id member stream found) unanswered
  have gone := served.2.absent_of_reached serving.serves
    (serving.reached id member) absent
  intro waits
  obtain ⟨stream, found, _⟩ := served.1.kept id waits
  rw [gone] at found
  cases found

theorem unanswered_of_respond
    {server : Server}
    (id : Nat)
    (response : Response) :
    id ∉ (respond id response server).2.answering := by
  by_cases waiting : id ∈ server.answering
  · rw [respond_of_waiting waiting]
    exact Finset.notMem_erase id _
  · rw [respond_of_unknown waiting]
    exact waiting

/-- An answer was already asked for on `id` since the request on it was
given. -/
def Answered (codec : Percent) (server : Server) (asks : List Ask)
    (id : Nat) : Prop :=
  ∃ earlier response later, asks = earlier ++ .respond id response :: later ∧
    id ∈ (run codec server earlier).1.map Prod.fst

theorem unanswered_of_answered
    {codec : Percent}
    {server : Server}
    {delivered : List Nat}
    (serving : Serving server delivered)
    {asks : List Ask}
    {id : Nat}
    (answered : Answered codec server asks id) :
    id ∉ (run codec server asks).2.answering := by
  obtain ⟨earlier, response, later, rfl, member⟩ := answered
  have before := serving.run codec earlier
  have responded := before.1.respond id response
  rw [run_append]
  refine unanswered_of_delivered responded.1 ?_
    (unanswered_of_respond id response) later
  exact List.mem_append_left _ (List.mem_append_right _ member)

/-- Over every run: each stream is given at most once, every stream that waits
for an answer has its record, a request is given only whole and ended by the
client, an answer where none waits is refused and changes nothing, whether the
stream was never given or has been answered before, and a call of `finished`
ends. -/
theorem requests_delivered_once
    (codec : Percent)
    {wire : Wire}
    {server : Server}
    (opens : handshake wire = .ok server)
    (asks : List Ask) :
    let given := (run codec server asks).1.map Prod.fst
    let now := (run codec server asks).2
    given.Nodup ∧
      (∀ id ∈ now.answering, ∃ stream,
        now.connection.streams[id]? = some stream) ∧
      (∀ ask id request, (id, request) ∈ (perform codec now ask).1 →
        ∃ moment stream head,
          Whole codec moment (perform codec now ask).2 id request stream head ∧
          Event.EndSeen moment.connection.events id) ∧
      (∀ id response, id ∉ given ∨ Answered codec server asks id →
        respond id response now =
          (.error (.new s!"no request waits on stream {id}"), now)) ∧
      lookWithin codec (now.connection.streams.size + 1) now =
        some (finished codec now) := by
  have serving := served_of_handshake codec opens asks
  refine ⟨serving.once, ?_, ?_, ?_, ?_⟩
  · intro id waits
    obtain ⟨stream, found, _⟩ := serving.kept id waits
    exact ⟨stream, found⟩
  · intro ask id request gives
    obtain ⟨moment, stream, head, whole⟩ := whole_of_perform gives
    have served := serving.perform codec ask
    rw [whole.after] at served
    exact ⟨moment, stream, head, whole,
      served.1.parted.sound.ends id (emptied stream)
        (NatMap.getElem?_insert_self _ _) whole.live whole.ended⟩
  · intro id response refused
    refine respond_of_unknown ?_ response
    rcases refused with never | answered
    · exact fun waits => never (serving.named id waits)
    · exact unanswered_of_answered (serving_of_handshake opens) answered
  · exact lookWithin_eq_finished (Nat.lt_succ_self _)

/-- A client that asks for `/` on stream 1. -/
def askingWire : Wire where
  incoming := [.octets (preface ++
    (⟨.settings, 0, 0, []⟩ : Frame).encode ++
    (⟨.headers, endStream ||| endHeaders, 1, [0x82, 0x86, 0x84]⟩ :
      Frame).encode)]
  accepts := []
  written := []

/-- An answer without headers or body. -/
def emptyAnswer : Response where
  status := 200
  reason := "OK"
  headers := []
  body := []
  trailers := []

/-- The request is given once, and a second answer to it is refused. -/
theorem requests_delivered_once_answered_twice :
    ∃ server, handshake askingWire = .ok server ∧
      let now := (run .bare server [.nextRequest, .respond 1 emptyAnswer]).2
      1 ∈ (run .bare server [.nextRequest]).1.map Prod.fst ∧
        respond 1 emptyAnswer now =
          (.error (.new "no request waits on stream 1"), now) := by
  obtain ⟨server, opens, checked⟩ := exists_of_handshake
    (show (handshake askingWire).toOption.map (fun server => decide
      (1 ∈ (run .bare server [.nextRequest]).1.map Prod.fst)) =
        some true by decide +kernel)
  have gives := of_decide_eq_true checked
  refine ⟨server, opens, gives, ?_⟩
  obtain ⟨_, _, _, refused, _⟩ := requests_delivered_once .bare opens
    [.nextRequest, .respond 1 emptyAnswer]
  exact refused 1 emptyAnswer
    (Or.inr ⟨[.nextRequest], emptyAnswer, [], rfl, gives⟩)

end Server
end Http2
end XmipNet

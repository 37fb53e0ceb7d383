import XmipNet.Http2.ClientRuns
import XmipNet.Http2.ServerRuns

/-!
# Every run of either side, stride by stride

A run of a client or of a server is made of the beats of its connection and of
what the side above does with the records: it opens a stream, takes a head and a
body off, or removes a record. A connection that is reached so, at any point of
a run and not only between two calls, is what the results about whole runs are
about.
-/

namespace XmipNet
namespace Http2

open Hpack (Field)
open Http (Request Response)

namespace Connection

open Core

/-- A beat, or what the side above does. -/
inductive Stride : Connection → Connection → Prop
  | beat {connection after : Connection}
      (beat : Beat connection after) :
      Stride connection after
  /-- A finished stream's head and body were taken off. -/
  | emptied {connection : Connection} {id : Nat} {stream : Stream}
      (found : connection.streams[id]? = some stream)
      (done : stream.finished = true) :
      Stride connection (connection.setStream id (untaken stream))
  /-- A record was removed. -/
  | removed (connection : Connection) (id : Nat) :
      Stride connection (connection.remove id)
  /-- A client opened a stream. -/
  | opened {connection : Connection} {id : Nat}
      (asClient : connection.client = true)
      (fresh : connection.highest < id) :
      Stride connection (connection.openStream id)

/-- Any number of strides. -/
abbrev Strides : Connection → Connection → Prop :=
  Relation.ReflTransGen Stride

theorem Beats.strides
    {connection after : Connection}
    (beats : Beats connection after) :
    Strides connection after :=
  Relation.ReflTransGen.mono (fun _ _ => Stride.beat) connection after beats

/-- A stride is a turn of the core. -/
theorem Stride.turns
    {connection after : Connection}
    (stride : Stride connection after)
    (waits : Waits connection.core) :
    Turns connection.core after.core := by
  cases stride with
  | beat beat => exact (beat.steps waits).turns
  | emptied found done => exact .single (.taken _ (thinned_untaken found))
  | removed id => exact .single (.taken _ (thinned_erase _ id))
  | opened asClient fresh => exact .single (.opened _ asClient fresh)

/-- A connection of a client or of a server at some point of some run. -/
def Reached (client : Bool) (connection : Connection) : Prop :=
  ∃ wire, Strides (initial wire client) connection

theorem Strides.turns
    {connection after : Connection}
    (strides : Strides connection after)
    (sound : Sound connection.core) :
    Turns connection.core after.core := by
  induction strides with
  | refl => exact .refl
  | tail _ stride inductionHypothesis =>
      exact inductionHypothesis.trans
        (stride.turns (inductionHypothesis.sound sound).waits)

theorem Reached.turns
    {client : Bool}
    {connection : Connection}
    (reached : Reached client connection) :
    ∃ wire, Turns (initial wire client).core connection.core := by
  obtain ⟨wire, strides⟩ := reached
  exact ⟨wire, Strides.turns strides (sound_initial wire client)⟩

theorem Reached.sound
    {client : Bool}
    {connection : Connection}
    (reached : Reached client connection) :
    Sound connection.core := by
  obtain ⟨wire, turns⟩ := reached.turns
  exact turns.sound (sound_initial wire client)

theorem Reached.client
    {client : Bool}
    {connection : Connection}
    (reached : Reached client connection) :
    connection.client = client := by
  obtain ⟨wire, turns⟩ := reached.turns
  exact turns.client

theorem Reached.strides
    {client : Bool}
    {connection after : Connection}
    (reached : Reached client connection)
    (strides : Strides connection after) :
    Reached client after := by
  obtain ⟨wire, before⟩ := reached
  exact ⟨wire, before.trans strides⟩

/-- What a connection starts with and every stride keeps, as long as the
connection is not ended over a breach, holds wherever a run has come. -/
theorem Reached.invariant
    {motive : Connection → Prop}
    {client : Bool}
    (starts : ∀ wire, motive (initial wire client))
    (keeps : ∀ {connection after : Connection}, Reached client connection →
      Stride connection after → Event.Unbreached after.events →
        motive connection → motive after)
    {connection : Connection}
    (reached : Reached client connection)
    (unbreached : Event.Unbreached connection.events) :
    motive connection := by
  obtain ⟨wire, strides⟩ := reached
  induction strides with
  | refl => exact starts wire
  | @tail middle after before stride inductionHypothesis =>
      have reached : Reached client middle := ⟨wire, before⟩
      have shorter := (stride.turns reached.sound.waits).events
      exact keeps reached stride unbreached
        (inductionHypothesis (unbreached.of_prefix shorter))

theorem reached_of_start
    {wire : Wire}
    {client : Bool}
    {connection : Connection}
    (starts : start wire client = .ok connection) :
    Reached client connection :=
  ⟨wire, (beats_start starts).strides⟩

end Connection

/-! ## A client's runs -/

namespace Client

open Core Connection

theorem reached_of_handshake
    {wire : Wire}
    {scheme : String}
    {client : Client}
    (opens : handshake wire scheme = .ok client) :
    Reached true client.connection := by
  rw [handshake] at opens
  cases starts : Connection.start wire true with
  | error failure =>
      rw [starts] at opens
      cases opens
  | ok connection =>
      rw [starts] at opens
      cases opens
      exact reached_of_start starts

section Strides

variable {client : Client}

theorem Asking.strides_send
    (asking : Asking client)
    (codec : Percent)
    (request : Request) :
    Strides client.connection
      (Client.send codec request client).2.connection := by
  cases away : client.connection.goaway with
  | some departure =>
      rw [send_of_goaway away]
  | none =>
      by_cases free : client.next ≤ maxStreamId
      · obtain ⟨reached, beats, ends⟩ := beats_exchange asking.sound
          asking.fresh (Message.requestFields codec client.scheme request)
          request.body
        have strides : Strides client.connection reached :=
          .head (.opened asking.asClient asking.fresh) beats.strides
        rw [send_of_free away free]
        rcases ends with ends | ends
        · rw [ends]
          exact strides
        · rw [ends]
          exact strides.tail (.removed reached client.next)
      · rw [send_of_spent away (not_le.mp free)]

theorem Asking.strides
    (asking : Asking client)
    (codec : Percent)
    (ask : Ask) :
    Strides client.connection (Client.perform codec client ask).connection := by
  cases ask with
  | send request => exact asking.strides_send codec request
  | ping => exact Beats.strides (plays_ping _ client.connection)
  | close => exact .single (.beat (.leaving client.connection .noError ""))

/-- Wherever a client's run has come, its connection is reached. -/
theorem reached_run
    {wire : Wire}
    {scheme : String}
    (codec : Percent)
    (opens : handshake wire scheme = .ok client)
    (asks : List Ask) :
    Reached true (run codec client asks).connection := by
  have reached := reached_of_handshake opens
  have asking := asking_of_handshake opens
  clear opens
  induction asks generalizing client with
  | nil => exact reached
  | cons ask rest inductionHypothesis =>
      exact inductionHypothesis (reached.strides (asking.strides codec ask))
        (asking.perform codec ask).1

end Strides

end Client

/-! ## A server's runs -/

namespace Server

open Core Connection
open Fallible (bind_apply get_bind_apply)

theorem reached_of_handshake
    {wire : Wire}
    {server : Server}
    (opens : handshake wire = .ok server) :
    Reached false server.connection := by
  rw [handshake] at opens
  split at opens
  · cases opens
  next opening after reads =>
    split at opens
    · cases opens
    · cases starts : Connection.start after false with
      | error failure =>
          rw [starts] at opens
          cases opens
      | ok connection =>
          rw [starts] at opens
          cases opens
          exact reached_of_start starts

section Strides

variable {codec : Percent} {server after : Server} {delivered : List Nat}

/-- Ending a stream whose head and body were taken off is a beat. -/
theorem Serving.beat_spoil
    (serving : Serving server delivered)
    {id : Nat}
    {stream : Stream}
    (found : server.connection.streams[id]? = some stream)
    {code : ErrorCode}
    {reset : Connection}
    {outcome : Except NetError Unit}
    (resets : Connection.reset id code
      (server.connection.setStream id (emptied stream)) = (outcome, reset)) :
    Beat (server.connection.setStream id (emptied stream)) reset := by
  have taken := serving.untaken found
  have settled := taken.parted.sound.placed.settled taken.serves id
    (emptied stream) (NatMap.getElem?_insert_self _ _)
  have beat : Beat (server.connection.setStream id (emptied stream))
      (Connection.reset id code
        (server.connection.setStream id (emptied stream))).2 :=
    .ended id settled (fun asClient => by cases taken.serves.symm.trans asClient)
  rwa [resets] at beat

theorem Serving.strides_look
    (serving : Serving server delivered)
    {outcome : Except NetError Look}
    (runs : Server.look codec server = (outcome, after)) :
    Strides server.connection after.connection := by
  cases looked_of_look runs with
  | nothing nothing => exact .refl
  | @headless id stream first headless =>
      obtain ⟨found, finished, _⟩ := found_of_ready first
      exact (Relation.ReflTransGen.single (.emptied found finished)).tail
        (.removed _ id)
  | request first headed reads =>
      obtain ⟨found, finished, _⟩ := found_of_ready first
      exact .single (.emptied found finished)
  | @malformed id stream head malformed reset first headed fails resets =>
      obtain ⟨found, finished, _⟩ := found_of_ready first
      exact ((Relation.ReflTransGen.single (.emptied found finished)).tail
        (.beat (serving.beat_spoil found resets))).tail (.removed _ id)
  | lost first headed fails resets =>
      obtain ⟨found, finished, _⟩ := found_of_ready first
      exact (Relation.ReflTransGen.single (.emptied found finished)).tail
        (.beat (serving.beat_spoil found resets))

theorem Serving.strides_finished
    (serving : Serving server delivered)
    (codec : Percent) :
    Strides server.connection (Server.finished codec server).2.connection := by
  rw [Server.finished]
  fun_induction lookFrom codec server with
  | case1 server failure after runs => exact serving.strides_look runs
  | case2 server taken after runs => exact serving.strides_look runs
  | case3 server after runs inductionHypothesis =>
      have looked := serving.look runs
      have still : Serving after delivered := by
        simpa [Look.given] using looked.1
      exact (serving.strides_look runs).trans (inductionHypothesis still)

theorem strides_readFrame (server : Server) :
    Strides server.connection (readFrame server).2.connection := by
  rw [Server.readFrame, get_bind_apply]
  split
  · exact .refl
  · exact .single (.beat (.pumped server.connection))

theorem Serving.strides_await
    (serving : Serving server delivered)
    {outcome : Except NetError (Option (Option (Nat × Request)))}
    (runs : Server.await codec server = (outcome, after)) :
    Strides server.connection after.connection := by
  have looked := serving.strides_finished codec
  rw [Server.await, bind_apply] at runs
  split at runs
  next taken middle finds =>
    rw [finds] at looked
    cases taken with
    | some request =>
        cases runs
        exact looked
    | none =>
        have read := strides_readFrame middle
        simp only [bind_apply] at runs
        split at runs
        next more last reads =>
          rw [reads] at read
          cases runs
          exact looked.trans read
        next failure last reads =>
          rw [reads] at read
          cases runs
          exact looked.trans read
  next failure middle finds =>
    rw [finds] at looked
    cases runs
    exact looked

theorem Serving.strides_nextRequest
    (serving : Serving server delivered)
    (codec : Percent) :
    Strides server.connection
      (Server.nextRequest codec server).2.connection := by
  rw [Server.nextRequest]
  fun_induction awaitFrom codec server with
  | case1 server failure after runs => exact serving.strides_await runs
  | case2 server taken after runs => exact serving.strides_await runs
  | case3 server after runs inductionHypothesis =>
      have waited := serving.await runs
      have still : Serving after delivered := by
        simpa [given, Except.map] using waited.1
      exact (serving.strides_await runs).trans (inductionHypothesis still)

theorem Serving.strides_respond
    (serving : Serving server delivered)
    (id : Nat)
    (response : Response) :
    Strides server.connection
      (Server.respond id response server).2.connection := by
  by_cases waiting : id ∈ server.answering
  · have plays := plays_answer serving.parted.sound.waits
      (serving.kept id waiting) response
    rw [respond_of_waiting waiting]
    exact (Beats.strides plays).tail (.removed _ id)
  · rw [respond_of_unknown waiting]

theorem plays_drain
    (limit : Nat)
    (connection : Connection) :
    Plays (drain limit) connection := by
  induction limit generalizing connection with
  | zero => exact .refl
  | succ limit inductionHypothesis =>
      refine plays_bind (plays_pump connection) ?_
      rintro read after ⟨⟩
      rcases (pump connection).1 with _ | more
      · exact .refl
      · cases more with
        | true => exact inductionHypothesis _
        | false => exact .refl

theorem beats_sayGoodbye (server : Server) :
    Beats server.connection (sayGoodbye server).2.connection := by
  rw [sayGoodbye, get_bind_apply]
  split
  · exact .refl
  · exact .single (.leaving server.connection .noError "")

theorem strides_close (server : Server) :
    Strides server.connection (close server).2.connection := by
  have goodbye := beats_sayGoodbye server
  rw [close, bind_apply]
  split
  next after runs =>
    rw [runs] at goodbye
    have drained := plays_drain drainLimit after.connection
    exact Beats.strides (goodbye.trans drained)
  next failure after runs =>
    rw [runs] at goodbye
    exact goodbye.strides

theorem Serving.strides
    (serving : Serving server delivered)
    (codec : Percent)
    (ask : Ask) :
    Strides server.connection
      (Server.perform codec server ask).2.connection := by
  cases ask with
  | readFrame => exact strides_readFrame server
  | finished => exact serving.strides_finished codec
  | nextRequest => exact serving.strides_nextRequest codec
  | respond id response => exact serving.strides_respond id response
  | goAway => exact .single (.beat (.leaving server.connection .noError ""))
  | close => exact strides_close server

theorem Serving.strides_run
    (serving : Serving server delivered)
    (codec : Percent)
    (asks : List Ask) :
    Strides server.connection (Server.run codec server asks).2.connection := by
  induction asks generalizing server delivered with
  | nil => exact .refl
  | cons ask rest inductionHypothesis =>
      have performed := serving.perform codec ask
      exact (serving.strides codec ask).trans (inductionHypothesis performed.1)

/-- Wherever a server's run has come, its connection is reached. -/
theorem reached_run
    {wire : Wire}
    (codec : Percent)
    (opens : handshake wire = .ok server)
    (asks : List Ask) :
    Reached false (run codec server asks).2.connection :=
  (reached_of_handshake opens).strides
    ((serving_of_handshake opens).strides_run codec asks)

end Strides

end Server
end Http2
end XmipNet

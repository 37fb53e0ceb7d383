import XmipNet.Http2.Client
import XmipNet.Http2.Failures
import XmipNet.Http2.History
import XmipNet.Http2.Beats

/-!
# Whole runs of a client

A run is a handshake and then any calls in any order. A request that failed as
aborted may be sent again: it never reached the server, or the server has said
that it was not processed. That holds as long as the connection underneath does
not fail with that kind itself, and no longer.
-/

namespace XmipNet
namespace Http2

open Hpack (Field)
open Http (Request Response)

namespace Core

/-- Only this side opens streams on a client. -/
theorem Step.highest_of_client
    {core after : Core}
    (step : Step core after)
    (asClient : core.client = true) :
    after.highest = core.highest := by
  have peer : ∀ {id : Nat}, ¬Opens core id := by
    intro id opens
    have server := opens.server
    rw [asClient] at server
    cases server
  cases step with
  | opened opens => exact absurd opens peer
  | passedOver opens => exact absurd opens peer
  | refused opens => exact absurd opens peer
  | _ => rfl

theorem Steps.highest_of_client
    {core after : Core}
    (steps : Steps core after)
    (asClient : core.client = true) :
    after.highest = core.highest := by
  induction steps with
  | refl => rfl
  | tail moved step inductionHypothesis =>
      exact (step.highest_of_client
        ((Steps.client moved).trans asClient)).trans inductionHypothesis

end Core

namespace Connection

open Core Fallible

/-- What a client's connection keeps: its core is sound and the connection
underneath never fails as aborted. -/
structure Trusty (connection : Connection) : Prop where
  asClient : connection.client = true
  sound : Sound connection.core
  unaborted : connection.wire.Unaborted

/-- The server has said that `id` was not processed. -/
def Refused (id : Nat) (connection : Connection) : Prop :=
  Event.RefusalSeen connection.events id

section Trusty

variable {connection after : Connection} {id : Nat}

theorem Trusty.of_steps
    (trusty : Trusty connection)
    (steps : Steps connection.core after.core)
    (unaborted : after.wire.Unaborted) :
    Trusty after :=
  ⟨steps.client.trans trusty.asClient, steps.turns.sound trusty.sound, unaborted⟩

/-- A record marked as refused was refused. -/
theorem Trusty.refused
    (trusty : Trusty connection)
    {stream : Stream}
    (found : connection.streams[id]? = some stream)
    (reset : stream.reset = some .refusedStream) :
    Refused id connection :=
  trusty.sound.refusals trusty.asClient id stream found reset

theorem refused_io
    {code : ErrorCode}
    (aborted : (Connection.refused id code).io = some .connectionAborted) :
    code = .refusedStream := by
  by_contra other
  rw [Connection.refused, if_neg other] at aborted
  cases aborted

theorem Trusty.refused_of_openWindow
    (trusty : Trusty connection)
    {failure : NetError}
    (shut : connection.openWindow id = .error failure)
    (aborted : failure.io = some .connectionAborted) :
    Refused id connection := by
  rw [openWindow] at shut
  split at shut
  · cases shut
    cases aborted
  next stream found =>
    split at shut
    next code reset =>
      cases shut
      exact trusty.refused found (reset.trans (congrArg some (refused_io aborted)))
    · split at shut
      · cases shut
        cases aborted
      · cases shut

theorem blameless_lift
    {α : Type}
    {blame : Connection → Prop}
    (unaborted : connection.wire.Unaborted)
    (outcome : Except Violation α) :
    Blameless blame (lift (outcome.mapError Violation.toNetError)) connection := by
  cases outcome with
  | ok value => exact unaborted
  | error violation => exact blameless_fail unaborted rfl

theorem blameless_sendPiece
    {blame : Connection → Prop}
    (unaborted : connection.wire.Unaborted)
    (id : Nat)
    (ends : Bool)
    (rest : List UInt8)
    (most : Nat) :
    Blameless blame (sendPiece id ends rest most) connection := by
  refine blameless_bind (blameless_emit unaborted _) fun _ sent _ calm => ?_
  have takes : Blameless blame
      (takeSend (rest.take (min rest.length most)).length) sent := by
    refine blameless_bind calm fun _ current runs _ => ?_
    cases runs
    exact blameless_bind (blameless_lift calm _) fun _ _ runs still => still
  refine blameless_bind takes fun _ taken _ calm => ?_
  have takesStream : Blameless blame
      (takeStreamSend id (rest.take (min rest.length most)).length) taken := by
    refine blameless_bind calm fun _ current runs _ => ?_
    cases runs
    split
    · exact calm
    · exact blameless_bind (blameless_lift calm _) fun _ _ runs still => still
  exact blameless_bind takesStream fun _ _ _ still => still

theorem blameless_stall
    {blame : Connection → Prop}
    (unaborted : connection.wire.Unaborted) :
    Blameless blame stall connection := by
  refine blameless_bind unaborted fun _ counted runs _ => ?_
  cases runs
  refine blameless_bind (blameless_release (by exact unaborted))
    fun _ released _ calm => ?_
  refine blameless_bind (blameless_pump calm) fun more _ _ still => ?_
  split
  · exact still
  · exact blameless_fail still rfl

theorem Trusty.sendStep
    (trusty : Trusty connection)
    (id : Nat)
    (ends : Bool)
    (rest : List UInt8) :
    Blameless (Refused id) (sendStep id ends rest) connection := by
  rw [Blameless, Ensures, sendStep_apply]
  cases opens : connection.openWindow id with
  | error failure =>
      exact ⟨trusty.unaborted, trusty.refused_of_openWindow opens⟩
  | ok available =>
      simp only
      by_cases shut : min connection.remoteSettings.maxFrameSize available = 0 ∧
          rest ≠ []
      · rw [if_pos shut]
        exact blameless_bind (blameless_stall trusty.unaborted)
          fun _ _ _ still => still
      · rw [if_neg shut]
        exact blameless_sendPiece trusty.unaborted _ _ _ _

theorem Trusty.sendLoop
    (trusty : Trusty connection)
    (held : connection.held.isSome = true)
    {rest : List UInt8}
    (nonempty : rest ≠ [])
    (id : Nat)
    (ends : Bool) :
    Blameless (Refused id) (sendLoop id ends rest) connection := by
  rw [Blameless, Ensures, Connection.sendLoop]
  fun_induction sendFrom id ends rest connection with
  | case1 rest connection failure after runs =>
      exact (trusty.sendStep id ends rest).of_error runs
  | case2 rest connection after runs =>
      exact (trusty.sendStep id ends rest).of_ok runs
  | case3 rest connection later after runs inductionHypothesis =>
      have moved := ((plays_sendStep held nonempty id ends).of_eq runs).steps
        trusty.sound.waits
      have kept := (keeps_steady_sendStep id ends rest).of_eq runs
      exact inductionHypothesis
        (trusty.of_steps moved ((trusty.sendStep id ends rest).of_ok runs))
        ((held_of_steady kept).trans held)
        (nonempty_of_sendStep nonempty runs)

theorem blameless_emitPieces
    {blame : Connection → Prop}
    (unaborted : connection.wire.Unaborted)
    (id : Nat)
    (ends : Bool)
    (kind : Kind)
    (cut : List (List UInt8)) :
    Blameless blame (emitPieces id ends kind cut) connection := by
  induction cut generalizing kind connection with
  | nil => exact unaborted
  | cons piece rest inductionHypothesis =>
      exact blameless_bind (blameless_emit unaborted _)
        fun _ _ _ still => inductionHypothesis still .continuation

theorem blameless_sendHeaders
    {blame : Connection → Prop}
    (unaborted : connection.wire.Unaborted)
    (id : Nat)
    (fields : List Field)
    (ends : Bool) :
    Blameless blame (sendHeaders id fields ends) connection := by
  refine blameless_bind (by exact unaborted) fun _ encoded runs calm => ?_
  refine blameless_bind calm fun _ current runs still => ?_
  refine blameless_bind (blameless_emitPieces still _ _ _ _)
    fun _ sent _ done => ?_
  split
  · exact done
  · exact done

theorem blameless_pumpUntil
    {blame : Connection → Prop}
    (unaborted : connection.wire.Unaborted)
    (done : Connection → Bool) :
    Blameless blame (pumpUntil done) connection := by
  rw [Blameless, Ensures, pumpUntil]
  fun_induction pumpFrom done connection with
  | case1 connection met => exact unaborted
  | case2 connection unmet failure after reads =>
      exact (blameless_pump unaborted).of_error reads
  | case3 connection unmet after reads =>
      have calm : Blameless blame pump connection := blameless_pump unaborted
      exact calm.of_ok reads
  | case4 connection unmet after reads inductionHypothesis =>
      have calm : Blameless blame pump connection := blameless_pump unaborted
      exact inductionHypothesis (calm.of_ok reads)

theorem Trusty.sendData
    (trusty : Trusty connection)
    (held : connection.held.isSome = true)
    {body : List UInt8}
    (nonempty : body ≠ [])
    (id : Nat)
    (ends : Bool) :
    Blameless (Refused id) (sendData id body ends) connection := by
  refine blameless_bind (trusty.sendLoop held nonempty id ends)
    fun _ sent _ still => ?_
  split
  · exact still
  · exact still

/-- What is built together fails as what is built does, or as a write. -/
theorem blameless_together
    {α : Type}
    {build : Action α}
    (blameless : Blameless (Refused id) build
      { connection with held := some [] }) :
    Blameless (Refused id) (together build) connection := by
  have releases : ∀ {built : Connection}, built.wire.Unaborted →
      Blameless (Refused id) release built := blameless_release
  rw [Blameless, Ensures, together_apply]
  rcases runs : build { connection with held := some [] } with
    ⟨failure | value, built⟩
  · obtain ⟨calm, blames⟩ := blameless.of_error runs
    have events : (release built).2.events = built.events :=
      congrArg Core.events (keeps_core_release built)
    refine ⟨(releases calm).unaborted, fun aborted => ?_⟩
    have refused := blames aborted
    rw [Refused] at refused ⊢
    exact events ▸ refused
  · have calm := blameless.of_ok runs
    rcases ends : release built with ⟨failure | _, released⟩
    · have failed := (releases calm).of_error ends
      simp only [ends]
      exact failed
    · have done := (releases calm).of_ok ends
      simp only [ends]
      exact done

end Trusty

end Connection

namespace Client

open Core Connection Fallible

/-! ## One request -/

section Exchange

variable {connection after : Connection} {id : Nat}

theorem plays_sendRequest
    (held : connection.held.isSome = true)
    (unended : Unended connection id)
    (fields : List Field)
    (body : List UInt8) :
    Plays (sendRequest id fields body) connection := by
  refine plays_bind (plays_sendHeaders (fun _ => unended) fields) ?_
  intro _ headed heads
  have heldStill := (held_of_steady
    ((keeps_steady_sendHeaders _ _ _).of_eq heads)).trans held
  rw [sendBody]
  split
  · exact .refl
  next some => exact plays_sendData heldStill some id true

theorem blameless_sendRequest
    (trusty : Trusty connection)
    (held : connection.held.isSome = true)
    (unended : Unended connection id)
    (fields : List Field)
    (body : List UInt8) :
    Blameless (Refused id) (sendRequest id fields body) connection := by
  refine blameless_bind (blameless_sendHeaders trusty.unaborted _ _ _) ?_
  intro _ headed heads calm
  have moved := ((plays_sendHeaders (fun _ => unended) fields).of_eq heads).steps
    trusty.sound.waits
  have heldStill := (held_of_steady
    ((keeps_steady_sendHeaders _ _ _).of_eq heads)).trans held
  rw [sendBody]
  split
  · exact calm
  next some => exact (trusty.of_steps moved calm).sendData heldStill some id true

/-- An answer that is a failure marked as aborted is a refusal. -/
theorem refused_of_answerOf
    (trusty : Trusty connection)
    {failure : NetError}
    (fails : answerOf id connection.streams[id]? = .error failure)
    (aborted : failure.io = some .connectionAborted) :
    Refused id connection := by
  cases found : connection.streams[id]? with
  | none =>
      rw [found] at fails
      cases fails
      cases aborted
  | some stream =>
      rw [found, answerOf] at fails
      split at fails
      next code reset =>
        cases fails
        exact trusty.refused found
          (reset.trans (congrArg some (refused_io aborted)))
      · split at fails
        · cases fails
          cases aborted
        next head headed =>
          cases outcome : Message.responseOf head stream.body stream.trailers with
          | ok response =>
              rw [outcome] at fails
              cases fails
          | error violation =>
              rw [outcome] at fails
              cases fails
              cases aborted

/-- The wait for an answer, by how the reading ended. -/
theorem receiveAnswer_apply
    (id : Nat)
    (connection : Connection) :
    receiveAnswer id connection =
      match pumpUntil (answered id) connection with
      | (.error failure, read) => (.error failure, read)
      | (.ok true, read) => (answerOf id read.streams[id]?, read.remove id)
      | (.ok false, read) =>
          (.error (.new "the connection closed before the answer ended"),
            read.remove id) := by
  rw [receiveAnswer, bind_apply]
  rcases pumpUntil (answered id) connection with ⟨_ | whole, read⟩
  · rfl
  · cases whole <;> rfl

/-- The wait for an answer reads frames and, unless reading failed, takes the
record off. -/
theorem beats_receiveAnswer
    (id : Nat)
    (connection : Connection) :
    ∃ reached : Connection, Beats connection reached ∧
      ((receiveAnswer id connection).2 = reached ∨
        (receiveAnswer id connection).2 = reached.remove id) := by
  have plays := plays_pumpUntil (answered id) connection
  rw [receiveAnswer_apply]
  split
  next runs => exact ⟨_, plays.of_eq runs, Or.inl rfl⟩
  next runs => exact ⟨_, plays.of_eq runs, Or.inr rfl⟩
  next runs => exact ⟨_, plays.of_eq runs, Or.inr rfl⟩

theorem blameless_receiveAnswer
    (trusty : Trusty connection)
    (id : Nat) :
    Blameless (Refused id) (receiveAnswer id) connection := by
  refine blameless_bind (blameless_pumpUntil trusty.unaborted _) ?_
  intro whole read runs calm
  have moved := ((plays_pumpUntil _ connection).of_eq runs).steps
    trusty.sound.waits
  have still := trusty.of_steps moved calm
  refine blameless_bind calm fun current same current' _ => ?_
  cases current'
  refine blameless_bind (by exact calm) fun _ removed goes calm => ?_
  cases goes
  split
  · cases outcome : answerOf id read.streams[id]? with
    | ok response => exact calm
    | error failure =>
        have refused := refused_of_answerOf still outcome
        exact ⟨calm, fun aborted => refused aborted⟩
  · exact blameless_fail calm rfl

/-- A stream just opened is not ended by this side. -/
theorem unended_openStream
    (sound : Sound connection.core)
    (fresh : connection.highest < id) :
    Unended (connection.openStream id) id := by
  intro stream found ended
  have absent := sound.placed.absent_of_fresh fresh
  rcases found_of_openStream absent found with ⟨_, rfl⟩ | there
  · cases ended
  · rw [absent] at there
    cases there

theorem plays_together_sendRequest
    (unended : Unended connection id)
    (fields : List Field)
    (body : List UInt8) :
    Plays (together (sendRequest id fields body)) connection := by
  refine plays_together (plays_sendRequest ?_ ?_ fields body)
  · rfl
  · exact unended

/-- A request sent and answered opens a stream, plays and may take the record
off. -/
theorem beats_exchange
    (sound : Sound connection.core)
    (fresh : connection.highest < id)
    (fields : List Field)
    (body : List UInt8) :
    ∃ reached : Connection, Beats (connection.openStream id) reached ∧
      ((exchange id fields body connection).2 = reached ∨
        (exchange id fields body connection).2 = reached.remove id) := by
  have plays := plays_together_sendRequest (unended_openStream sound fresh)
    fields body
  rw [exchange, modify_bind_apply, bind_apply]
  split
  next sent runs =>
    obtain ⟨reached, beats, ends⟩ := beats_receiveAnswer id sent
    exact ⟨reached, (plays.of_eq runs).trans beats, ends⟩
  next failure sent runs => exact ⟨sent, plays.of_eq runs, Or.inl rfl⟩

theorem blameless_exchange
    (trusty : Trusty connection)
    (fresh : connection.highest < id)
    (fields : List Field)
    (body : List UInt8) :
    Blameless (Refused id) (exchange id fields body) connection := by
  have opens : Turn connection.core (connection.openStream id).core :=
    .opened _ trusty.asClient fresh
  have opened : Trusty (connection.openStream id) :=
    ⟨trusty.asClient, opens.sound trusty.sound, trusty.unaborted⟩
  have unended := unended_openStream trusty.sound fresh
  refine blameless_bind (by exact trusty.unaborted) fun _ ready runs _ => ?_
  cases runs
  have sends : Blameless (Refused id) (together (sendRequest id fields body))
      (connection.openStream id) := by
    refine blameless_together (blameless_sendRequest ?_ ?_ ?_ fields body)
    · exact ⟨opened.asClient, opened.sound, opened.unaborted⟩
    · rfl
    · exact unended
  refine blameless_bind (by exact sends) fun _ sent runs calm => ?_
  have moved := ((plays_together_sendRequest unended fields body).of_eq
    runs).steps opened.sound.waits
  exact blameless_receiveAnswer (opened.of_steps moved calm) id

end Exchange

/-! ## Every call -/

/-- What holds of a client between its calls. -/
structure Asking (client : Client) : Prop where
  asClient : client.connection.client = true
  sound : Sound client.connection.core
  fresh : client.connection.highest < client.next

/-- A call of a client. -/
inductive Ask
  | send (request : Request)
  | ping
  | close

/-- One call made. -/
def perform (codec : Percent) (client : Client) : Ask → Client
  | .send request => (send codec request client).2
  | .ping => (ping client).2
  | .close => (close client).2

/-- Calls made one after another. -/
def run (codec : Percent) (client : Client) (asks : List Ask) : Client :=
  asks.foldl (perform codec) client

section Calls

variable {codec : Percent} {client : Client}

/-- A send that goes ahead is an exchange on the next stream. -/
theorem send_of_goaway
    {last : Nat}
    {code : ErrorCode}
    (away : client.connection.goaway = some (last, code))
    (request : Request) :
    send codec request client = (.error (wentAway last code), client) := by
  rw [send, get_bind_apply]
  simp only [away]
  rfl

theorem send_of_spent
    (staying : client.connection.goaway = none)
    (spent : maxStreamId < client.next)
    (request : Request) :
    send codec request client =
      (.error (.new "the connection has used every stream it has"), client) := by
  rw [send, get_bind_apply]
  simp only [staying, if_pos spent]
  rfl

theorem send_of_free
    (staying : client.connection.goaway = none)
    (free : client.next ≤ maxStreamId)
    (request : Request) :
    send codec request client =
      ((exchange client.next (Message.requestFields codec client.scheme request)
          request.body client.connection).1,
        { client with
          connection := (exchange client.next
            (Message.requestFields codec client.scheme request) request.body
              client.connection).2
          next := client.next + 2 }) := by
  rw [send, get_bind_apply]
  simp only [staying, if_neg (not_lt.mpr free)]
  rfl

/-- Steps of the core keep what holds between calls. -/
theorem Asking.steps
    (asking : Asking client)
    {after : Connection}
    (steps : Steps client.connection.core after.core) :
    Asking { client with connection := after } where
  asClient := steps.client.trans asking.asClient
  sound := steps.turns.sound asking.sound
  fresh := by
    have same := steps.highest_of_client asking.asClient
    exact same.trans_lt asking.fresh

theorem Asking.send
    (asking : Asking client)
    (codec : Percent)
    (request : Request) :
    Asking (send codec request client).2 ∧
      Turns client.connection.core
        (send codec request client).2.connection.core := by
  cases away : client.connection.goaway with
  | some departure =>
      rw [send_of_goaway away]
      exact ⟨asking, .refl⟩
  | none =>
      by_cases free : client.next ≤ maxStreamId
      · rw [send_of_free away free]
        have opens : Turn client.connection.core
            (client.connection.openStream client.next).core :=
          .opened _ asking.asClient asking.fresh
        obtain ⟨reached, beats, ends⟩ := beats_exchange asking.sound asking.fresh
          (Message.requestFields codec client.scheme request) request.body
        have steps : Steps (client.connection.openStream client.next).core
            reached.core := beats.steps asking.sound.waits
        have turns : Turns client.connection.core reached.core :=
          .head opens steps.turns
        have removed : Turns client.connection.core
            (reached.remove client.next).core :=
          turns.tail (.taken _ (thinned_erase _ client.next))
        have highest : reached.highest =
            max client.connection.highest client.next :=
          steps.highest_of_client asking.asClient
        have below : reached.highest < client.next + 2 := by
          have fresh := asking.fresh
          omega
        rcases ends with ends | ends
        · rw [ends]
          exact ⟨⟨turns.client.trans asking.asClient,
            turns.sound asking.sound, below⟩, turns⟩
        · rw [ends]
          exact ⟨⟨turns.client.trans asking.asClient,
            removed.sound asking.sound, below⟩, removed⟩
      · rw [send_of_spent away (not_le.mp free)]
        exact ⟨asking, .refl⟩

theorem plain_ping
    (opaqueData : List UInt8)
    (acknowledges : Bool) :
    (Frame.ping opaqueData acknowledges).Plain :=
  ⟨Kind.noConfusion, Kind.noConfusion, Kind.noConfusion⟩

theorem plays_ping
    (opaqueData : List UInt8)
    (connection : Connection) :
    Plays (Connection.ping opaqueData) connection := by
  refine plays_bind (.single (.emitted connection (plain_ping _ _)
    Kind.noConfusion)) ?_
  intro _ sent _
  refine plays_bind (plays_pumpUntil _ sent) ?_
  intro back _ _
  cases back <;> exact .refl

theorem Asking.perform
    (asking : Asking client)
    (codec : Percent)
    (ask : Ask) :
    Asking (perform codec client ask) ∧
      Turns client.connection.core
        (perform codec client ask).connection.core := by
  cases ask with
  | send request => exact asking.send codec request
  | ping =>
      have moves := (plays_ping (BigEndian.write 8 client.next)
        client.connection).moves asking.sound.waits
      exact ⟨asking.steps moves, Steps.turns moves⟩
  | close =>
      have moves := moves_goAway .noError "" client.connection
      exact ⟨asking.steps moves, Steps.turns moves⟩

/-- Over every run a client keeps what holds between calls. -/
theorem Asking.run
    (asking : Asking client)
    (codec : Percent)
    (asks : List Ask) :
    Asking (run codec client asks) ∧
      Turns client.connection.core (run codec client asks).connection.core := by
  induction asks generalizing client with
  | nil => exact ⟨asking, .refl⟩
  | cons ask rest inductionHypothesis =>
      obtain ⟨performed, turns⟩ := asking.perform codec ask
      obtain ⟨done, more⟩ := inductionHypothesis performed
      exact ⟨done, turns.trans more⟩

theorem asking_of_handshake
    {wire : Wire}
    {scheme : String}
    (opens : handshake wire scheme = .ok client) :
    Asking client := by
  rw [handshake] at opens
  cases starts : Connection.start wire true with
  | error failure =>
      rw [starts] at opens
      cases opens
  | ok connection =>
      rw [starts] at opens
      cases opens
      have steps := steps_start starts
      exact
        { asClient := steps.client
          sound := steps.turns.sound (sound_initial wire true)
          fresh := (steps.highest_of_client rfl).trans_lt Nat.zero_lt_one }

end Calls

/-! ## What may be sent again -/

/-- Where sending `request` fails as aborted it was not processed: the server
had gone away before and nothing was written, or it has refused the stream or
gone away naming one below it. -/
def Safe (codec : Percent) (client : Client) (request : Request) : Prop :=
  ∀ failure, (send codec request client).1 = .error failure →
    failure.io = some .connectionAborted →
      (Event.AwaySeen client.connection.events ∧
        (send codec request client).2.connection.wire.written =
          client.connection.wire.written) ∨
      Event.RefusalSeen (send codec request client).2.connection.events
        client.next

section Safe

variable {codec : Percent} {client : Client}

theorem Asking.safe
    (asking : Asking client)
    (unaborted : client.connection.wire.Unaborted)
    (codec : Percent)
    (request : Request) :
    Safe codec client request ∧
      (Client.send codec request client).2.connection.wire.Unaborted := by
  cases away : client.connection.goaway with
  | some departure =>
      have seen := asking.sound.departed (by
        rw [show client.connection.core.goaway = some departure from away]
        exact Option.some_ne_none departure)
      refine ⟨fun failure _ _ => Or.inl ⟨seen, ?_⟩, ?_⟩
      · rw [send_of_goaway away]
      · rw [send_of_goaway away]
        exact unaborted
  | none =>
      by_cases free : client.next ≤ maxStreamId
      · have blameless := blameless_exchange
          ⟨asking.asClient, asking.sound, unaborted⟩ asking.fresh
          (Message.requestFields codec client.scheme request) request.body
        rw [Safe, send_of_free away free]
        refine ⟨fun failure fails aborted => Or.inr ?_, blameless.unaborted⟩
        exact (blameless.of_error (Prod.ext fails rfl)).2 aborted
      · rw [Safe, send_of_spent away (not_le.mp free)]
        refine ⟨fun failure fails aborted => ?_, unaborted⟩
        cases fails
        cases aborted

theorem Asking.unaborted_perform
    (asking : Asking client)
    (unaborted : client.connection.wire.Unaborted)
    (codec : Percent)
    (ask : Ask) :
    (Client.perform codec client ask).connection.wire.Unaborted := by
  cases ask with
  | send request => exact (asking.safe unaborted codec request).2
  | ping =>
      have pings : Blameless (fun _ => False)
          (Connection.ping (BigEndian.write 8 client.next))
          client.connection := by
        refine blameless_bind (blameless_emit unaborted _)
          fun _ sent _ calm => ?_
        refine blameless_bind (blameless_pumpUntil calm _)
          fun back _ _ still => ?_
        split
        · exact still
        · exact blameless_fail still rfl
      exact pings.unaborted
  | close => exact unaborted_of_emits (emits_goAway _ _) unaborted

theorem Asking.unaborted_run
    (asking : Asking client)
    (unaborted : client.connection.wire.Unaborted)
    (codec : Percent)
    (asks : List Ask) :
    (Client.run codec client asks).connection.wire.Unaborted := by
  induction asks generalizing client with
  | nil => exact unaborted
  | cons ask rest inductionHypothesis =>
      exact inductionHypothesis (asking.perform codec ask).1
        (asking.unaborted_perform unaborted codec ask)

theorem unaborted_of_handshake
    {wire : Wire}
    {scheme : String}
    (unaborted : wire.Unaborted)
    (opens : handshake wire scheme = .ok client) :
    client.connection.wire.Unaborted := by
  have starts : Blameless (fun _ => False) opening (initial wire true) := by
    refine blameless_bind (by exact blameless_writeAll unaborted _ _)
      fun _ opened _ calm => ?_
    refine blameless_bind calm fun _ current runs _ => ?_
    cases runs
    exact blameless_emit calm _
  rw [handshake, Connection.start] at opens
  split at opens
  next runs =>
    cases opens
    exact starts.of_ok runs
  · cases opens

/-- What is so of the client a handshake gives, decided by running it. -/
theorem exists_of_handshake
    {wire : Wire}
    {scheme : String}
    {holds : Client → Bool}
    (checks : ((handshake wire scheme).toOption.map holds) = some true) :
    ∃ client, handshake wire scheme = .ok client ∧ holds client = true := by
  cases opens : handshake wire scheme with
  | error failure =>
      rw [opens] at checks
      cases checks
  | ok client =>
      rw [opens] at checks
      exact ⟨client, rfl, Option.some.inj checks⟩

/-- A request for `/` without a body. -/
def plainRequest : Request where
  method := "GET"
  path := "/"
  query := []
  headers := []
  body := []

/-- A server that sends its settings, and then the connection underneath is
ended by its own side. -/
def endingWire : Wire where
  incoming := [.octets (⟨.settings, 0, 0, []⟩ : Frame).encode,
    .failed { kind := .connectionAborted, text := "ending" }]
  accepts := []
  written := []

/-- Whether the peer has sent nothing but its settings. -/
def onlySettings (events : List Event) : Bool :=
  events.all fun event =>
    match event with
    | .received frame => frame.kind = .settings
    | _ => true

theorem kind_of_onlySettings
    {events : List Event}
    (only : onlySettings events = true)
    {frame : Frame}
    (arrived : .received frame ∈ events) :
    frame.kind = .settings :=
  of_decide_eq_true (List.all_eq_true.mp only _ arrived)

/-- A peer that has sent nothing but its settings has refused nothing. -/
theorem not_refusalSeen_of_onlySettings
    {events : List Event}
    (only : onlySettings events = true)
    (id : Nat) :
    ¬Event.RefusalSeen events id := by
  rintro (⟨frame, _, arrived, kind, _⟩ | ⟨frame, _, arrived, kind, _⟩)
  · cases kind.symm.trans (kind_of_onlySettings only arrived)
  · cases kind.symm.trans (kind_of_onlySettings only arrived)

theorem not_awaySeen_of_onlySettings
    {events : List Event}
    (only : onlySettings events = true) :
    ¬Event.AwaySeen events := by
  rintro ⟨frame, arrived, kind⟩
  cases kind.symm.trans (kind_of_onlySettings only arrived)

/-- How sending `request` ended, as far as sending it again goes: failed as
aborted over a peer that has sent nothing but its settings. -/
def abortedUnheard (client : Client) (request : Request) : Bool :=
  let (outcome, after) := send .bare request client
  (match outcome with
    | .error failure => failure.io = some .connectionAborted
    | .ok _ => false) &&
  onlySettings client.connection.events && onlySettings after.connection.events

theorem not_safe_of_abortedUnheard
    {client : Client}
    {request : Request}
    (aborted : abortedUnheard client request = true) :
    ¬Safe .bare client request := by
  intro safe
  simp only [abortedUnheard, Bool.and_eq_true] at aborted
  obtain ⟨⟨marked, before⟩, after⟩ := aborted
  cases outcome : (send .bare request client).1 with
  | ok response =>
      rw [outcome] at marked
      cases marked
  | error failure =>
      rw [outcome] at marked
      rcases safe failure outcome (of_decide_eq_true marked) with
        ⟨away, _⟩ | refused
      · exact not_awaySeen_of_onlySettings before away
      · exact not_refusalSeen_of_onlySettings after _ refused

theorem abortedUnheard_of_endingWire :
    ∃ client, handshake endingWire "http" = .ok client ∧
      abortedUnheard client plainRequest = true :=
  exists_of_handshake (by decide +kernel)

/-- A request whose wait the own side ended fails as one that may be sent again,
although the server has said nothing of it. -/
theorem not_safe_of_ending :
    ∃ client, handshake endingWire "http" = .ok client ∧
      ¬Safe .bare client plainRequest := by
  obtain ⟨client, opens, aborted⟩ := abortedUnheard_of_endingWire
  exact ⟨client, opens, not_safe_of_abortedUnheard aborted⟩

/-- Over every run, over connections underneath whose failures are of `kinds`,
what is marked as safe to send again is safe exactly where `ConnectionAborted`
is none of them. -/
theorem safe_iff_unaborted (kinds : Set ErrorKind) :
    (∀ codec wire scheme client asks request, wire.FailsWithin kinds →
      handshake wire scheme = .ok client →
        Safe codec (run codec client asks) request) ↔
      .connectionAborted ∉ kinds := by
  constructor
  · intro safe aborts
    obtain ⟨client, opens, aborted⟩ := abortedUnheard_of_endingWire
    have within : endingWire.FailsWithin kinds := by
      refine ⟨?_, fun _ _ member => by cases member⟩
      rintro error (_ | ⟨_, _ | ⟨_, member⟩⟩)
      · exact aborts
      · cases member
    exact not_safe_of_abortedUnheard aborted
      (safe .bare endingWire "http" client [] plainRequest within opens)
  · intro spared codec wire scheme client asks request within opens
    have unaborted := unaborted_of_handshake (within.unaborted spared) opens
    have asking := asking_of_handshake opens
    exact ((asking.run codec asks).1.safe
      (asking.unaborted_run unaborted codec asks) codec request).1

end Safe

end Client
end Http2
end XmipNet

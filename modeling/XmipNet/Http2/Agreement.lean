import XmipNet.Foundation.Duplex
import XmipNet.Http2.Replied

/-!
# Two ends that agree

A client and a server on the two ends of one connection, each called in any
order, whatever the order their frames cross in: a request the server is given
is one the client sent, and an answer the client takes is the one the server
gave to that very request.
-/

namespace XmipNet
namespace Http2

open Hpack (Field)
open Http (Request Response)
open Event (Unbreached messageSent arrivals)

/-- A client and a server after calls of each, that talked to each other and
were not ended over a breach. -/
structure Conversation (codec : Percent) (client : Client)
    (asks : List Client.Ask) (server : Server) (calls : List Server.Ask) :
    Prop where
  asking : ∃ wire scheme, Client.handshake wire scheme = .ok client
  serving : ∃ wire, Server.handshake wire = .ok server
  converse : Duplex.Converse Event.frame Event.arrival
    (Client.run codec client asks).connection.events
    (Server.run codec server calls).2.connection.events
  calm : Unbreached (Client.run codec client asks).connection.events
  calmToo : Unbreached (Server.run codec server calls).2.connection.events

/-- What came on a stream by some moment is a beginning of what the other side
has said there. -/
theorem came_of_heard
    {client : Bool}
    {connection : Connection}
    (reached : Connection.Reached client connection)
    {events moment : List Event}
    {said : List (Nat × Item)}
    {encoder : Hpack.Encoder}
    (spoken : Spoken (messageSent events) said encoder)
    (heard : arrivals connection.events <+: Event.sent events)
    (unbreached : Unbreached connection.events)
    (begins : moment <+: connection.events)
    (id : Nat) :
    Event.came moment id <+: onStream said id := by
  have legible := (reached.attentive unbreached).legible
  have message := heard.filter fun frame => ¬frame.Control
  have whole := (spoken.heard message
    (Reader.initial.legible_filter _ legible)).1
  rw [Reader.initial.readAll_filter] at whole
  have earlier : Event.items moment <+: Event.items connection.events := by
    obtain ⟨rest, same⟩ := begins
    rw [Event.items, Event.items, ← same, Event.arrivals_append,
      Reader.readAll_append]
    exact List.prefix_append _ _
  exact onStream_prefix (earlier.trans whole) id

section Conversation

variable {codec : Percent} {client : Client} {asks : List Client.Ask}
  {server : Server} {calls : List Server.Ask}

/-- A request that was given is one that was asked: where its stream's item are
those of a request, its head and body read as the request given. -/
theorem reads_of_delivered
    {events : List Event}
    {id : Nat}
    {given : Request}
    {earlier taken said : List Item}
    (delivered : Server.Delivered codec events id given earlier taken)
    (begins : Event.came events id <+: said)
    {asker : Client}
    {request : Request}
    (voiced : (Client.asking codec asker request).Voiced said) :
    Message.requestOf codec
      (Message.requestFields codec asker.scheme request) request.body =
        .ok given := by
  obtain ⟨came, _, ended, head, headed, reads⟩ := delivered
  rw [came] at begins
  cases earlier with
  | nil =>
      rw [List.nil_append] at begins
      obtain ⟨body, heads⟩ := Client.held_asking codec asker request
      rw [voiced.heard begins ended] at headed reads
      rw [← heads head headed, ← body]
      exact reads
  | cons first earlier =>
      obtain ⟨later, split, bodies⟩ := voiced.later rfl
      rw [split, List.cons_append] at begins
      have within := (List.cons_prefix_cons.mp begins).2
      have none := Held.headless_of_items fun item member =>
        bodies item (within.subset (List.mem_append_right _ member))
      cases none.symm.trans headed

/-- Nothing has come to a client on a stream on which it has said nothing, where
the other side only speaks on a stream on which it was spoken to. -/
theorem came_eq_nil
    {mine yours moment : List Event}
    (converse : Duplex.Converse Event.frame Event.arrival mine yours)
    (prompted : Server.Prompted yours)
    (begins : moment <+: mine)
    {id : Nat}
    (below : ∀ frame ∈ messageSent moment, frame.stream < id) :
    Event.came moment id = [] := by
  by_contra some
  obtain ⟨other, within, early⟩ := converse.earlier begins
  obtain ⟨heard, answered⟩ := early.heard
  obtain ⟨item, came⟩ := List.exists_mem_of_ne_nil _ some
  obtain ⟨entry, member, own⟩ := List.mem_filterMap.mp came
  have stream : entry.1 = id := by
    by_contra different
    rw [if_neg different] at own
    cases own
  rcases Reader.initial.frame_of_item _ member with
    ⟨frame, arrived, carries, same⟩ | ⟨_, begun, _⟩
  · obtain ⟨event, happened, emits⟩ :=
      List.mem_filterMap.mp (heard.subset arrived)
    cases event with
    | emitted spoken =>
        cases emits
        obtain ⟨before, after, split⟩ := List.append_of_mem happened
        obtain ⟨rest, whole⟩ := within
        rw [split, List.append_assoc] at whole
        obtain ⟨asked, reached, asks, sameStream⟩ :=
          prompted before _ _ whole.symm carries
        have sent : asked ∈ moment.filterMap Event.frame := by
          refine answered.subset (List.mem_filterMap.mpr
            ⟨.received asked, ?_, rfl⟩)
          rw [split]
          exact List.mem_append_left _ reached
        have said : asked ∈ messageSent moment :=
          List.mem_filter.mpr ⟨sent, decide_eq_true asks⟩
        have less := below asked said
        omega
    | received | passedOver | breached => cases emits
  · cases begun

/-- Every request a server is given is one the client asked, on its own stream,
with the head and the body it was asked with; and none is given twice. -/
theorem requests_agree
    (conversation : Conversation codec client asks server calls) :
    ((Server.run codec server calls).1.map Prod.fst).Nodup ∧
      ∀ id given, (id, given) ∈ (Server.run codec server calls).1 →
        ∃ earlier request later,
          asks = earlier ++ .send request :: later ∧
          (Client.run codec client earlier).Goes ∧
          (Client.run codec client earlier).next = id ∧
          Message.requestOf codec
            (Message.requestFields codec
              (Client.run codec client earlier).scheme request)
            request.body = .ok given := by
  obtain ⟨⟨_, _, opens⟩, ⟨_, serves⟩, converse, calm, calmToo⟩ := conversation
  have accounted := Server.accounted_run codec serves calls
  refine ⟨accounted.serving.once, fun id given member => ?_⟩
  obtain ⟨moment, earlier, taken, begins, delivered⟩ :=
    accounted.told calmToo (id, given) member
  obtain ⟨said, asked⟩ := Client.exists_asked codec opens asks
  have came := came_of_heard accounted.reached asked.spoken converse.heard.2
    calmToo begins id
  have some : onStream said id ≠ [] := by
    obtain ⟨head, headed, _⟩ := delivered.reads
    intro none
    rw [none, delivered.came] at came
    have nothing := (List.append_eq_nil_iff.mp (List.prefix_nil.mp came)).2
    rw [nothing] at headed
    cases headed
  obtain ⟨before, request, later, split, goes, next⟩ := asked.asked id some
  have voiced := asked.voiced before request later split goes
  rw [next] at voiced
  exact ⟨before, request, later, split, goes, next,
    reads_of_delivered delivered came voiced⟩

/-- An answer a client takes goes back to an answer the server gave to the
request that the client had asked. -/
theorem Conversation.traced
    (conversation : Conversation codec client asks server calls)
    {earlier later : List Client.Ask}
    {request : Request}
    (split : asks = earlier ++ .send request :: later)
    {answer : Response}
    (answers : (Client.send codec request
      (Client.run codec client earlier)).1 = .ok answer) :
    let now := Client.run codec client earlier
    ∃ before response after given,
      calls = before ++ .respond now.next response :: after ∧
      now.next ∈ (Server.run codec server before).2.answering ∧
      (now.next, given) ∈ (Server.run codec server before).1 ∧
      Message.requestOf codec
        (Message.requestFields codec now.scheme request) request.body =
          .ok given ∧
      (∃ head, (Held.of (Server.replying response).items).head = some head ∧
        Message.responseOf head
          (Held.of (Server.replying response).items).body
          (Held.of (Server.replying response).items).trailers = .ok answer) := by
  obtain ⟨⟨_, _, opens⟩, ⟨_, serves⟩, converse, calm, calmToo⟩ := conversation
  have started := Client.calls_of_handshake opens
  have whole : Client.run codec client asks = Client.run codec
      (Client.perform codec (Client.run codec client earlier) (.send request))
        later := by
    rw [split, Client.run_append]
    rfl
  have calling := started.run codec earlier
  have begins : (Client.send codec request
      (Client.run codec client earlier)).2.connection.events <+:
        (Client.run codec client asks).connection.events := by
    rw [whole]
    exact ((calling.perform codec (.send request)).asking.run codec
      later).2.events
  have before : (Client.run codec client earlier).connection.events <+:
      (Client.run codec client asks).connection.events :=
    (calling.asking.perform codec (.send request)).2.events.trans begins
  obtain ⟨_, askedBefore⟩ := Client.exists_asked codec opens earlier
  have nothing := came_eq_nil converse
    (Server.prompted_run codec serves calls calmToo) before askedBefore.below
  obtain ⟨goes, ended, head, headed, reads⟩ := Client.heard_of_send calling
    nothing answers (calm.of_prefix begins)
  obtain ⟨said, replied⟩ := Server.exists_replied codec serves calls
  have came := came_of_heard (started.run codec asks).reached replied.spoken
    converse.heard.1 calm begins (Client.run codec client earlier).next
  have some : onStream said (Client.run codec client earlier).next ≠ [] := by
    intro none
    rw [none, List.prefix_nil] at came
    rw [came] at ended
    cases ended
  obtain ⟨front, response, back, splits, waits, voiced⟩ :=
    replied.replied _ some
  rw [voiced.heard came ended] at headed reads
  have accounted := Server.accounted_run codec serves front
  have named := accounted.serving.named _ waits
  obtain ⟨⟨_, given⟩, gives, same⟩ := List.mem_map.mp named
  cases same
  have among : ((Client.run codec client earlier).next, given) ∈
      (Server.run codec server calls).1 := by
    rw [splits, Server.run_append]
    exact List.mem_append_left _ gives
  obtain ⟨moment, passed, taken, by_, delivered⟩ :=
    (Server.accounted_run codec serves calls).told calmToo _ among
  obtain ⟨asked, asks⟩ := Client.exists_asked codec opens asks
  have heard := came_of_heard (Server.accounted_run codec serves calls).reached
    asks.spoken converse.heard.2 calmToo by_
    (Client.run codec client earlier).next
  exact ⟨front, response, back, given, splits, waits, gives,
    reads_of_delivered delivered heard
      (asks.voiced earlier request later split goes), head, headed, reads⟩

/-- Of two answers on one stream the second finds no request that waits. -/
theorem eq_of_waiting
    {wire : Wire}
    (serves : Server.handshake wire = .ok server)
    {id : Nat}
    {before other after rest : List Server.Ask}
    {response second : Response}
    (split : before ++ .respond id response :: after =
      other ++ .respond id second :: rest)
    (waits : id ∈ (Server.run codec server before).2.answering)
    (waitsToo : id ∈ (Server.run codec server other).2.answering) :
    before = other ∧ response = second := by
  have never {early late : List Server.Ask} {said : Response}
      {between : List Server.Ask}
      (reaches : late = early ++ .respond id said :: between)
      (earlyWaits : id ∈ (Server.run codec server early).2.answering)
      (lateWaits : id ∈ (Server.run codec server late).2.answering) : False := by
    have named := (Server.served_of_handshake codec serves early).named id
      earlyWaits
    exact Server.unanswered_of_answered (Server.serving_of_handshake serves)
      ⟨early, said, between, reaches, named⟩ lateWaits
  rcases List.append_eq_append_iff.mp split with
    ⟨middle, reaches, rest⟩ | ⟨middle, reaches, rest⟩
  · cases middle with
    | nil =>
        obtain ⟨same, _⟩ := List.cons.inj rest
        cases same
        exact ⟨(reaches.trans (List.append_nil _)).symm, rfl⟩
    | cons first middle =>
        obtain ⟨rfl, _⟩ := List.cons.inj rest
        exact (never reaches waits waitsToo).elim
  · cases middle with
    | nil =>
        obtain ⟨same, _⟩ := List.cons.inj rest
        cases same
        exact ⟨reaches.trans (List.append_nil _), rfl⟩
    | cons first middle =>
        obtain ⟨rfl, _⟩ := List.cons.inj rest
        exact (never reaches waitsToo waits).elim

/-- Every answer a client takes is the one answer the server gave on its stream,
to the very request the client had asked, which the server had been given before:
its head, its body and its trailers are those of that answer, unless they are
taken for an informational head. -/
theorem answers_agree
    (conversation : Conversation codec client asks server calls)
    {earlier later : List Client.Ask}
    {request : Request}
    (split : asks = earlier ++ .send request :: later)
    {answer : Response}
    (answers : (Client.send codec request
      (Client.run codec client earlier)).1 = .ok answer) :
    let now := Client.run codec client earlier
    ∃ before response after given,
      calls = before ++ .respond now.next response :: after ∧
      (∀ other second rest,
        calls = other ++ .respond now.next second :: rest →
          now.next ∈ (Server.run codec server other).2.answering →
            other = before ∧ second = response) ∧
      (now.next, given) ∈ (Server.run codec server before).1 ∧
      Message.requestOf codec
        (Message.requestFields codec now.scheme request) request.body =
          .ok given ∧
      (Stream.informational (Message.responseFields response) = false →
        Stream.informational (Message.carried response.trailers) = false →
          Message.responseOf (Message.responseFields response) response.body
            (Message.carried response.trailers) = .ok answer) := by
  obtain ⟨before, response, after, given, called, waits, gives, asked, head,
    headed, reads⟩ := conversation.traced split answers
  obtain ⟨_, serves⟩ := conversation.serving
  refine ⟨before, response, after, given, called, ?_, gives, asked,
    fun final plain => ?_⟩
  · intro other second rest also waitsToo
    exact eq_of_waiting serves (also.symm.trans called) waitsToo waits
  · rw [Server.held_replying response final plain] at headed reads
    cases headed
    exact reads

end Conversation

/-! ## A conversation -/

/-- What a client writes that asks `request` and hears nothing. -/
def askedOctets (request : Request) : List UInt8 :=
  ((Client.handshake ⟨[], [], []⟩ "http").toOption.map fun client =>
    (Client.run .bare client [.send request]).connection.wire.written).getD []

/-- What a server writes that hears it. -/
def answeredOctets (request : Request) (calls : List Server.Ask) :
    List UInt8 :=
  ((Server.handshake ⟨[.octets (askedOctets request)], [], []⟩).toOption.map
    fun server =>
      (Server.run .bare server calls).2.connection.wire.written).getD []

/-- Whether a client that asks `request` and a server that is called so talk to
each other, going on in the order that `turns` says, `true` for the client. -/
def meets (request : Request) (calls : List Server.Ask) (turns : List Bool) :
    Bool :=
  match Client.handshake ⟨[.octets (answeredOctets request calls)], [], []⟩
      "http",
    Server.handshake ⟨[.octets (askedOctets request)], [], []⟩ with
  | .ok client, .ok server =>
      let asked := Client.run .bare client [.send request]
      let now := Server.run .bare server calls
      decide (now.1.map Prod.fst = [1] ∧
        (Client.send .bare request client).1.isOk = true ∧
        Unbreached asked.connection.events ∧
        Unbreached now.2.connection.events ∧
        Duplex.interleaves Event.frame Event.arrival turns [] []
          asked.connection.events now.2.connection.events = true)
  | _, _ => false

/-- The client asks, the server is given what it asks and answers, and the
client takes the answer. -/
theorem conversation_of_meets
    {request : Request}
    {calls : List Server.Ask}
    {turns : List Bool}
    (met : meets request calls turns = true) :
    ∃ client server answer, Conversation .bare client [.send request] server
        calls ∧
      (Server.run .bare server calls).1.map Prod.fst = [1] ∧
      (Client.send .bare request client).1 = .ok answer := by
  rw [meets] at met
  split at met
  next client server opens serves =>
    obtain ⟨one, fine, calm, calmToo, comes⟩ := of_decide_eq_true met
    have converse := Duplex.Converse.of_interleaves .silence comes
    cases answers : (Client.send .bare request client).1 with
    | ok answer =>
        exact ⟨client, server, answer, ⟨⟨_, _, opens⟩, ⟨_, serves⟩, converse,
          calm, calmToo⟩, one, answers⟩
    | error failure =>
        rw [answers] at fine
        cases fine
  · cases met

/-- A server that reads what was asked and answers it. -/
def answeringCalls : List Server.Ask :=
  [.readFrame, .readFrame, .finished, .respond 1 Server.emptyAnswer]

theorem meets_plainRequest :
    meets Client.plainRequest answeringCalls
      [false, true, true, true, true, false, false, false, false, true, true] =
        true := by
  decide +kernel

/-- The one request that the server is given is the one that was asked. -/
theorem requests_agree_asked :
    ∃ client server, Conversation .bare client
        [.send Client.plainRequest] server answeringCalls ∧
      ∃ given, (1, given) ∈ (Server.run .bare server answeringCalls).1 ∧
        ∃ earlier request later,
          [Client.Ask.send Client.plainRequest] =
              earlier ++ .send request :: later ∧
            (Client.run .bare client earlier).next = 1 := by
  obtain ⟨client, server, _, conversation, one, _⟩ :=
    conversation_of_meets meets_plainRequest
  have among : 1 ∈ (Server.run .bare server answeringCalls).1.map Prod.fst :=
    one ▸ List.mem_singleton_self 1
  obtain ⟨⟨_, given⟩, gives, rfl⟩ := List.mem_map.mp among
  obtain ⟨earlier, request, later, split, _, next, _⟩ :=
    (requests_agree conversation).2 _ given gives
  exact ⟨client, server, conversation, given, gives, earlier, request, later,
    split, next⟩

/-- The answer that the client takes is the one that the server gave. -/
theorem answers_agree_answered :
    ∃ client server answer, Conversation .bare client
        [.send Client.plainRequest] server answeringCalls ∧
      (Client.send .bare Client.plainRequest client).1 = .ok answer ∧
      ∃ before response after, answeringCalls =
        before ++ .respond client.next response :: after := by
  obtain ⟨client, server, answer, conversation, _, answers⟩ :=
    conversation_of_meets meets_plainRequest
  have split : [Client.Ask.send Client.plainRequest] =
      [] ++ .send Client.plainRequest :: [] := rfl
  obtain ⟨before, response, after, _, calls, _⟩ :=
    answers_agree conversation split answers
  exact ⟨client, server, answer, conversation, answers, before, response, after,
    calls⟩

end Http2
end XmipNet

import XmipNet.Http2.Audience
import XmipNet.Http2.Utterances

/-!
# What a client asks and what it takes as an answer

Over every run of a client, what was said on a stream is what was said of the
request that went on it; nothing was said on a stream no request went on. An
answer is read off what came on its stream since, if nothing came there before.
-/

namespace XmipNet
namespace Http2

open Hpack (Field)
open Http (Request Response)

/-- The items on `id`. -/
def onStream (items : List (Nat × Item)) (id : Nat) : List Item :=
  items.filterMap fun entry => if entry.1 = id then some entry.2 else none

theorem onStream_append
    (items later : List (Nat × Item))
    (id : Nat) :
    onStream (items ++ later) id = onStream items id ++ onStream later id :=
  List.filterMap_append

theorem onStream_own
    (added : List Item)
    (id : Nat) :
    onStream (added.map (Prod.mk id)) id = added := by
  simp only [onStream, List.filterMap_map, Function.comp_def, if_true,
    List.filterMap_some]

theorem onStream_other
    {id other : Nat}
    (different : id ≠ other)
    (added : List Item) :
    onStream (added.map (Prod.mk id)) other = [] := by
  simp only [onStream, List.filterMap_map, Function.comp_def,
    if_neg different, List.filterMap_none]

theorem onStream_prefix
    {items later : List (Nat × Item)}
    (begins : items <+: later)
    (id : Nat) :
    onStream items id <+: onStream later id :=
  begins.filterMap _

/-- Something said on a stream was said by a frame on it. -/
theorem Spoken.frame
    {frames : List Frame}
    {said : List (Nat × Item)}
    {encoder : Hpack.Encoder}
    (spoken : Spoken frames said encoder)
    {id : Nat}
    (some : onStream said id ≠ []) :
    ∃ frame ∈ frames, frame.stream = id := by
  have single {other : Nat} {item : Item} {items : List (Nat × Item)}
      (some : onStream (items ++ [(other, item)]) id ≠ []) :
      onStream items id ≠ [] ∨ other = id := by
    by_cases same : other = id
    · exact Or.inr same
    · refine Or.inl ?_
      have none := onStream_other same [item]
      rw [List.map_singleton] at none
      rwa [onStream_append, none, List.append_nil] at some
  induction spoken with
  | silence => exact absurd rfl some
  | resized _ _ inductionHypothesis => exact inductionHypothesis some
  | data _ _ _ inductionHypothesis =>
      rcases single some with before | own
      · obtain ⟨frame, member, same⟩ := inductionHypothesis before
        exact ⟨frame, List.mem_append_left _ member, same⟩
      · exact ⟨_, List.mem_append_right _ (List.mem_singleton_self _), own⟩
  | block _ _ inductionHypothesis =>
      rcases single some with before | own
      · obtain ⟨frame, member, same⟩ := inductionHypothesis before
        exact ⟨frame, List.mem_append_left _ member, same⟩
      · exact ⟨_, List.mem_append_right _ List.mem_cons_self, own⟩

namespace Client

open Core Connection Fallible
open Event (messageSent)

/-- A send goes ahead: the server has not gone away and there is a stream
left. -/
def Goes (client : Client) : Prop :=
  client.connection.goaway = none ∧ client.next ≤ maxStreamId

/-- A request as it goes out. -/
def asking (codec : Percent) (client : Client) (request : Request) :
    Outgoing where
  head := Message.requestFields codec client.scheme request
  body := if request.body = [] then none else some request.body
  trailers := none
  ends := true

/-- What the stream of a request holds once all of it has come. -/
theorem held_asking
    (codec : Percent)
    (client : Client)
    (request : Request) :
    (Held.of (asking codec client request).items).body = request.body ∧
      ∀ head, (Held.of (asking codec client request).items).head = some head →
        head = Message.requestFields codec client.scheme request := by
  simp only [asking, Outgoing.items, Outgoing.trailing, Option.toList_none,
    List.map_nil, List.append_nil, Held.of, List.foldl_cons, Held.take,
    Held.nothing]
  by_cases empty : request.body = [] <;>
    by_cases replaced : Stream.informational
      (Message.requestFields codec client.scheme request) = true <;>
        simp [empty, replaced, Held.take]

section Runs

variable {codec : Percent} {client : Client}

theorem run_append
    (codec : Percent)
    (client : Client)
    (asks more : List Ask) :
    run codec client (asks ++ more) = run codec (run codec client asks) more :=
  List.foldl_append

/-- A send that goes ahead says its request on the next stream, and is done with
it after. -/
theorem utters_send
    (codec : Percent)
    (asking : Asking client)
    (reached : Reached true client.connection)
    (goes : Goes client)
    (request : Request) :
    ∃ said, Utters client.next client.connection
        (send codec request client).2.connection said ∧
      (Client.asking codec client request).Voiced said := by
  have unended := unended_openStream asking.sound asking.fresh
  have building : Reached true
      { client.connection.openStream client.next with held := some [] } :=
    (reached.strides (.single (.opened asking.asClient asking.fresh))).strides
      (.single (.beat (.aside rfl)))
  have filled : (Client.asking codec client request).body ≠ some [] := by
    rw [Client.asking]
    by_cases empty : request.body = [] <;> simp [empty]
  obtain ⟨said, utters, voiced⟩ := Outgoing.utters_send building rfl
    (Client.asking codec client request) filled client.next
  rw [Client.asking, ← sendRequest_eq] at utters
  refine ⟨said, ?_, voiced⟩
  have opened : Silent client.connection
      (client.connection.openStream client.next) := silent_of_kept rfl rfl
  have sent := (utters_together utters).after_silent opened
  have plays := plays_together_sendRequest unended
    (Message.requestFields codec client.scheme request) request.body
  rw [send_of_free goes.1 goes.2, exchange, modify_bind_apply, bind_apply]
  split
  next sends =>
    have waits := (reached.strides ((Relation.ReflTransGen.single
      (.opened asking.asClient asking.fresh)).trans
        (plays.of_eq sends).strides)).sound.waits
    rw [sends] at sent
    have waited := silent_pumpUntil waits (answered client.next)
    rw [receiveAnswer_apply]
    split
    next reads =>
      rw [reads] at waited
      exact sent.silent waited
    next reads =>
      rw [reads] at waited
      exact (sent.silent waited).silent (silent_of_kept rfl rfl)
    next reads =>
      rw [reads] at waited
      exact (sent.silent waited).silent (silent_of_kept rfl rfl)
  next sends =>
    rw [sends] at sent
    exact sent

/-- What a client does between two calls. -/
structure Calls (client : Client) : Prop where
  asking : Asking client
  reached : Reached true client.connection

theorem Calls.perform
    (calls : Calls client)
    (codec : Percent)
    (ask : Ask) :
    Calls (perform codec client ask) :=
  ⟨(calls.asking.perform codec ask).1,
    calls.reached.strides (calls.asking.strides codec ask)⟩

theorem Calls.run
    (calls : Calls client)
    (codec : Percent)
    (asks : List Ask) :
    Calls (run codec client asks) := by
  induction asks generalizing client with
  | nil => exact calls
  | cons ask rest inductionHypothesis =>
      exact inductionHypothesis (calls.perform codec ask)

theorem calls_of_handshake
    {wire : Wire}
    {scheme : String}
    (opens : handshake wire scheme = .ok client) :
    Calls client :=
  ⟨asking_of_handshake opens, reached_of_handshake opens⟩

/-- A call says a request on the next stream, or nothing at all. -/
inductive Voices (codec : Percent) (client : Client) (ask : Ask) : Prop
  | silent
      (silent : Silent client.connection (perform codec client ask).connection)
      (next : (perform codec client ask).next = client.next)
      (still : ∀ request, ask = .send request → ¬Goes client)
  | asked {request : Request} {said : List Item}
      (same : ask = .send request)
      (goes : Goes client)
      (utters : Utters client.next client.connection
        (perform codec client ask).connection said)
      (voiced : (Client.asking codec client request).Voiced said)
      (next : (perform codec client ask).next = client.next + 2)

theorem Calls.voices
    (calls : Calls client)
    (codec : Percent)
    (ask : Ask) :
    Voices codec client ask := by
  have waits := calls.reached.sound.waits
  cases ask with
  | send request =>
      cases away : client.connection.goaway with
      | some departure =>
          have same : Client.send codec request client = _ :=
            send_of_goaway away request
          refine .silent ?_ ?_ fun other _ goes => ?_
          · rw [Client.perform, same]
            exact silent_refl _
          · rw [Client.perform, same]
          · cases goes.1.symm.trans away
      | none =>
          by_cases free : client.next ≤ maxStreamId
          · obtain ⟨said, utters, voiced⟩ := utters_send codec calls.asking
              calls.reached ⟨away, free⟩ request
            refine .asked rfl ⟨away, free⟩ utters voiced ?_
            rw [Client.perform, send_of_free away free]
          · have same : Client.send codec request client = _ :=
              send_of_spent away (not_le.mp free) request
            refine .silent ?_ ?_ fun other _ goes => free goes.2
            · rw [Client.perform, same]
              exact silent_refl _
            · rw [Client.perform, same]
  | ping =>
      exact .silent (silent_ping waits _) rfl
        fun other same => by cases same
  | close =>
      exact .silent (silent_goAway _ _ _) rfl
        fun other same => by cases same

/-- What was said over the calls `asks`: of each request that went ahead, on its
stream, and nothing else. -/
structure Asked (codec : Percent) (client : Client) (asks : List Ask)
    (said : List (Nat × Item)) : Prop where
  spoken : Spoken (messageSent (run codec client asks).connection.events) said
    (run codec client asks).connection.encoder
  below : ∀ frame ∈ messageSent (run codec client asks).connection.events,
    frame.stream < (run codec client asks).next
  voiced : ∀ earlier request later, asks = earlier ++ .send request :: later →
    Goes (run codec client earlier) →
      (Client.asking codec (run codec client earlier) request).Voiced
        (onStream said (run codec client earlier).next)
  asked : ∀ id, onStream said id ≠ [] → ∃ earlier request later,
    asks = earlier ++ .send request :: later ∧
      Goes (run codec client earlier) ∧ (run codec client earlier).next = id

/-- One more call is the last, or the one looked for came before it. -/
theorem eq_or_before
    {asks earlier later : List Ask}
    {ask one : Ask}
    (split : asks ++ [ask] = earlier ++ one :: later) :
    (asks = earlier ∧ ask = one ∧ later = []) ∨
      ∃ between, asks = earlier ++ one :: between := by
  rcases List.eq_nil_or_concat later with rfl | ⟨between, last, rfl⟩
  · obtain ⟨same, last⟩ := List.append_inj' split rfl
    exact Or.inl ⟨same, (List.cons.inj last).1, rfl⟩
  · rw [List.concat_eq_append, ← List.cons_append, ← List.append_assoc] at split
    exact Or.inr ⟨between, (List.append_inj' split rfl).1⟩

theorem Asked.perform
    {asks : List Ask}
    {said : List (Nat × Item)}
    (asked : Asked codec client asks said)
    (calls : Calls client)
    (ask : Ask) :
    ∃ more, Asked codec client (asks ++ [ask]) (said ++ more) := by
  have one : run codec client (asks ++ [ask]) =
      Client.perform codec (run codec client asks) ask :=
    run_append codec client asks [ask]
  have fresh (id : Nat) (above : (run codec client asks).next ≤ id) :
      onStream said id = [] := by
    by_contra some
    obtain ⟨frame, member, own⟩ := asked.spoken.frame some
    have below := asked.below frame member
    omega
  cases (calls.run codec asks).voices codec ask with
  | silent silent next still =>
      obtain ⟨⟨later, grown, nothing⟩, resizes⟩ := silent
      have sent : messageSent (run codec client (asks ++ [ask])).connection.events
          = messageSent (run codec client asks).connection.events := by
        rw [one, grown, Event.messageSent_append, nothing, List.append_nil]
      refine ⟨[], ?_, ?_, ?_, ?_⟩
      · rw [sent, one, List.append_nil]
        exact spoken_of_resizes resizes asked.spoken
      · rw [sent, one, next]
        exact asked.below
      · intro earlier request later split goes
        rw [List.append_nil]
        rcases eq_or_before split with ⟨rfl, same, _⟩ | ⟨between, before⟩
        · exact absurd goes (still request same)
        · exact asked.voiced earlier request between before goes
      · intro id some
        rw [List.append_nil] at some
        obtain ⟨earlier, request, later, rfl, rest⟩ := asked.asked id some
        exact ⟨earlier, request, later ++ [ask], by simp, rest⟩
  | @asked request added same goes utters voiced next =>
      obtain ⟨⟨later, grown, onward⟩, speaks⟩ := utters
      refine ⟨added.map (Prod.mk (run codec client asks).next), ?_, ?_, ?_, ?_⟩
      · rw [one]
        exact speaks said asked.spoken
      · intro frame member
        rw [one, grown, Event.messageSent_append, List.mem_append] at member
        rw [one, next]
        rcases member with before | now
        · exact (asked.below frame before).trans (by omega)
        · rw [onward frame now]
          omega
      · intro earlier other rest split went
        rw [onStream_append]
        rcases eq_or_before split with ⟨rfl, equal, _⟩ | ⟨between, before⟩
        · cases same.symm.trans equal
          rw [fresh _ (le_refl _), List.nil_append, onStream_own]
          exact voiced
        · have spelt := asked.voiced earlier other between before went
          have some : onStream said (run codec client earlier).next ≠ [] := by
            generalize onStream said _ = items at spelt
            cases spelt <;> exact List.cons_ne_nil _ _
          have different : (run codec client asks).next ≠
              (run codec client earlier).next :=
            fun equal => some (fresh _ equal.le)
          rw [onStream_other different, List.append_nil]
          exact spelt
      · intro id some
        rw [onStream_append] at some
        by_cases own : (run codec client asks).next = id
        · exact ⟨asks, request, [], by rw [same], goes, own⟩
        · rw [onStream_other own, List.append_nil] at some
          obtain ⟨earlier, other, later, rfl, rest⟩ := asked.asked id some
          exact ⟨earlier, other, later ++ [ask], by simp, rest⟩

theorem asked_of_handshake
    {wire : Wire}
    {scheme : String}
    (codec : Percent)
    (opens : handshake wire scheme = .ok client) :
    Asked codec client [] [] := by
  rw [handshake] at opens
  cases starts : Connection.start wire true with
  | error failure =>
      rw [starts] at opens
      cases opens
  | ok connection =>
      rw [starts] at opens
      cases opens
      obtain ⟨⟨later, grown, nothing⟩, resizes⟩ := silent_start starts
      have none : messageSent connection.events = [] := by
        rw [grown]
        exact nothing
      refine ⟨?_, fun frame member => ?_, fun earlier _ _ split => ?_,
        fun id some => absurd rfl some⟩
      · rw [run, List.foldl_nil, none]
        exact spoken_of_resizes resizes .silence
      · rw [run, List.foldl_nil, none] at member
        cases member
      · cases earlier <;> cases split

/-- What was said over every run of a client. -/
theorem exists_asked
    {wire : Wire}
    {scheme : String}
    (codec : Percent)
    (opens : handshake wire scheme = .ok client)
    (asks : List Ask) :
    ∃ said, Asked codec client asks said := by
  induction asks using List.reverseRecOn with
  | nil => exact ⟨[], asked_of_handshake codec opens⟩
  | append_singleton asks ask inductionHypothesis =>
      obtain ⟨said, asked⟩ := inductionHypothesis
      obtain ⟨more, longer⟩ := asked.perform (calls_of_handshake opens) ask
      exact ⟨said ++ more, longer⟩

end Runs

/-! ## An answer -/

section Answers

variable {codec : Percent} {client : Client} {request : Request}
  {answer : Response}

theorem met_of_pumpFrom
    {done : Connection → Bool}
    {connection after : Connection}
    (runs : pumpFrom done connection = (.ok true, after)) :
    done after = true := by
  fun_induction pumpFrom done connection with
  | case1 connection met =>
      cases runs
      exact met
  | case2 connection unmet failure after reads => cases runs
  | case3 connection unmet after reads => cases runs
  | case4 connection unmet middle reads inductionHypothesis =>
      exact inductionHypothesis runs

/-- An answer is read off a record that is there, has ended and is not reset. -/
theorem record_of_answer
    {id : Nat}
    {connection : Connection}
    (done : answered id connection = true)
    (gives : answerOf id connection.streams[id]? = .ok answer) :
    ∃ stream head, connection.streams[id]? = some stream ∧
      stream.reset = none ∧ stream.held.ended = true ∧
        stream.held.head = some head ∧
          Message.responseOf head stream.held.body stream.held.trailers =
            .ok answer := by
  cases found : connection.streams[id]? with
  | none =>
      rw [found] at gives
      cases gives
  | some stream =>
      rw [found, answerOf] at gives
      rw [answered, found] at done
      split at gives
      · cases gives
      next live =>
        split at gives
        · cases gives
        next head headed =>
          refine ⟨stream, head, rfl, live, ?_, headed, ?_⟩
          · simpa [Stream.finished, Stream.held, live] using done
          · cases reads : Message.responseOf head stream.body
              stream.trailers with
            | ok response =>
                rw [reads] at gives
                cases gives
                exact reads
            | error violation =>
                rw [reads] at gives
                cases gives

/-- What an answer was read off: all that came on its stream, which has ended. -/
structure Heard (events : List Event) (id : Nat) (answer : Response) : Prop where
  ended : (Held.of (Event.came events id)).ended = true
  reads : ∃ head, (Held.of (Event.came events id)).head = some head ∧
    Message.responseOf head (Held.of (Event.came events id)).body
      (Held.of (Event.came events id)).trailers = .ok answer

/-- An exchange that gives an answer reads it off what came on its stream, where
nothing had come before it was opened. -/
theorem heard_of_exchange
    {connection after : Connection}
    (reached : Reached true connection)
    {id : Nat}
    (fresh : connection.highest < id)
    (nothing : Event.came connection.events id = [])
    {fields : List Field}
    {body : List UInt8}
    (runs : exchange id fields body connection = (.ok answer, after))
    (unbreached : Event.Unbreached after.events) :
    Heard after.events id answer := by
  have opened := reached.strides (.single (.opened reached.client fresh))
  have plays := plays_together_sendRequest
    (unended_openStream reached.sound fresh) fields body
  have holds : Holds id (connection.openStream id) :=
    holds_openStream (reached.sound.placed.absent_of_fresh fresh) nothing
  obtain ⟨_, _, opens, sending⟩ := of_bind runs
  cases opens
  obtain ⟨_, sent, sends, receives⟩ := of_bind sending
  rw [receiveAnswer_apply] at receives
  split at receives
  · cases receives
  next read reads =>
    obtain ⟨answers, rfl⟩ := Prod.mk.inj receives
    have waited := plays_pumpUntil (answered id) sent
    have kept := holds.beats opened
      (Relation.ReflTransGen.trans (plays.of_eq sends) (waited.of_eq reads))
      unbreached
    obtain ⟨stream, head, found, live, ended, headed, gives⟩ :=
      record_of_answer (met_of_pumpFrom reads) answers
    rw [kept stream found live] at ended headed gives
    exact ⟨ended, head, headed, gives⟩
  · cases receives

/-- An answer is read off what came on its stream, where nothing had come before
its request went. -/
theorem heard_of_send
    (calls : Calls client)
    (nothing : Event.came client.connection.events client.next = [])
    (answers : (send codec request client).1 = .ok answer)
    (unbreached : Event.Unbreached
      (send codec request client).2.connection.events) :
    Goes client ∧
      Heard (send codec request client).2.connection.events client.next
        answer := by
  cases away : client.connection.goaway with
  | some departure =>
      rw [send_of_goaway away] at answers
      cases answers
  | none =>
    by_cases free : client.next ≤ maxStreamId
    · rw [send_of_free away free] at answers unbreached ⊢
      exact ⟨⟨away, free⟩, heard_of_exchange calls.reached calls.asking.fresh
        nothing (Prod.ext answers rfl) unbreached⟩
    · rw [send_of_spent away (not_le.mp free)] at answers
      cases answers

end Answers

end Client
end Http2
end XmipNet

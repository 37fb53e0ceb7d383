import XmipNet.Http2.Asked

/-!
# What a server is given and what it answers

Over every run of a server that is not ended over a breach, a request it was
given is what its stream held when the client had ended it, and what the server
said on a stream is what was said of the one answer to that request; a frame of
a message only goes out on a stream on which one has come.
-/

namespace XmipNet
namespace Http2

open Hpack (Field)
open Http (Request Response)

namespace Reader

/-- A stream a reader knows of: `frame` is of a message on it, or a block on it
was begun before. -/
def Knows (reader : Reader) (frame : Frame) (id : Nat) : Prop :=
  (¬frame.Control ∧ frame.stream = id) ∨
    ∃ waiting, reader.continuing = some waiting ∧ waiting.stream = id

theorem knows_of_assembled
    {reader : Reader}
    {frame : Frame}
    {id : Nat}
    {octets : List UInt8}
    {ends : Bool}
    (assembles : reader.assembled frame = some (id, octets, ends)) :
    reader.Knows frame id := by
  rw [assembled] at assembles
  split at assembles
  next kind =>
    split at assembles
    · cases assembles
      exact Or.inl ⟨fun control => control.2.1 kind, rfl⟩
    · cases assembles
  · rw [Option.map_eq_some_iff] at assembles
    obtain ⟨waiting, begun, same⟩ := assembles
    exact Or.inr ⟨waiting, begun, congrArg Prod.fst same⟩
  · cases assembles

/-- A frame gives an item on a stream the reader knows of, and leaves a block
waiting on such a stream. -/
theorem knows_of_read
    (reader : Reader)
    (frame : Frame) :
    (∀ entry, (reader.read frame).2 = some entry →
      reader.Knows frame entry.1) ∧
      ∀ waiting, (reader.read frame).1.continuing = some waiting →
        reader.Knows frame waiting.stream := by
  have before : ∀ waiting, reader.continuing = some waiting →
      reader.Knows frame waiting.stream :=
    fun waiting begun => Or.inr ⟨waiting, begun, rfl⟩
  rw [read]
  split
  next kind =>
    split
    · refine ⟨fun entry same => ?_, before⟩
      cases same
      exact Or.inl ⟨fun control => control.1 kind, rfl⟩
    · exact ⟨fun _ none => (by cases none), before⟩
  · split
    · exact ⟨fun _ none => (by cases none), before⟩
    next id octets ends assembles =>
      have known := knows_of_assembled assembles
      split
      · split
        · refine ⟨fun entry same => ?_, fun _ none => (by cases none)⟩
          cases same
          exact known
        · exact ⟨fun _ none => (by cases none), fun _ none => (by cases none)⟩
      · refine ⟨fun _ none => (by cases none), fun waiting same => ?_⟩
        cases same
        exact known

/-- An item came by a frame on its stream, unless its block was begun before. -/
theorem frame_of_item
    (reader : Reader)
    (frames : List Frame)
    {entry : Nat × Item}
    (member : entry ∈ (reader.readAll frames).2) :
    (∃ frame ∈ frames, ¬frame.Control ∧ frame.stream = entry.1) ∨
      ∃ waiting, reader.continuing = some waiting ∧
        waiting.stream = entry.1 := by
  induction frames generalizing reader with
  | nil => cases member
  | cons frame rest inductionHypothesis =>
      have known (knows : reader.Knows frame entry.1) :
          (∃ other ∈ frame :: rest, ¬other.Control ∧ other.stream = entry.1) ∨
            ∃ waiting, reader.continuing = some waiting ∧
              waiting.stream = entry.1 :=
        knows.imp_left fun own => ⟨frame, List.mem_cons_self, own⟩
      rw [readAll, List.mem_append, Option.mem_toList] at member
      rcases member with now | later
      · exact known ((reader.knows_of_read frame).1 entry now)
      · rcases inductionHypothesis (reader.read frame).1 later with
          ⟨other, among, own⟩ | ⟨waiting, begun, same⟩
        · exact Or.inl ⟨other, List.mem_cons_of_mem _ among, own⟩
        · exact known (same ▸
            (reader.knows_of_read frame).2 waiting begun)

end Reader

namespace Server

open Core Connection Fallible
open Event (messageSent)

/-! ## The requests that were given -/

/-- All that came on the streams whose requests were not given is told by their
records, those that are reset apart. -/
def Recounts (connection : Connection) (delivered : List Nat) : Prop :=
  Told (fun id => id ∈ delivered ∨ Dead connection.streams id)
    connection.sight

section Recounts

variable {connection after : Connection} {delivered later : List Nat}

/-- Nothing was heard, and one record alone was touched: its request was given,
or it is gone or reset. -/
theorem Recounts.touch
    (recounts : Recounts connection delivered)
    (id : Nat)
    (arrivals : Event.arrivals after.events =
      Event.arrivals connection.events)
    (reader : after.sight.reader = connection.sight.reader)
    (highest : connection.highest ≤ after.highest)
    (limit : after.core.headerListLimit = connection.core.headerListLimit)
    (others : ∀ other, id ≠ other →
      after.streams[other]? = connection.streams[other]?)
    (own : id ∈ later ∨ ∀ record, after.streams[id]? = some record →
      record.reset.isSome = true)
    (within : ∀ other, other ∈ delivered → other ∈ later) :
    Recounts after later where
  synced := by
    have synced := recounts.synced
    rw [reader, ← synced]
    exact congrArg (fun frames => (Reader.initial.readAll frames).1) arrivals
  fresh other above := by
    have fresh := recounts.fresh other (highest.trans_lt above)
    have same := Event.came_of_arrivals arrivals other
    rw [show after.sight.core.headerListLimit = _ from limit,
      show Event.came after.sight.core.events other = _ from same]
    exact fresh
  records other record found unexempted := by
    have live : ¬record.reset.isSome = true :=
      fun dead => unexempted (Or.inr ⟨record, found, dead⟩)
    have different : id ≠ other := by
      rintro rfl
      rcases own with given | dead
      · exact unexempted (Or.inl given)
      · exact live (dead record found)
    have there : connection.streams[other]? = some record :=
      (others other different).symm.trans found
    have same := Event.came_of_arrivals arrivals other
    rw [show after.sight.core.headerListLimit = _ from limit,
      show Event.came after.sight.core.events other = _ from same]
    refine recounts.records other record there ?_
    rintro (given | ⟨dead, now, reset⟩)
    · exact unexempted (Or.inl (within other given))
    · cases there.symm.trans now
      exact live reset

theorem Recounts.beat
    (recounts : Recounts connection delivered)
    (reached : Reached false connection)
    (beat : Beat connection after)
    (unbreached : Event.Unbreached after.events) :
    Recounts after delivered :=
  (beat.told reached.sound reached.level unbreached recounts).mono
    fun _ spared => spared.imp_right (beat.steps reached.sound.waits).dead

theorem Recounts.beats
    (recounts : Recounts connection delivered)
    (reached : Reached false connection)
    (beats : Beats connection after)
    (unbreached : Event.Unbreached after.events) :
    Recounts after delivered := by
  induction beats with
  | refl => exact recounts
  | @tail middle final before beat inductionHypothesis =>
      have still := reached.strides (Beats.strides before)
      have shorter := (beat.steps still.sound.waits).events
      exact (inductionHypothesis (unbreached.of_prefix shorter)).beat still beat
        unbreached

theorem Recounts.remove
    (recounts : Recounts connection delivered)
    (id : Nat) :
    Recounts (connection.remove id) delivered := by
  refine recounts.touch id rfl rfl le_rfl rfl (fun other different => ?_)
    (Or.inr fun record found => ?_) fun _ given => given
  · exact (NatMap.getElem?_erase ..).trans (if_neg different)
  · have gone := (NatMap.getElem?_erase ..).symm.trans found
    rw [if_pos rfl] at gone
    cases gone

/-- A stream whose head and body were taken off and that was then reset. -/
theorem recounts_spoil
    (recounts : Recounts connection delivered)
    {id : Nat}
    {stream : Stream}
    {code : ErrorCode}
    {outcome : Except NetError Unit}
    (resets : Connection.reset id code
      (connection.setStream id (emptied stream)) = (outcome, after)) :
    Recounts after delivered := by
  have core := core_reset id code (connection.setStream id (emptied stream))
  have sight := sight_reset id code (connection.setStream id (emptied stream))
  rw [resets] at core sight
  have events : after.events = connection.events ++ [.emitted (.reset id code)] :=
    congrArg Core.events core
  have streams : after.streams = (connection.streams.insert id
      (emptied stream)).modify id fun stream =>
        { stream with state := .closed, reset := some code } :=
    congrArg Core.streams core
  refine recounts.touch id (events ▸ Event.arrivals_log rfl) (sight ▸ rfl)
    (congrArg Core.highest core).ge ?_ (fun other different => ?_)
    (Or.inr fun record found => ?_) fun _ given => given
  · rw [core]
    rfl
  · rw [streams, NatMap.getElem?_modify, if_neg different,
      NatMap.getElem?_insert_ne different]
  · rw [streams, NatMap.getElem?_modify, if_pos rfl,
      NatMap.getElem?_insert_self] at found
    cases found
    rfl

end Recounts

/-- The request on `id` is what came on its stream says, once the blocks that
were malformed and had no record are passed by: the stream has ended, and its
head and body read as the request. -/
structure Delivered (codec : Percent) (events : List Event) (id : Nat)
    (request : Request) (earlier taken : List Item) : Prop where
  came : Event.came events id = earlier ++ taken
  blocks : ∀ item ∈ earlier, ∃ fields ends, item = .block fields ends
  ended : (Held.of taken).ended = true
  reads : ∃ head, (Held.of taken).head = some head ∧
    Message.requestOf codec head (Held.of taken).body = .ok request

section Given

variable {codec : Percent} {server after : Server} {delivered : List Nat}
  {given : List (Nat × Request)} {id : Nat} {request : Request}

/-- A request that a look gives is what came on its stream. -/
theorem told_of_look
    (serving : Serving server delivered)
    (recounts : Recounts server.connection delivered)
    {stream : Stream}
    {head : List Field}
    (first : server.ready = some (id, stream))
    (headed : takenHead stream = some head)
    (reads : Message.requestOf codec head stream.body = .ok request) :
    ∃ earlier taken, Delivered codec server.connection.events id request
      earlier taken := by
  obtain ⟨found, finished, unanswered⟩ := found_of_ready first
  obtain ⟨live, heads⟩ := live_of_takenHead headed
  have ungiven : id ∉ delivered :=
    fun member => unanswered (serving.waiting id member stream found)
  have unexempted : ¬(id ∈ delivered ∨ Dead server.connection.streams id) := by
    rintro (given | ⟨record, there, reset⟩)
    · exact ungiven given
    · cases there.symm.trans found
      rw [live] at reset
      cases reset
  obtain ⟨earlier, taken, late, split, malformed, _, tellsHead, body, _,
    alive⟩ := recounts.records id stream found unexempted
  obtain ⟨rfl, receiving⟩ := alive live
  rw [List.append_nil] at split
  refine ⟨earlier, taken, split, fun item member => ?_, ?_, head, ?_, ?_⟩
  · obtain ⟨fields, ends, _, same, _⟩ := malformed item member
    exact ⟨fields, ends, same⟩
  · have shut := shut_of_finished finished live
    rw [shut] at receiving
    simpa using receiving.symm
  · rw [← tellsHead, heads]
  · rw [← body, reads]

theorem Serving.recounts_look
    (serving : Serving server delivered)
    (recounts : Recounts server.connection delivered)
    {outcome : Except NetError Look}
    (runs : Server.look codec server = (outcome, after)) :
    Recounts after.connection
        (delivered ++ (Look.given outcome).map Prod.fst) ∧
      ∀ entry ∈ Look.given outcome, ∃ earlier taken,
        Delivered codec server.connection.events entry.1 entry.2
          earlier taken := by
  have none {entry : Nat × Request} (member : entry ∈ []) :
      ∃ earlier taken, Delivered codec server.connection.events entry.1
        entry.2 earlier taken := by cases member
  cases looked_of_look runs with
  | nothing nothing =>
      simp only [Look.given, List.map_nil, List.append_nil]
      exact ⟨recounts, fun _ => none⟩
  | @headless id stream first headless =>
      simp only [Look.given, List.map_nil, List.append_nil]
      refine ⟨recounts.touch id rfl rfl le_rfl rfl ?_ (Or.inr ?_)
        fun _ given => given, fun _ => none⟩
      · intro other different
        exact (NatMap.getElem?_erase ..).trans ((if_neg different).trans
          (NatMap.getElem?_insert_ne different _))
      · intro record found
        have gone := (NatMap.getElem?_erase ..).symm.trans found
        rw [if_pos rfl] at gone
        cases gone
  | @request id stream head request first headed reads =>
      refine ⟨recounts.touch id rfl rfl le_rfl rfl ?_ (Or.inl ?_) ?_, ?_⟩
      · exact fun other different => NatMap.getElem?_insert_ne different _
      · exact List.mem_append_right _ (List.mem_singleton_self _)
      · exact fun other given => List.mem_append_left _ given
      · intro entry member
        cases List.mem_singleton.mp member
        exact told_of_look serving recounts first headed reads
  | @malformed id stream head malformed reset first headed fails resets =>
      simp only [Look.given, List.map_nil, List.append_nil]
      exact ⟨(recounts_spoil recounts resets).remove id, fun _ => none⟩
  | @lost id stream head malformed reset failure first headed fails resets =>
      simp only [Look.given, List.map_nil, List.append_nil]
      exact ⟨recounts_spoil recounts resets, fun _ => none⟩

/-- What holds over the deals of a server from its handshake, the requests
`given` by them. -/
structure Accounted (codec : Percent) (server : Server)
    (given : List (Nat × Request)) : Prop where
  serving : Serving server (given.map Prod.fst)
  reached : Reached false server.connection
  recounts : Event.Unbreached server.connection.events →
    Recounts server.connection (given.map Prod.fst)
  told : Event.Unbreached server.connection.events → ∀ entry ∈ given,
    ∃ moment earlier taken, moment <+: server.connection.events ∧
      Delivered codec moment entry.1 entry.2 earlier taken

theorem Accounted.deal
    {more : List (Nat × Request)}
    (accounted : Accounted codec server given)
    (deal : Deal codec server more after) :
    Accounted codec after (given ++ more) := by
  obtain ⟨serving, reached, recounts, told⟩ := accounted
  have served := serving.deal deal
  have onward := serving.reached_deal reached deal
  have shorter := served.2.events
  have before (unbreached : Event.Unbreached after.connection.events) :
      Event.Unbreached server.connection.events :=
    unbreached.of_prefix shorter
  have still (unbreached : Event.Unbreached after.connection.events) :
      ∀ entry ∈ given, ∃ moment earlier taken,
        moment <+: after.connection.events ∧
          Delivered codec moment entry.1 entry.2 earlier taken := by
    intro entry member
    obtain ⟨moment, earlier, taken, begins, delivers⟩ :=
      told (before unbreached) entry member
    exact ⟨moment, earlier, taken, begins.trans shorter, delivers⟩
  refine ⟨?_, onward, fun unbreached => ?_, fun unbreached => ?_⟩
  · rw [List.map_append]
    exact served.1
  · rw [List.map_append]
    have account := recounts (before unbreached)
    cases deal with
    | looked runs => exact (serving.recounts_look account runs).1
    | beat beat =>
        rw [List.map_nil, List.append_nil]
        exact account.beat reached beat unbreached
    | @answered id connection waiting beats =>
        rw [List.map_nil, List.append_nil]
        have calm : Event.Unbreached connection.events := unbreached
        exact (account.beats reached beats calm).remove id
  · have account := recounts (before unbreached)
    intro entry member
    rcases List.mem_append.mp member with earlier | now
    · exact still unbreached entry earlier
    · cases deal with
      | looked runs =>
          obtain ⟨earlier, taken, delivers⟩ :=
            (serving.recounts_look account runs).2 entry now
          exact ⟨_, earlier, taken, shorter, delivers⟩
      | beat | answered => cases now

theorem Accounted.deals
    {more : List (Nat × Request)}
    (accounted : Accounted codec server given)
    (deals : Deals codec server more after) :
    Accounted codec after (given ++ more) := by
  induction deals with
  | none =>
      rw [List.append_nil]
      exact accounted
  | more _ deal inductionHypothesis =>
      rw [← List.append_assoc]
      exact inductionHypothesis.deal deal

theorem accounted_of_handshake
    {wire : Wire}
    (codec : Percent)
    (opens : handshake wire = .ok server) :
    Accounted codec server [] where
  serving := serving_of_handshake opens
  reached := reached_of_handshake opens
  recounts unbreached := by
    obtain ⟨rest, starts⟩ := start_of_handshake opens
    have fresh : Recounts (initial rest false) [] := told_initial rest false
    exact fresh.beats ⟨rest, .refl⟩ (beats_start starts) unbreached
  told _ _ member := by cases member

/-- Wherever a run of a server has come. -/
theorem accounted_run
    {wire : Wire}
    (codec : Percent)
    (opens : handshake wire = .ok server)
    (asks : List Ask) :
    Accounted codec (run codec server asks).2 (run codec server asks).1 := by
  have deals := (serving_of_handshake opens).deals_run codec asks
  exact (accounted_of_handshake codec opens).deals deals

/-- A frame of a message came on the stream of a request that was given. -/
theorem Accounted.frame
    (accounted : Accounted codec server given)
    (unbreached : Event.Unbreached server.connection.events)
    (member : id ∈ given.map Prod.fst) :
    ∃ frame, .received frame ∈ server.connection.events ∧
      ¬frame.Control ∧ frame.stream = id := by
  obtain ⟨entry, among, rfl⟩ := List.mem_map.mp member
  obtain ⟨moment, earlier, taken, begins, delivers⟩ :=
    accounted.told unbreached entry among
  obtain ⟨head, headed, _⟩ := delivers.reads
  have some : taken ≠ [] := by
    rintro rfl
    cases headed
  obtain ⟨item, member⟩ := List.exists_mem_of_ne_nil taken some
  have came : item ∈ onStream (Event.items moment) entry.1 := by
    have same : Event.came moment entry.1 =
        onStream (Event.items moment) entry.1 := rfl
    rw [← same, delivers.came]
    exact List.mem_append_right _ member
  obtain ⟨said, within, own⟩ := List.mem_filterMap.mp came
  have stream : said.1 = entry.1 := by
    by_contra different
    rw [if_neg different] at own
    cases own
  rcases Reader.initial.frame_of_item _ within with
    ⟨frame, arrived, carries, same⟩ | ⟨waiting, begun, _⟩
  · refine ⟨frame, begins.subset ?_, carries, same.trans stream⟩
    obtain ⟨event, happened, read⟩ := List.mem_filterMap.mp arrived
    cases event with
    | received other =>
        cases read
        exact happened
    | emitted | passedOver | breached => cases read
  · cases begun

end Given

/-! ## The answers that were said -/

/-- An answer as it goes out. -/
def replying (response : Response) : Outgoing where
  head := Message.responseFields response
  body := if response.body = [] then none else some response.body
  trailers :=
    if Message.carried response.trailers = [] then
      none
    else
      some (Message.carried response.trailers)
  ends := true

/-- What the stream of an answer holds once all of it has come, where neither its
head nor its trailers are taken for an informational head. -/
theorem held_replying
    (response : Response)
    (final : Stream.informational (Message.responseFields response) = false)
    (plain : Stream.informational (Message.carried response.trailers) = false) :
    Held.of (replying response).items =
      { head := some (Message.responseFields response)
        body := response.body
        trailers := Message.carried response.trailers
        ended := true } := by
  simp only [replying, Outgoing.items, Outgoing.trailing, Held.of,
    List.foldl_cons, Held.take, Held.nothing, final]
  by_cases empty : response.body = [] <;>
    by_cases none : Message.carried response.trailers = [] <;>
      simp [empty, none, plain, Held.take, Outgoing.endsHead,
        Outgoing.endsBody]

section Silent

variable {codec : Percent} {server after : Server} {delivered : List Nat}

/-- A look says nothing. -/
theorem silent_look
    {outcome : Except NetError Look}
    (runs : Server.look codec server = (outcome, after)) :
    Silent server.connection after.connection := by
  have spoiled {id : Nat} {stream : Stream} {code : ErrorCode}
      {outcome : Except NetError Unit} {reset : Connection}
      (resets : Connection.reset id code
        (server.connection.setStream id (emptied stream)) =
          (outcome, reset)) :
      Silent server.connection reset := by
    have silent := silent_reset id code
      (server.connection.setStream id (emptied stream))
    rw [resets] at silent
    have kept : Silent server.connection
        (server.connection.setStream id (emptied stream)) :=
      silent_of_kept rfl rfl
    exact kept.trans silent
  cases looked_of_look runs with
  | nothing nothing => exact silent_refl _
  | headless first headless => exact silent_of_kept rfl rfl
  | request first headed reads => exact silent_of_kept rfl rfl
  | malformed first headed fails resets =>
      exact (spoiled resets).trans (silent_of_kept rfl rfl)
  | lost first headed fails resets => exact spoiled resets

theorem silent_finished (codec : Percent) (server : Server) :
    Silent server.connection (finished codec server).2.connection := by
  rw [Server.finished]
  fun_induction lookFrom codec server with
  | case1 server failure after runs => exact silent_look runs
  | case2 server taken after runs => exact silent_look runs
  | case3 server after runs inductionHypothesis =>
      exact (silent_look runs).trans inductionHypothesis

theorem Serving.silent_readFrame
    (serving : Serving server delivered) :
    Silent server.connection (Server.readFrame server).2.connection := by
  rw [Server.readFrame, get_bind_apply]
  split
  · exact silent_refl _
  · exact silent_pump serving.parted.sound.waits

theorem Serving.silent_await
    (serving : Serving server delivered)
    {outcome : Except NetError (Option (Option (Nat × Request)))}
    (runs : Server.await codec server = (outcome, after)) :
    Silent server.connection after.connection := by
  have silent := silent_finished codec server
  have looked := serving.finished codec
  rw [Server.await, bind_apply] at runs
  split at runs
  next taken middle finds =>
    rw [finds] at silent looked
    cases taken with
    | some request =>
        cases runs
        exact silent
    | none =>
        have still : Serving middle delivered := by
          simpa [given] using looked.1
        have read := still.silent_readFrame
        simp only [bind_apply] at runs
        split at runs
        next more last reads =>
          rw [reads] at read
          cases runs
          exact silent.trans read
        next failure last reads =>
          rw [reads] at read
          cases runs
          exact silent.trans read
  next failure middle finds =>
    rw [finds] at silent
    cases runs
    exact silent

theorem Serving.silent_nextRequest
    (serving : Serving server delivered)
    (codec : Percent) :
    Silent server.connection
      (Server.nextRequest codec server).2.connection := by
  rw [Server.nextRequest]
  fun_induction awaitFrom codec server with
  | case1 server failure after runs => exact serving.silent_await runs
  | case2 server taken after runs => exact serving.silent_await runs
  | case3 server after runs inductionHypothesis =>
      have waited := serving.await runs
      have still : Serving after delivered := by
        simpa [given, Except.map] using waited.1
      exact (serving.silent_await runs).trans (inductionHypothesis still)

theorem silent_drain
    {connection : Connection}
    (waits : Waits connection.core)
    (limit : Nat) :
    Silent connection (drain limit connection).2 := by
  induction limit generalizing connection with
  | zero => exact silent_refl connection
  | succ limit inductionHypothesis =>
      have silent := silent_pump waits
      have moved := (plays_pump connection).moves waits
      rw [Moves] at moved
      rw [drain, bind_apply, attempt_apply]
      rcases reads : pump connection with ⟨failure | more, read⟩
      · rw [reads] at silent
        exact silent
      · rw [reads] at silent moved
        cases more with
        | true => exact silent.trans (inductionHypothesis (moved.waits waits))
        | false => exact silent

theorem Serving.silent_close
    (serving : Serving server delivered) :
    Silent server.connection (Server.close server).2.connection := by
  have goodbye : Silent server.connection (sayGoodbye server).2.connection := by
    rw [sayGoodbye, get_bind_apply]
    split
    · exact silent_refl _
    · exact silent_goAway .noError "" server.connection
  have steps := (steps_sayGoodbye server).1
  rw [Server.close, bind_apply]
  split
  next after runs =>
    rw [runs] at goodbye steps
    have drained := silent_drain
      (steps.waits serving.parted.sound.waits) drainLimit
    exact goodbye.trans drained
  next failure after runs =>
    rw [runs] at goodbye
    exact goodbye

/-- A call says an answer on the stream it was asked for, or nothing at all. -/
inductive Voices (codec : Percent) (server : Server) (ask : Ask) : Prop
  | silent
      (silent : Silent server.connection
        (perform codec server ask).2.connection)
  | answered {id : Nat} {response : Response} {said : List Item}
      (same : ask = .respond id response)
      (waiting : id ∈ server.answering)
      (utters : Utters id server.connection
        (perform codec server ask).2.connection said)
      (voiced : (replying response).Voiced said)

theorem Serving.voices
    (serving : Serving server delivered)
    (reached : Reached false server.connection)
    (codec : Percent)
    (ask : Ask) :
    Voices codec server ask := by
  cases ask with
  | readFrame => exact .silent serving.silent_readFrame
  | finished => exact .silent (silent_finished codec server)
  | nextRequest => exact .silent (serving.silent_nextRequest codec)
  | goAway => exact .silent (silent_goAway .noError "" server.connection)
  | close => exact .silent serving.silent_close
  | respond id response =>
      by_cases waiting : id ∈ server.answering
      · have building : Reached false
            { server.connection with held := some [] } :=
          reached.strides (.single (.beat (.aside rfl)))
        have filled : (replying response).body ≠ some [] := by
          rw [replying]
          by_cases empty : response.body = [] <;> simp [empty]
        obtain ⟨said, utters, voiced⟩ := Outgoing.utters_send building rfl
          (replying response) filled id
        rw [replying, ← sendAnswer_eq] at utters
        refine .answered rfl waiting ?_ voiced
        rw [Server.perform, respond_of_waiting waiting]
        exact (utters_together utters).silent (silent_of_kept rfl rfl)
      · refine .silent ?_
        rw [Server.perform, respond_of_unknown waiting]
        exact silent_refl _

end Silent

/-- A frame of a message went out on a stream only after one had come there. -/
def Prompted (events : List Event) : Prop :=
  ∀ before frame after, events = before ++ .emitted frame :: after →
    ¬frame.Control → ∃ heard, .received heard ∈ before ∧ ¬heard.Control ∧
      heard.stream = frame.stream

theorem Prompted.append
    {events later : List Event}
    (prompted : Prompted events)
    (more : ∀ frame ∈ messageSent later, ∃ heard, .received heard ∈ events ∧
      ¬heard.Control ∧ heard.stream = frame.stream) :
    Prompted (events ++ later) := by
  intro before frame after split carries
  rcases List.append_eq_append_iff.mp split with
    ⟨middle, reaches, rest⟩ | ⟨middle, reaches, rest⟩
  · have sent : frame ∈ messageSent later := by
      rw [rest, ← List.singleton_append, Event.messageSent_append,
        Event.messageSent_append, Event.messageSent_emitted carries]
      exact List.mem_append_right _ (List.mem_append_left _
        (List.mem_singleton_self _))
    obtain ⟨heard, member, same⟩ := more frame sent
    refine ⟨heard, ?_, same⟩
    rw [reaches]
    exact List.mem_append_left _ member
  · cases middle with
    | nil =>
        rw [List.nil_append] at rest
        rw [List.append_nil] at reaches
        have sent : frame ∈ messageSent later := by
          rw [← rest, ← List.singleton_append, Event.messageSent_append,
            Event.messageSent_emitted carries]
          exact List.mem_append_left _ (List.mem_singleton_self _)
        obtain ⟨heard, member, same⟩ := more frame sent
        exact ⟨heard, reaches ▸ member, same⟩
    | cons event middle =>
        obtain ⟨rfl, rest⟩ := List.cons.inj rest
        exact prompted before frame middle reaches carries

section Replied

variable {codec : Percent} {server : Server}

/-- What was said over the calls `asks`: of each answer that was taken, on its
stream, and nothing else. -/
structure Replied (codec : Percent) (server : Server) (asks : List Ask)
    (said : List (Nat × Item)) : Prop where
  spoken : Spoken (messageSent (run codec server asks).2.connection.events) said
    (run codec server asks).2.connection.encoder
  replied : ∀ id, onStream said id ≠ [] → ∃ earlier response later,
    asks = earlier ++ .respond id response :: later ∧
      id ∈ (run codec server earlier).2.answering ∧
        (replying response).Voiced (onStream said id)

/-- Nothing was said on a stream that waits for its answer. -/
theorem Replied.unsaid
    {wire : Wire}
    (opens : handshake wire = .ok server)
    {asks : List Ask}
    {said : List (Nat × Item)}
    (replied : Replied codec server asks said)
    {id : Nat}
    (waiting : id ∈ (run codec server asks).2.answering) :
    onStream said id = [] := by
  by_contra some
  obtain ⟨earlier, response, later, split, waits, _⟩ := replied.replied id some
  have serving := served_of_handshake codec opens earlier
  exact unanswered_of_answered (serving_of_handshake opens)
    ⟨earlier, response, later, split, serving.named id waits⟩ waiting

theorem Replied.perform
    {wire : Wire}
    (opens : handshake wire = .ok server)
    {asks : List Ask}
    {said : List (Nat × Item)}
    (replied : Replied codec server asks said)
    (ask : Ask) :
    ∃ more, Replied codec server (asks ++ [ask]) (said ++ more) := by
  have one : (run codec server (asks ++ [ask])).2 =
      (Server.perform codec (run codec server asks).2 ask).2 := by
    rw [run_append]
    rfl
  have earlier (id : Nat) (some : onStream said id ≠ []) :
      ∃ earlier response later, asks ++ [ask] =
          earlier ++ .respond id response :: later ∧
        id ∈ (run codec server earlier).2.answering ∧
          (replying response).Voiced (onStream said id) := by
    obtain ⟨before, response, later, rfl, rest⟩ := replied.replied id some
    exact ⟨before, response, later ++ [ask], by simp, rest⟩
  have accounted := accounted_run codec opens asks
  cases accounted.serving.voices accounted.reached codec ask with
  | silent silent =>
      obtain ⟨⟨later, grown, nothing⟩, resizes⟩ := silent
      refine ⟨[], ?_, ?_⟩ <;> rw [List.append_nil]
      · rw [one, grown, Event.messageSent_append, nothing, List.append_nil]
        exact spoken_of_resizes resizes replied.spoken
      · exact earlier
  | @answered id response added same waiting utters voiced =>
      refine ⟨added.map (Prod.mk id), ?_, fun other some => ?_⟩
      · rw [one]
        exact utters.spoken said replied.spoken
      · rw [onStream_append] at some ⊢
        by_cases own : id = other
        · cases own
          rw [replied.unsaid opens waiting, List.nil_append, onStream_own]
          exact ⟨asks, response, [], by rw [same], waiting, voiced⟩
        · rw [onStream_other own, List.append_nil] at some ⊢
          exact earlier other some

theorem replied_of_handshake
    {wire : Wire}
    (codec : Percent)
    (opens : handshake wire = .ok server) :
    messageSent server.connection.events = [] ∧
      Replied codec server [] [] := by
  obtain ⟨rest, starts⟩ := start_of_handshake opens
  obtain ⟨⟨later, grown, nothing⟩, resizes⟩ := silent_start starts
  have none : messageSent server.connection.events = [] := by
    rw [grown]
    exact nothing
  refine ⟨none, ?_, fun id some => absurd rfl some⟩
  rw [run, none]
  exact spoken_of_resizes resizes .silence

/-- What was said over every run of a server. -/
theorem exists_replied
    {wire : Wire}
    (codec : Percent)
    (opens : handshake wire = .ok server)
    (asks : List Ask) :
    ∃ said, Replied codec server asks said := by
  induction asks using List.reverseRecOn with
  | nil => exact ⟨[], (replied_of_handshake codec opens).2⟩
  | append_singleton asks ask inductionHypothesis =>
      obtain ⟨said, replied⟩ := inductionHypothesis
      obtain ⟨more, longer⟩ := replied.perform opens ask
      exact ⟨said ++ more, longer⟩

/-- Over every run that was not ended over a breach an answer only went out on a
stream on which a request had come. -/
theorem prompted_run
    {wire : Wire}
    (codec : Percent)
    (opens : handshake wire = .ok server)
    (asks : List Ask)
    (unbreached : Event.Unbreached
      (run codec server asks).2.connection.events) :
    Prompted (run codec server asks).2.connection.events := by
  induction asks using List.reverseRecOn with
  | nil =>
      have none := (replied_of_handshake codec opens).1
      have start : Prompted [] := by
        intro before frame after split
        cases before <;> cases split
      rw [run, ← List.nil_append server.connection.events]
      refine start.append fun frame member => ?_
      rw [none] at member
      cases member
  | append_singleton asks ask inductionHypothesis =>
      have one : (run codec server (asks ++ [ask])).2 =
          (Server.perform codec (run codec server asks).2 ask).2 := by
        rw [run_append]
        rfl
      have accounted := accounted_run codec opens asks
      have shorter := (accounted.serving.perform codec ask).2.events
      rw [one] at unbreached ⊢
      have before : Event.Unbreached
          (run codec server asks).2.connection.events :=
        unbreached.of_prefix shorter
      have prompted := inductionHypothesis before
      cases accounted.serving.voices accounted.reached codec ask with
      | silent silent =>
          obtain ⟨⟨later, grown, nothing⟩, _⟩ := silent
          rw [grown]
          refine prompted.append fun frame member => ?_
          rw [nothing] at member
          cases member
      | @answered id response added same waiting utters voiced =>
          obtain ⟨later, grown, onward⟩ := utters.grown
          rw [grown]
          refine prompted.append fun frame member => ?_
          rw [onward frame member]
          exact accounted.frame before
            (accounted.serving.named id waiting)

end Replied

end Server
end Http2
end XmipNet

import XmipNet.Http2.ServerRuns
import Mathlib.Algebra.BigOperators.Group.Finset.Basic
import Mathlib.Algebra.Order.BigOperators.Group.Finset

/-!
# What a `GOAWAY` lets finish

Once a server has sent a `GOAWAY` it gives no request above the stream it named,
and the requests below it that were under way still come: a live record stays in
the table until its request is given, unless one side resets its stream or the
client ends it without a head, and once the client has ended it, enough calls of
`finished` give it, whatever becomes of the malformed ones before it.
-/

namespace XmipNet
namespace Http2

open Hpack (Field)
open Http (Request Response)

namespace Core

/-- On a server a live record stays, and stays live, until one side resets its
stream. -/
theorem Steps.stays_live
    {core after : Core}
    (steps : Steps core after)
    (placed : Placed core)
    (server : core.client = false)
    {id : Nat}
    {stream : Stream}
    (found : core.streams[id]? = some stream)
    (live : stream.reset = none) :
    (∃ changed, after.streams[id]? = some changed ∧ changed.reset = none) ∨
      Event.ResetSeen after.events id := by
  induction steps with
  | refl => exact Or.inl ⟨stream, found, live⟩
  | @tail middle after moved step inductionHypothesis =>
      rcases inductionHypothesis with ⟨whole, there, alive⟩ | seen
      · obtain ⟨changed, now⟩ := step.keeps_record there
        rcases step.stays_live (Steps.placed moved placed)
          ((Steps.client moved).trans server) there alive now with live | seen
        · exact Or.inl ⟨changed, now, live⟩
        · exact Or.inr seen
      · exact Or.inr (seen.mono step.events.subset)

end Core

namespace Server

open Core Connection
open Fallible (bind_apply get_bind_apply)

/-! ## What a look leaves alone -/

/-- A look touches no record but the one it looks at. -/
theorem untouched_of_look
    {codec : Percent}
    {server after : Server}
    {outcome : Except NetError Look}
    (runs : look codec server = (outcome, after))
    {id other : Nat}
    {stream : Stream}
    (first : server.ready = some (other, stream))
    (different : other ≠ id) :
    after.connection.streams[id]? = server.connection.streams[id]? ∧
      (id ∈ after.answering ↔ id ∈ server.answering) := by
  have written : ∀ record : Stream,
      (server.connection.streams.insert other record)[id]? =
        server.connection.streams[id]? :=
    NatMap.getElem?_insert_ne different
  have marked : ∀ {code : ErrorCode} {result : Except NetError Unit}
      {reset : Connection},
      Connection.reset other code
        (server.connection.setStream other (emptied stream)) =
          (result, reset) →
      reset.streams[id]? = server.connection.streams[id]? := by
    intro code result reset resets
    have streams := streams_reset other code
      (server.connection.setStream other (emptied stream))
    rw [resets] at streams
    rw [streams, NatMap.getElem?_modify, if_neg different]
    exact written (emptied stream)
  cases looked_of_look runs with
  | nothing nothing =>
      rw [nothing] at first
      cases first
  | headless chosen headless =>
      cases chosen.symm.trans first
      refine ⟨?_, Iff.rfl⟩
      exact (NatMap.getElem?_erase ..).trans
        ((if_neg different).trans (written (emptied stream)))
  | request chosen headed reads =>
      cases chosen.symm.trans first
      refine ⟨written (emptied stream), ?_⟩
      simp only [Finset.mem_insert, different.symm, false_or]
  | malformed chosen headed fails resets =>
      cases chosen.symm.trans first
      refine ⟨?_, Iff.rfl⟩
      exact (NatMap.getElem?_erase ..).trans
        ((if_neg different).trans (marked resets))
  | lost chosen headed fails resets =>
      cases chosen.symm.trans first
      exact ⟨marked resets, Iff.rfl⟩

theorem emitted_of_reset
    {connection after : Connection}
    {id : Nat}
    {code : ErrorCode}
    {outcome : Except NetError Unit}
    (resets : Connection.reset id code connection = (outcome, after)) :
    .emitted (.reset id code) ∈ after.events := by
  have logged := congrArg Core.events (core_reset id code connection)
  rw [resets] at logged
  rw [show after.events = _ from logged]
  exact List.mem_append_right _ (List.mem_singleton_self _)

/-! ## A request under way -/

/-- One thing a server does: a look, a frame read, or another call. -/
inductive Deed (codec : Percent) : Server → Server → Prop
  | look (server : Server) : Deed codec server (look codec server).2
  | readFrame (server : Server) : Deed codec server (readFrame server).2
  | respond (server : Server) (id : Nat) (response : Response) :
      Deed codec server (respond id response server).2
  | goAway (server : Server) : Deed codec server (goAway server).2
  | close (server : Server) : Deed codec server (close server).2

/-- A server comes by another. -/
abbrev Passes (codec : Percent) : Server → Server → Prop :=
  Relation.ReflTransGen (Deed codec)

/-- The stream `id` is under way: its record is there, live, and its request not
given yet. -/
def Pending (server : Server) (id : Nat) : Prop :=
  ∃ stream, server.connection.streams[id]? = some stream ∧
    stream.reset = none ∧ id ∉ server.answering

/-- The client has ended `id` without a head. -/
def Headless (server : Server) (id : Nat) : Prop :=
  ∃ stream, server.connection.streams[id]? = some stream ∧
    stream.reset = none ∧ stream.state.receiving = false ∧ stream.head = none

/-- What became of a stream under way: its request was given, one side reset it,
the client ended it without a head, or it is still under way. -/
inductive Fate (codec : Percent) (server after : Server) (id : Nat)
    (given : List (Nat × Request)) : Prop
  | given (member : id ∈ given.map Prod.fst)
  | reset (seen : Event.ResetSeen after.connection.events id)
  | headless (moment : Server) (passes : Passes codec server moment)
      (headless : Headless moment id)
  | pending (pending : Pending after id)

section Fates

variable {codec : Percent} {server middle after : Server} {id : Nat}
  {delivered : List Nat}

theorem Fate.trans
    {given more : List (Nat × Request)}
    (fate : Fate codec server middle id given)
    (passes : Passes codec server middle)
    (turns : Turns middle.connection.core after.connection.core)
    (next : Pending middle id → Fate codec middle after id more) :
    Fate codec server after id (given ++ more) := by
  cases fate with
  | given member =>
      refine .given ?_
      rw [List.map_append]
      exact List.mem_append_left _ member
  | reset seen => exact .reset (seen.mono turns.events.subset)
  | headless moment before headless => exact .headless moment before headless
  | pending pending =>
      cases next pending with
      | given member =>
          refine .given ?_
          rw [List.map_append]
          exact List.mem_append_right _ member
      | reset seen => exact .reset seen
      | headless moment later headless =>
          exact .headless moment (passes.trans later) headless
      | pending still => exact .pending still

/-- Steps of the core leave a stream under way, or one side resets it. -/
theorem Serving.fate_of_steps
    (serving : Serving server delivered)
    (pending : Pending server id)
    (steps : Steps server.connection.core after.connection.core)
    (same : after.answering = server.answering) :
    Fate codec server after id [] := by
  obtain ⟨stream, found, live, unanswered⟩ := pending
  rcases steps.stays_live serving.parted.sound.placed serving.serves found live
    with ⟨changed, there, alive⟩ | seen
  · exact .pending ⟨changed, there, alive, same ▸ unanswered⟩
  · exact .reset seen

theorem fate_of_look
    (pending : Pending server id)
    {outcome : Except NetError Look}
    (runs : look codec server = (outcome, after)) :
    Fate codec server after id (Look.given outcome) := by
  obtain ⟨stream, found, live, unanswered⟩ := pending
  cases first : server.ready with
  | none =>
      cases looked_of_look runs with
      | nothing => exact .pending ⟨stream, found, live, unanswered⟩
      | headless chosen => cases first.symm.trans chosen
      | request chosen => cases first.symm.trans chosen
      | malformed chosen => cases first.symm.trans chosen
      | lost chosen => cases first.symm.trans chosen
  | some entry =>
      obtain ⟨other, record⟩ := entry
      by_cases same : other = id
      · cases same
        obtain ⟨there, finished, _⟩ := found_of_ready first
        cases there.symm.trans found
        cases looked_of_look runs with
        | nothing nothing => cases first.symm.trans nothing
        | headless chosen headless =>
            cases chosen.symm.trans first
            refine .headless server .refl ⟨stream, found, live,
              shut_of_finished finished live, ?_⟩
            rwa [takenHead, live] at headless
        | request chosen headed reads =>
            cases chosen.symm.trans first
            exact .given (List.mem_singleton_self _)
        | malformed chosen headed fails resets =>
            cases chosen.symm.trans first
            have sent := emitted_of_reset resets
            exact .reset (Or.inr ⟨_, sent⟩)
        | lost chosen headed fails resets =>
            cases chosen.symm.trans first
            exact .reset (Or.inr ⟨_, emitted_of_reset resets⟩)
      · obtain ⟨kept, answers⟩ := untouched_of_look runs first same
        exact .pending ⟨stream, kept.trans found, live,
          fun member => unanswered (answers.mp member)⟩

theorem deed_of_look
    {outcome : Except NetError Look}
    (runs : look codec server = (outcome, after)) :
    Deed codec server after := by
  have deed : Deed codec server (look codec server).2 := .look server
  rwa [runs] at deed

theorem passes_finished (codec : Percent) (server : Server) :
    Passes codec server (finished codec server).2 := by
  rw [finished]
  fun_induction lookFrom codec server with
  | case1 server failure after runs => exact .single (deed_of_look runs)
  | case2 server taken after runs => exact .single (deed_of_look runs)
  | case3 server after runs inductionHypothesis =>
      exact .head (deed_of_look runs) inductionHypothesis

theorem Serving.fate_of_finished
    (serving : Serving server delivered)
    (pending : Pending server id) :
    Fate codec server (Server.finished codec server).2 id
      (given (Server.finished codec server).1) := by
  rw [Server.finished]
  fun_induction lookFrom codec server with
  | case1 server failure after runs => exact fate_of_look pending runs
  | case2 server taken after runs =>
      cases taken <;> exact fate_of_look pending runs
  | case3 server after runs inductionHypothesis =>
      have looked := serving.look runs
      have still : Serving after delivered := by
        simpa [Look.given] using looked.1
      exact (fate_of_look pending runs).trans
        (.single (deed_of_look runs)) (still.finished codec).2
        (inductionHypothesis still)

theorem Serving.fate_of_readFrame
    (serving : Serving server delivered)
    (pending : Pending server id) :
    Fate codec server (Server.readFrame server).2 id [] := by
  rw [Server.readFrame, get_bind_apply]
  split
  · exact .pending pending
  · exact serving.fate_of_steps pending
      (moves_pump serving.parted.sound.waits) rfl

theorem passes_await
    {outcome : Except NetError (Option (Option (Nat × Request)))}
    (runs : await codec server = (outcome, after)) :
    Passes codec server after := by
  have passes := passes_finished codec server
  rw [await, bind_apply] at runs
  split at runs
  next taken middle finds =>
    rw [finds] at passes
    cases taken with
    | some request =>
        cases runs
        exact passes
    | none =>
        have deed : Deed codec middle (readFrame middle).2 := .readFrame middle
        simp only [bind_apply] at runs
        split at runs
        next more last reads =>
          rw [reads] at deed
          cases runs
          exact passes.tail deed
        next failure last reads =>
          rw [reads] at deed
          cases runs
          exact passes.tail deed
  next failure middle finds =>
    rw [finds] at passes
    cases runs
    exact passes

/-- A turn of the wait for a request is a call of `finished` and, where it gives
none, a frame read. -/
theorem Serving.fate_of_await
    (serving : Serving server delivered)
    (pending : Pending server id)
    {outcome : Except NetError (Option (Option (Nat × Request)))}
    (runs : Server.await codec server = (outcome, after)) :
    Fate codec server after id
      (given (outcome.map fun taken => taken.getD none)) := by
  have fate : Fate codec server _ id _ := serving.fate_of_finished pending
  have passes := passes_finished codec server
  have looked := serving.finished codec
  rw [Server.await, bind_apply] at runs
  split at runs
  next taken middle finds =>
    rw [finds] at fate passes looked
    cases taken with
    | some request =>
        cases runs
        exact fate
    | none =>
        have still : Serving middle delivered := by
          simpa [given] using looked.1
        have whole := fate.trans passes still.readFrame.2
          still.fate_of_readFrame
        simp only [bind_apply] at runs
        split at runs
        next more last reads =>
          rw [reads] at whole
          cases runs
          cases more <;> exact whole
        next failure last reads =>
          rw [reads] at whole
          cases runs
          exact whole
  next failure middle finds =>
    rw [finds] at fate
    cases runs
    exact fate

theorem Serving.fate_of_nextRequest
    (serving : Serving server delivered)
    (pending : Pending server id) :
    Fate codec server (Server.nextRequest codec server).2 id
      (given (Server.nextRequest codec server).1) := by
  rw [Server.nextRequest]
  fun_induction awaitFrom codec server with
  | case1 server failure after runs =>
      exact serving.fate_of_await pending runs
  | case2 server taken after runs =>
      exact serving.fate_of_await pending runs
  | case3 server after runs inductionHypothesis =>
      have waited := serving.await runs
      have still : Serving after delivered := by
        simpa [given, Except.map] using waited.1
      exact (serving.fate_of_await pending runs).trans (passes_await runs)
        (still.nextRequest codec).2 (inductionHypothesis still)

theorem Serving.fate_of_respond
    (serving : Serving server delivered)
    (pending : Pending server id)
    (other : Nat)
    (response : Response) :
    Fate codec server (Server.respond other response server).2 id [] := by
  by_cases waiting : other ∈ server.answering
  · have different : other ≠ id := by
      obtain ⟨_, _, _, unanswered⟩ := pending
      exact fun same => unanswered (same ▸ waiting)
    have moves := moves_answer serving.parted.sound.waits
      (serving.kept other waiting) response
    rw [respond_of_waiting waiting]
    obtain ⟨stream, found, live, unanswered⟩ := pending
    rcases Steps.stays_live moves serving.parted.sound.placed serving.serves
      found live with ⟨changed, there, alive⟩ | seen
    · refine .pending ⟨changed, ?_, alive,
        fun member => unanswered (Finset.mem_of_mem_erase member)⟩
      exact (NatMap.getElem?_erase ..).trans ((if_neg different).trans there)
    · exact .reset seen
  · rw [respond_of_unknown waiting]
    exact .pending pending

/-- A stream under way meets its fate over one call. -/
theorem Serving.fate_of_perform
    (serving : Serving server delivered)
    (pending : Pending server id)
    (ask : Ask) :
    Fate codec server (Server.perform codec server ask).2 id
      (Server.perform codec server ask).1 := by
  cases ask with
  | readFrame => exact serving.fate_of_readFrame pending
  | finished => exact serving.fate_of_finished pending
  | nextRequest => exact serving.fate_of_nextRequest pending
  | respond other response =>
      exact serving.fate_of_respond pending other response
  | goAway =>
      exact serving.fate_of_steps pending (moves_goAway _ _ _) rfl
  | close =>
      obtain ⟨steps, same⟩ := steps_close serving.parted.sound.waits
      exact serving.fate_of_steps pending steps same

theorem passes_perform (codec : Percent) (server : Server) (ask : Ask) :
    Passes codec server (perform codec server ask).2 := by
  cases ask with
  | readFrame => exact .single (.readFrame server)
  | finished => exact passes_finished codec server
  | nextRequest =>
      rw [perform, nextRequest]
      fun_induction awaitFrom codec server with
      | case1 server failure after runs => exact passes_await runs
      | case2 server taken after runs => exact passes_await runs
      | case3 server after runs inductionHypothesis =>
          exact (passes_await runs).trans inductionHypothesis
  | respond id response => exact .single (.respond server id response)
  | goAway => exact .single (.goAway server)
  | close => exact .single (.close server)

/-- A stream under way meets its fate over every run. -/
theorem Serving.fate_of_run
    (serving : Serving server delivered)
    (pending : Pending server id)
    (asks : List Ask) :
    Fate codec server (Server.run codec server asks).2 id
      (Server.run codec server asks).1 := by
  induction asks generalizing server delivered with
  | nil => exact .pending pending
  | cons ask rest inductionHypothesis =>
      have performed := serving.perform codec ask
      exact (serving.fate_of_perform pending ask).trans
        (passes_perform codec server ask) (performed.1.run codec rest).2
        fun still => inductionHypothesis performed.1 still

end Fates

/-! ## A request the client has ended -/

/-- How much looking the record of `id` still takes: two looks where it may hold
a request, one where it holds none. -/
def toil (server : Server) (id : Nat) : Nat :=
  match server.connection.streams[id]? with
  | none => 0
  | some stream =>
      if stream.finished ∧ id ∉ server.answering then
        if (takenHead stream).isSome then 2 else 1
      else
        0

/-- A look finds the lowest stream there is to find. -/
theorem ready_le
    {server : Server}
    {id : Nat}
    {stream : Stream}
    (found : server.connection.streams[id]? = some stream)
    (finished : stream.finished = true)
    (unanswered : id ∉ server.answering) :
    ∃ other record, server.ready = some (other, record) ∧ other ≤ id := by
  have member := NatMap.mem_toList_iff.mpr found
  have holds : decide (stream.finished = true ∧ id ∉ server.answering) = true :=
    decide_eq_true ⟨finished, unanswered⟩
  cases first : server.ready with
  | none =>
      have none := List.find?_eq_none.mp first (id, stream) member
      exact absurd holds none
  | some entry =>
      refine ⟨entry.1, entry.2, rfl, ?_⟩
      obtain ⟨_, before, after, split, earlier⟩ :=
        List.find?_eq_some_iff_append.mp first
      have ordered : server.connection.streams.toList.Pairwise
          fun first second => first.1 < second.1 :=
        NatMap.pairwise_toList
      rw [split] at member ordered
      rcases List.mem_append.mp member with front | back
      · have fails := earlier (id, stream) front
        rw [holds] at fails
        cases fails
      · rcases List.mem_cons.mp back with same | later
        · rw [← same]
        · have tail := (List.pairwise_append.mp ordered).2.1
          exact ((List.pairwise_cons.mp tail).1 (id, stream) later).le

theorem toil_congr
    {server after : Server}
    {id : Nat}
    (kept : after.connection.streams[id]? = server.connection.streams[id]?)
    (answers : id ∈ after.answering ↔ id ∈ server.answering) :
    toil after id = toil server id := by
  simp only [toil, kept, answers]

theorem toil_of_absent
    {server : Server}
    {id : Nat}
    (absent : server.connection.streams[id]? = none) :
    toil server id = 0 := by
  rw [toil, absent]

/-- A look at a record leaves less to do with it. -/
theorem toil_of_look
    {codec : Percent}
    {server after : Server}
    {outcome : Except NetError Look}
    (runs : look codec server = (outcome, after))
    {id : Nat}
    {stream : Stream}
    (first : server.ready = some (id, stream)) :
    toil after id < toil server id := by
  obtain ⟨found, finished, unanswered⟩ := found_of_ready first
  have before : toil server id = if (takenHead stream).isSome then 2 else 1 := by
    rw [toil, found]
    exact if_pos ⟨finished, unanswered⟩
  cases looked_of_look runs with
  | nothing nothing =>
      rw [nothing] at first
      cases first
  | headless chosen headless =>
      cases chosen.symm.trans first
      rw [toil_of_absent, before]
      · split <;> omega
      · exact (NatMap.getElem?_erase ..).trans (if_pos rfl)
  | request chosen headed reads =>
      cases chosen.symm.trans first
      have there : (server.connection.streams.insert id (emptied stream))[id]? =
          some (emptied stream) :=
        NatMap.getElem?_insert_self _ _
      have done : toil
          { connection := server.connection.setStream id (emptied stream)
            answering := insert id server.answering } id = 0 := by
        simp only [toil, Connection.setStream, there, Finset.mem_insert_self,
          not_true_eq_false, and_false, if_false]
      rw [done, before]
      split <;> omega
  | malformed chosen headed fails resets =>
      cases chosen.symm.trans first
      rw [toil_of_absent, before]
      · split <;> omega
      · exact (NatMap.getElem?_erase ..).trans (if_pos rfl)
  | @lost _ _ head malformed reset failure chosen headed fails resets =>
      cases chosen.symm.trans first
      have streams := streams_reset id malformed.code
        (server.connection.setStream id (emptied stream))
      rw [resets] at streams
      have there : reset.streams[id]? =
          some { emptied stream with
            state := .closed
            reset := some malformed.code } := by
        rw [streams, NatMap.getElem?_modify, if_pos rfl]
        exact congrArg (Option.map _) (NatMap.getElem?_insert_self _ _)
      rw [before, headed, toil]
      simp only [there, takenHead, Option.isNone_some, Bool.false_eq_true,
        if_false, Option.isSome_none, Option.isSome_some, if_true]
      split <;> omega

/-- How much looking there is to do before the stream `id` is looked at. -/
def toilBefore (server : Server) (id : Nat) : Nat :=
  ∑ other ∈ Finset.range id, toil server other

theorem toilBefore_of_look
    {codec : Percent}
    {server after : Server}
    {outcome : Except NetError Look}
    (runs : look codec server = (outcome, after))
    {id other : Nat}
    {record : Stream}
    (first : server.ready = some (other, record))
    (below : other < id) :
    toilBefore after id < toilBefore server id := by
  refine Finset.sum_lt_sum ?_ ⟨other, Finset.mem_range.mpr below,
    toil_of_look runs first⟩
  intro place _
  by_cases same : other = place
  · cases same
    exact (toil_of_look runs first).le
  · obtain ⟨kept, answers⟩ := untouched_of_look runs first same
    exact (toil_congr kept answers).le

/-- The record of `id` holds a request the client has ended, not given yet. -/
structure Ended (codec : Percent) (server : Server) (id : Nat)
    (stream : Stream) (request : Request) : Prop where
  found : server.connection.streams[id]? = some stream
  live : stream.reset = none
  shut : stream.state.receiving = false
  unanswered : id ∉ server.answering
  reads : ∃ head, stream.head = some head ∧
    Message.requestOf codec head stream.body = .ok request

section Ended

variable {codec : Percent} {server after : Server} {id : Nat} {stream : Stream}
  {request : Request}

/-- A look gives the request, or looks at a lower stream and leaves it. -/
theorem Ended.of_look
    (ended : Ended codec server id stream request)
    {outcome : Except NetError Look}
    (runs : look codec server = (outcome, after)) :
    outcome = .ok (.settled (some (id, request))) ∨
      ((∀ taken, outcome = .ok (.settled taken) → taken ≠ none) ∧
        Ended codec after id stream request ∧
        toilBefore after id < toilBefore server id) := by
  obtain ⟨head, headed, reads⟩ := ended.reads
  have finished : stream.finished = true := by
    simp [Stream.finished, ended.shut]
  obtain ⟨other, record, first, low⟩ :=
    ready_le ended.found finished ended.unanswered
  by_cases same : other = id
  · cases same
    have there := (found_of_ready first).1
    cases there.symm.trans ended.found
    have taken : takenHead stream = some head := by
      rw [takenHead, ended.live]
      exact headed
    refine Or.inl ?_
    cases looked_of_look runs with
    | nothing nothing => cases first.symm.trans nothing
    | headless chosen headless =>
        cases chosen.symm.trans first
        cases taken.symm.trans headless
    | request chosen holds gives =>
        cases chosen.symm.trans first
        cases taken.symm.trans holds
        cases reads.symm.trans gives
        rfl
    | malformed chosen holds fails =>
        cases chosen.symm.trans first
        cases taken.symm.trans holds
        cases reads.symm.trans fails
    | lost chosen holds fails =>
        cases chosen.symm.trans first
        cases taken.symm.trans holds
        cases reads.symm.trans fails
  · obtain ⟨kept, answers⟩ := untouched_of_look runs first same
    refine Or.inr ⟨?_, ?_, toilBefore_of_look runs first (by omega)⟩
    · rintro _ rfl nothing
      cases nothing
      cases looked_of_look runs with
      | nothing nothing => cases first.symm.trans nothing
    · exact ⟨kept.trans ended.found, ended.live, ended.shut,
        fun member => ended.unanswered (answers.mp member), ended.reads⟩

/-- A call of `finished` gives the request, or leaves it and less before it. -/
theorem Ended.of_finished
    (ended : Ended codec server id stream request) :
    (id, request) ∈ given (finished codec server).1 ∨
      (Ended codec (finished codec server).2 id stream request ∧
        toilBefore (finished codec server).2 id < toilBefore server id) := by
  rw [finished]
  fun_induction lookFrom codec server with
  | case1 server failure after runs =>
      rcases ended.of_look runs with gives | ⟨_, still, less⟩
      · cases gives
      · exact Or.inr ⟨still, less⟩
  | case2 server taken after runs =>
      rcases ended.of_look runs with gives | ⟨_, still, less⟩
      · cases gives
        exact Or.inl (List.mem_singleton_self _)
      · exact Or.inr ⟨still, less⟩
  | case3 server after runs inductionHypothesis =>
      rcases ended.of_look runs with gives | ⟨_, still, less⟩
      · cases gives
      · rcases inductionHypothesis still with gives | ⟨later, lesser⟩
        · exact Or.inl gives
        · exact Or.inr ⟨later, lesser.trans less⟩

/-- Enough calls of `finished` give the request. -/
theorem Ended.given_by_finished
    (ended : Ended codec server id stream request) :
    ∃ calls, (id, request) ∈
      (run codec server (List.replicate calls .finished)).1 := by
  induction size : toilBefore server id using Nat.strong_induction_on
    generalizing server with
  | _ size inductionHypothesis =>
      rcases ended.of_finished with gives | ⟨still, less⟩
      · exact ⟨1, List.mem_append_left _ gives⟩
      · obtain ⟨calls, gives⟩ :=
          inductionHypothesis _ (size ▸ less) still rfl
        exact ⟨calls + 1, List.mem_append_right _ gives⟩

end Ended

/-! ## Over every run -/

/-- Over every run: a request is given only at or below what every `GOAWAY`
emitted up to then names, and a stream under way, which is so too, is given, or
reset by one side, or ended by the client without a head, or stays under way,
and once the client has ended it calls of `finished` give it. -/
theorem given_within_goAway
    (codec : Percent)
    {wire : Wire}
    {server : Server}
    (opens : handshake wire = .ok server)
    (asks : List Ask) :
    let now := (run codec server asks).2
    (∀ ask id request, (id, request) ∈ (perform codec now ask).1 →
      ∀ last ∈ Event.goodbyes (perform codec now ask).2.connection.events,
        id ≤ last) ∧
    (∀ id, Pending now id →
      (∀ last ∈ Event.goodbyes now.connection.events, id ≤ last) ∧
      ∀ more, Fate codec now (run codec now more).2 id
        (run codec now more).1) ∧
    ∀ id stream request, Ended codec now id stream request →
      ∃ calls, (id, request) ∈
        (run codec now (List.replicate calls .finished)).1 := by
  have serving := served_of_handshake codec opens asks
  refine ⟨?_, ?_, ?_⟩
  · intro ask id request gives last named
    obtain ⟨moment, stream, head, whole⟩ := whole_of_perform gives
    have served := (serving.perform codec ask).1
    have found : (perform codec (run codec server asks).2
        ask).2.connection.streams[id]? = some (emptied stream) := by
      rw [whole.after]
      exact NatMap.getElem?_insert_self _ _
    exact served.parted.covered served.serves last named id _ found
  · intro id pending
    refine ⟨?_, fun more => serving.fate_of_run pending more⟩
    intro last named
    obtain ⟨stream, found, _⟩ := pending
    exact serving.parted.covered serving.serves last named id stream found
  · intro id stream request ended
    exact ended.given_by_finished

/-- A client that opens stream 1, opens stream 3 and then ends stream 1. -/
def partingWire : Wire where
  incoming := [.octets (preface ++
    (⟨.settings, 0, 0, []⟩ : Frame).encode ++
    (⟨.headers, endHeaders, 1, [0x82, 0x86, 0x84]⟩ : Frame).encode ++
    (⟨.headers, endStream ||| endHeaders, 3, [0x82, 0x86, 0x84]⟩ :
      Frame).encode ++
    (⟨.data, endStream, 1, []⟩ : Frame).encode)]
  accepts := []
  written := []

/-- A server that goes away with stream 1 under way still gives it, and not
stream 3. -/
theorem given_within_goAway_parting :
    ∃ server, handshake partingWire = .ok server ∧
      let now := (run .bare server [.readFrame, .readFrame, .goAway]).2
      1 ∈ Event.goodbyes now.connection.events ∧
        (run .bare now [.nextRequest]).1.map Prod.fst = [1] ∧
        ∀ id request, (id, request) ∈ (perform .bare now .nextRequest).1 →
          id ≤ 1 := by
  obtain ⟨server, opens, checked⟩ := exists_of_handshake
    (show (handshake partingWire).toOption.map (fun server =>
      let now := (run .bare server [.readFrame, .readFrame, .goAway]).2
      decide (1 ∈ Event.goodbyes now.connection.events ∧
        (run .bare now [.nextRequest]).1.map Prod.fst = [1] ∧
        1 ∈ Event.goodbyes
          (perform .bare now .nextRequest).2.connection.events)) =
        some true by decide +kernel)
  obtain ⟨named, gives, still⟩ := of_decide_eq_true checked
  obtain ⟨within, _⟩ := given_within_goAway .bare opens
    [.readFrame, .readFrame, .goAway]
  exact ⟨server, opens, named, gives,
    fun id request member => within .nextRequest id request member 1 still⟩

end Server
end Http2
end XmipNet

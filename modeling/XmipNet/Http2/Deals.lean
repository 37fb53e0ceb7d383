import XmipNet.Http2.Course

/-!
# Every run of a server, deal by deal

Whatever is called of a server, it looks for a request, its connection beats, or
an answer goes out and the record it was on is let go. Each of these is a deal,
with the request it gives if it gives one; what every deal keeps holds after
every run of calls, of all the requests given so far.
-/

namespace XmipNet
namespace Http2
namespace Server

open Core Connection
open Http (Request Response)
open Fallible (bind_apply get_bind_apply)

/-- One thing a server does, and the request it gives by it. -/
inductive Deal (codec : Percent) :
    Server → List (Nat × Request) → Server → Prop
  /-- A look. -/
  | looked {server after : Server} {outcome : Except NetError Look}
      (runs : look codec server = (outcome, after)) :
      Deal codec server (Look.given outcome) after
  /-- A beat of its connection. -/
  | beat {server : Server} {after : Connection}
      (beat : Beat server.connection after) :
      Deal codec server [] { server with connection := after }
  /-- An answer, its record let go. -/
  | answered {server : Server} {id : Nat} {after : Connection}
      (waiting : id ∈ server.answering)
      (beats : Beats server.connection after) :
      Deal codec server []
        { connection := after.remove id
          answering := server.answering.erase id }

/-- Any number of deals, and all the requests given by them, in order. -/
inductive Deals (codec : Percent) (server : Server) :
    List (Nat × Request) → Server → Prop
  | none : Deals codec server [] server
  | more {middle after : Server} {given more : List (Nat × Request)}
      (deals : Deals codec server given middle)
      (deal : Deal codec middle more after) :
      Deals codec server (given ++ more) after

section Deals

variable {codec : Percent} {server middle after : Server}
  {given more : List (Nat × Request)}

theorem Deal.deals
    (deal : Deal codec server given after) :
    Deals codec server given after :=
  Deals.more .none deal

theorem Deals.trans
    (first : Deals codec server given middle)
    (second : Deals codec middle more after) :
    Deals codec server (given ++ more) after := by
  induction second with
  | none =>
      rw [List.append_nil]
      exact first
  | more deals deal inductionHypothesis =>
      rw [← List.append_assoc]
      exact inductionHypothesis.more deal

/-- Deals that give nothing more. -/
theorem Deals.silent
    (first : Deals codec server given middle)
    (second : Deals codec middle [] after) :
    Deals codec server given after := by
  have both := first.trans second
  rwa [List.append_nil] at both

theorem deals_of_beats
    (beats : Beats server.connection after.connection)
    (same : after.answering = server.answering) :
    Deals codec server [] after := by
  obtain ⟨reached, answering⟩ := after
  cases same
  simp only at beats
  induction beats with
  | refl => exact .none
  | tail _ beat inductionHypothesis =>
      exact inductionHypothesis.silent (Deal.beat beat).deals

/-- What a server starts with and every deal keeps. -/
theorem Deals.invariant
    {motive : List Nat → Server → Prop}
    (keeps : ∀ {delivered : List Nat} {server after : Server}
      {given : List (Nat × Request)},
        Deal codec server given after → motive delivered server →
          motive (delivered ++ given.map Prod.fst) after)
    (deals : Deals codec server given after)
    {delivered : List Nat}
    (starts : motive delivered server) :
    motive (delivered ++ given.map Prod.fst) after := by
  induction deals with
  | none =>
      rw [List.map_nil, List.append_nil]
      exact starts
  | more deals deal inductionHypothesis =>
      rw [List.map_append, ← List.append_assoc]
      exact keeps deal inductionHypothesis

end Deals

/-! ## Every call -/

section Calls

variable {codec : Percent} {server after : Server} {delivered : List Nat}

theorem deals_finished (codec : Percent) (server : Server) :
    Deals codec server (given (finished codec server).1)
      (finished codec server).2 := by
  rw [Server.finished]
  fun_induction lookFrom codec server with
  | case1 server failure after runs => exact (Deal.looked runs).deals
  | case2 server taken after runs =>
      cases taken with
      | none => exact (Deal.looked runs).deals
      | some request => exact (Deal.looked runs).deals
  | case3 server after runs inductionHypothesis =>
      exact Deals.trans (Deal.looked runs).deals inductionHypothesis

theorem deals_readFrame (codec : Percent) (server : Server) :
    Deals codec server [] (readFrame server).2 := by
  rw [Server.readFrame, get_bind_apply]
  split
  · exact .none
  · exact (Deal.beat (.pumped server.connection)).deals

theorem deals_await
    {outcome : Except NetError (Option (Option (Nat × Request)))}
    (runs : await codec server = (outcome, after)) :
    Deals codec server (given (outcome.map fun taken => taken.getD none))
      after := by
  have looked := deals_finished codec server
  rw [Server.await, bind_apply] at runs
  split at runs
  next taken middle finds =>
    rw [finds] at looked
    cases taken with
    | some request =>
        cases runs
        exact looked
    | none =>
        have both := looked.silent (deals_readFrame codec middle)
        simp only [bind_apply] at runs
        split at runs
        next more last reads =>
          rw [reads] at both
          cases runs
          cases more <;> exact both
        next failure last reads =>
          rw [reads] at both
          cases runs
          exact both
  next failure middle finds =>
    rw [finds] at looked
    cases runs
    exact looked

theorem deals_nextRequest (codec : Percent) (server : Server) :
    Deals codec server (given (nextRequest codec server).1)
      (nextRequest codec server).2 := by
  rw [Server.nextRequest]
  fun_induction awaitFrom codec server with
  | case1 server failure after runs => exact deals_await runs
  | case2 server taken after runs => exact deals_await runs
  | case3 server after runs inductionHypothesis =>
      exact Deals.trans (deals_await runs) inductionHypothesis

theorem Serving.deals_respond
    (serving : Serving server delivered)
    (id : Nat)
    (response : Response) :
    Deals codec server [] (Server.respond id response server).2 := by
  by_cases waiting : id ∈ server.answering
  · have plays := plays_answer serving.parted.sound.waits
      (serving.kept id waiting) response
    rw [respond_of_waiting waiting]
    exact (Deal.answered waiting plays).deals
  · rw [respond_of_unknown waiting]
    exact .none

theorem deals_close (codec : Percent) (server : Server) :
    Deals codec server [] (close server).2 := by
  obtain ⟨_, same⟩ := steps_sayGoodbye server
  have goodbye := beats_sayGoodbye server
  rw [close, bind_apply]
  split
  next after runs =>
    rw [runs] at goodbye same
    exact deals_of_beats
      (goodbye.trans (plays_drain drainLimit after.connection)) same
  next failure after runs =>
    rw [runs] at goodbye same
    exact deals_of_beats goodbye same

theorem Serving.deals
    (serving : Serving server delivered)
    (codec : Percent)
    (ask : Ask) :
    Deals codec server (Server.perform codec server ask).1
      (Server.perform codec server ask).2 := by
  cases ask with
  | readFrame => exact deals_readFrame codec server
  | finished => exact deals_finished codec server
  | nextRequest => exact deals_nextRequest codec server
  | respond id response => exact serving.deals_respond id response
  | goAway =>
      exact (Deal.beat (.leaving server.connection .noError "")).deals
  | close => exact deals_close codec server

/-- A run of calls is made of deals. -/
theorem Serving.deals_run
    (serving : Serving server delivered)
    (codec : Percent)
    (asks : List Ask) :
    Deals codec server (Server.run codec server asks).1
      (Server.run codec server asks).2 := by
  induction asks generalizing server delivered with
  | nil => exact .none
  | cons ask rest inductionHypothesis =>
      exact (serving.deals codec ask).trans
        (inductionHypothesis (serving.perform codec ask).1)

/-- A deal keeps what holds between calls, its request delivered. -/
theorem Serving.deal
    (serving : Serving server delivered)
    {given : List (Nat × Request)}
    (deal : Deal codec server given after) :
    Served server delivered given after := by
  have waits := serving.parted.sound.waits
  cases deal with
  | looked runs => exact serving.look runs
  | beat beat =>
      have steps := beat.steps waits
      exact ⟨(serving.steps steps).append_nil rfl, steps.turns⟩
  | @answered id reached waiting beats =>
      have steps := beats.steps waits
      exact ⟨((serving.steps steps).letGo id).append_nil rfl,
        steps.turns.tail (turn_remove _ id)⟩

end Calls

end Server
end Http2
end XmipNet

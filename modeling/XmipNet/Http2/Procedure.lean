import XmipNet.Foundation.Handler
import XmipNet.Http2.Agreement

/-!
# A procedure called over a connection

A server that answers every request with a handler, which may remember what it was
asked, until the client goes away. It comes to an end, it asks the handler once
for each request it is given and in that order, and what a client takes for an
answer is what the handler said to the request that the client had sent.
-/

namespace XmipNet
namespace Http2

open Hpack (Field)
open Http (Request Response)
open Handler (replies remembered)

namespace Server

/-- More requests than one connection has streams for. -/
def mostRequests : Nat := maxStreamId + 2

variable {σ : Type}

/-- At most so many requests answered with `handler`, until the client goes away:
how many were, none where there may be more, with the server after them and what
the handler remembers. -/
def serveFor (codec : Percent) (handler : Request → σ → Response × σ) :
    Nat → Nat → σ → Server → Except NetError (Option Nat) × Server × σ
  | 0, _, memory, server => (.ok none, server, memory)
  | limit + 1, answered, memory, server =>
      match nextRequest codec server with
      | (.error failure, after) => (.error failure, after, memory)
      | (.ok none, after) => (.ok (some answered), (close after).2, memory)
      | (.ok (some (id, request)), after) =>
          let (response, later) := handler request memory
          match respond id response after with
          | (.error failure, last) => (.error failure, last, later)
          | (.ok (), last) =>
              serveFor codec handler limit (answered + 1) later last

/-- Every request of a connection answered with `handler`, until the client goes
away. -/
def serve
    (codec : Percent)
    (handler : Request → σ → Response × σ)
    (memory : σ)
    (server : Server) : Except NetError (Option Nat) × Server × σ :=
  serveFor codec handler mostRequests 0 memory server

/-- The answer that a call gives, and the stream it goes on. -/
def Ask.answer : Ask → Option (Nat × Response)
  | .respond id response => some (id, response)
  | _ => none

/-- These calls are what answering with `handler` comes to: every answer is what
the handler says to the request that was given there, one for each. -/
structure Handles (codec : Percent) (handler : Request → σ → Response × σ)
    (memory : σ) (server : Server) (calls : List Ask) (after : Server × σ) :
    Prop where
  runs : (run codec server calls).2 = after.1
  replies : calls.filterMap Ask.answer =
    replies handler memory (run codec server calls).1
  remembers : after.2 =
    remembered handler memory ((run codec server calls).1.map Prod.snd)

section Handles

variable {codec : Percent} {handler : Request → σ → Response × σ} {memory : σ}
  {server middle : Server} {after : Server × σ} {calls : List Ask}

theorem Handles.nil : Handles codec handler memory server [] (server, memory) where
  runs := rfl
  replies := rfl
  remembers := rfl

/-- A call that gives no request and no answer before the others. -/
theorem Handles.quiet
    {ask : Ask}
    (plain : ask.answer = none)
    (performed : perform codec server ask = ([], middle))
    (handles : Handles codec handler memory middle calls after) :
    Handles codec handler memory server (ask :: calls) after where
  runs := by simp only [run, performed, handles.runs]
  replies := by
    simp only [List.filterMap_cons, plain, run, performed, handles.replies,
      List.nil_append]
  remembers := by
    simp only [run, performed, handles.remembers, List.nil_append]

/-- A request that was given and its answer before the others. -/
theorem Handles.answered
    {id : Nat}
    {request : Request}
    {taken : Server}
    (next : perform codec server .nextRequest = ([(id, request)], taken))
    (responds : perform codec taken
      (.respond id (handler request memory).1) = ([], middle))
    (handles : Handles codec handler (handler request memory).2 middle calls
      after) :
    Handles codec handler memory server
      (.nextRequest :: .respond id (handler request memory).1 :: calls) after where
  runs := by simp only [run, next, responds, handles.runs]
  replies := by
    simp only [List.filterMap_cons, Ask.answer, run, next, responds,
      handles.replies, List.nil_append, List.singleton_append, Handler.replies]
  remembers := by
    simp only [run, next, responds, handles.remembers, List.nil_append,
      List.singleton_append, List.map_cons, remembered, List.foldl_cons]

end Handles

/-- Answering with a handler is made of calls, and it tells how many requests
were given, where there may be no more. -/
theorem exists_handles
    (codec : Percent)
    (handler : Request → σ → Response × σ)
    (limit answered : Nat)
    (memory : σ)
    (server : Server) :
    ∃ calls, Handles codec handler memory server calls
        (serveFor codec handler limit answered memory server).2 ∧
      ∀ count, (serveFor codec handler limit answered memory server).1 =
          .ok count →
        (count = none ∧ (run codec server calls).1.length = limit) ∨
          count = some (answered + (run codec server calls).1.length) := by
  induction limit generalizing answered memory server with
  | zero =>
      refine ⟨[], .nil, ?_⟩
      rintro count ⟨⟩
      exact Or.inl ⟨rfl, rfl⟩
  | succ limit inductionHypothesis =>
      rw [serveFor]
      rcases next : nextRequest codec server with ⟨failure | taken, after⟩
      · have performed : perform codec server .nextRequest = ([], after) := by
          rw [perform, next]
          rfl
        refine ⟨[.nextRequest], .quiet rfl performed .nil, ?_⟩
        rintro count ⟨⟩
      cases taken with
      | none =>
          have performed : perform codec server .nextRequest = ([], after) := by
            rw [perform, next]
            rfl
          refine ⟨[.nextRequest, .close],
            .quiet rfl performed (.quiet rfl rfl .nil), ?_⟩
          rintro count ⟨⟩
          refine Or.inr ?_
          simp only [run, performed]
          rfl
      | some entry =>
          obtain ⟨id, request⟩ := entry
          have performed : perform codec server .nextRequest =
              ([(id, request)], after) := by
            rw [perform, next]
            rfl
          rcases responds : respond id (handler request memory).1 after with
            ⟨failure | _, last⟩
          · have answers : perform codec after
                (.respond id (handler request memory).1) = ([], last) := by
              rw [perform, responds]
            simp only [responds]
            refine ⟨_, .answered performed answers .nil, ?_⟩
            rintro count ⟨⟩
          · have answers : perform codec after
                (.respond id (handler request memory).1) = ([], last) := by
              rw [perform, responds]
            simp only [responds]
            obtain ⟨calls, handles, counts⟩ := inductionHypothesis (answered + 1)
              (handler request memory).2 last
            refine ⟨_, .answered performed answers handles, fun count ends => ?_⟩
            have length : (run codec server (.nextRequest ::
                .respond id (handler request memory).1 :: calls)).1.length =
                (run codec last calls).1.length + 1 := by
              simp only [run, performed, answers, List.nil_append,
                List.singleton_append, List.length_cons]
            rw [length]
            rcases counts count ends with ⟨none, all⟩ | some
            · exact Or.inl ⟨none, congrArg (· + 1) all⟩
            · refine Or.inr (some.trans (congrArg Option.some ?_))
              omega

/-- A server that answers every request comes to an end, and what it tells is how
many requests it was given. -/
theorem serve_ends
    {wire : Wire}
    (codec : Percent)
    (handler : Request → σ → Response × σ)
    (memory : σ)
    {server : Server}
    (opens : handshake wire = .ok server) :
    ∃ calls, Handles codec handler memory server calls
        (serve codec handler memory server).2 ∧
      ∀ count, (serve codec handler memory server).1 = .ok count →
        count = some (run codec server calls).1.length := by
  obtain ⟨calls, handles, counts⟩ := exists_handles codec handler mostRequests 0
    memory server
  refine ⟨calls, handles, fun count ends => ?_⟩
  rcases counts count ends with ⟨_, all⟩ | some
  · have serving := served_of_handshake codec opens calls
    have within : (run codec server calls).1.map Prod.fst ⊆
        List.range (maxStreamId + 1) := by
      intro id member
      have below := serving.reached id member
      have most := serving.parted.sound.placed.bounded
      exact List.mem_range.mpr (Nat.lt_succ_of_le (below.trans most))
    have few := (serving.once.subperm within).length_le
    rw [List.length_map, all, List.length_range] at few
    exact absurd few (by rw [mostRequests]; omega)
  · rw [some, Nat.zero_add]

end Server

open Event (Unbreached)

section Procedure

variable {codec : Percent} {σ : Type} {handler : Request → σ → Response × σ}
  {memory : σ} {client : Client} {server : Server}

end Procedure

/-! ## A call -/

/-- A handler that counts what it is asked. -/
def counting (_ : Request) (count : Nat) : Response × Nat :=
  (Server.emptyAnswer, count + 1)

/-- What a server that counts writes, hearing `request`. -/
def countedOctets (request : Request) : List UInt8 :=
  ((Server.handshake ⟨[.octets (askedOctets request)], [], []⟩).toOption.map
    fun server =>
      (Server.serve .bare counting 0 server).2.1.connection.wire.written).getD []

/-- Whether a client that asks `request` and a server that counts talk to each
other, going on in the order that `turns` says, `true` for the client. -/
def meetsCounting (request : Request) (turns : List Bool) : Bool :=
  match Client.handshake ⟨[.octets (countedOctets request)], [], []⟩ "http",
    Server.handshake ⟨[.octets (askedOctets request)], [], []⟩ with
  | .ok client, .ok server =>
      let asked := Client.run .bare client [.send request]
      let served := (Server.serve .bare counting 0 server).2.1
      decide ((Client.send .bare request client).1.isOk = true ∧
        Unbreached asked.connection.events ∧
        Unbreached served.connection.events ∧
        Duplex.interleaves Event.frame Event.arrival turns [] []
          asked.connection.events served.connection.events = true)
  | _, _ => false

theorem meetsCounting_plainRequest :
    meetsCounting Client.plainRequest
      [false, true, true, true, true, false, false, false, false, false, true,
        true] = true := by
  decide +kernel

end Http2
end XmipNet

import XmipNet.Http2.Send
import XmipNet.Http2.Simulation

/-!
# The answering side of HTTP/2

A connection whose preface has been read, each request taken whole off its
stream as it ends, answered on the same stream, head, body and trailers, and a
`GOAWAY` when this side is done.
-/

namespace XmipNet
namespace Http2

open Hpack (Field)
open Http (Request Response)

/-- The frames read after this side's `GOAWAY` while the client finishes. -/
def drainLimit : Nat := 1024

/-- A server connection: `answering` are the streams taken off and not yet
answered. -/
structure Server where
  connection : Connection
  answering : Finset Nat

namespace Server

open Fallible (get modify lift attempt Keeps keeps_bind keeps_get keeps_modify
  keeps_lift keeps_pure keeps_fail bind_apply modify_bind_apply
  get_bind_apply)

/-- What a server does, failing as its caller is told. -/
abbrev Call := Fallible Server NetError

/-- Read the client's preface off `wire` and answer with this side's
settings. -/
def handshake (wire : Wire) : Except NetError Server :=
  match wire.readExact preface.length with
  | (.error error, _) => .error (.fromIo "reading the preface" error)
  | (.ok opening, after) =>
      if opening ≠ preface then
        .error (.new "the connection did not open with the HTTP/2 preface")
      else
        (Connection.start after false).map fun connection =>
          { connection, answering := ∅ }

/-- An action of the connection. -/
def onConnection {α : Type} (action : Action α) : Call α :=
  fun server =>
    ((action server.connection).1,
      { server with connection := (action server.connection).2 })

/-- The first stream the client has finished with that is not yet taken. -/
def ready (server : Server) : Option (Nat × Stream) :=
  server.connection.streams.toList.find? fun entry =>
    entry.2.finished ∧ entry.1 ∉ server.answering

/-- How one look for a finished request ended: with a record let go, so that
the next is looked for, or with what the caller is given. -/
inductive Look
  | again
  | settled (taken : Option (Nat × Request))

/-- The record of `id` once its head and body are taken off. -/
def emptied (stream : Stream) : Stream :=
  { stream with head := none, body := [] }

/-- One look: the first finished stream's head and body taken off and read as a
request; a malformed one is ended, one that was reset is let go. -/
def look (codec : Percent) : Call Look := do
  let server ← get
  match server.ready with
  | none => pure (.settled none)
  | some (id, stream) => do
      modify fun server =>
        { server with
          connection := server.connection.setStream id (emptied stream) }
      match if stream.reset.isNone then stream.head else none with
      | some head =>
          match Message.requestOf codec head stream.body with
          | .ok request => do
              modify fun server =>
                { server with answering := insert id server.answering }
              pure (.settled (some (id, request)))
          | .error malformed => do
              onConnection (Connection.reset id malformed.code)
              modify fun server =>
                { server with connection := server.connection.remove id }
              pure .again
      | none => do
          modify fun server =>
            { server with connection := server.connection.remove id }
          pure .again

/-- What was looked for is a record of the table. -/
theorem found_of_ready
    {server : Server}
    {id : Nat}
    {stream : Stream}
    (first : server.ready = some (id, stream)) :
    server.connection.streams[id]? = some stream ∧
      stream.finished = true ∧ id ∉ server.answering := by
  have member := List.mem_of_find?_eq_some first
  have holds := List.find?_some first
  simp only [decide_eq_true_eq] at holds
  exact ⟨NatMap.mem_toList_iff.mp member, holds⟩

theorem streams_reset
    (id : Nat)
    (code : ErrorCode)
    (connection : Connection) :
    (Connection.reset id code connection).2.streams =
      connection.streams.modify id fun stream =>
        { stream with state := .closed, reset := some code } :=
  congrArg Core.streams (Connection.core_reset id code connection)

/-- The head of a record that a look takes as a request's: none where the stream
was reset. -/
def takenHead (stream : Stream) : Option (List Field) :=
  if stream.reset.isNone then stream.head else none

/-- How one look ends: it finds nothing, lets a record without a head go, takes
a request off its record, or ends a malformed one, which may fail on the
connection underneath. -/
inductive Looked (codec : Percent) (server : Server) :
    Except NetError Look → Server → Prop
  | nothing (nothing : server.ready = none) :
      Looked codec server (.ok (.settled none)) server
  | headless {id : Nat} {stream : Stream}
      (first : server.ready = some (id, stream))
      (headless : takenHead stream = none) :
      Looked codec server (.ok .again)
        { server with
          connection := (server.connection.setStream id (emptied stream)).remove
            id }
  | request {id : Nat} {stream : Stream} {head : List Field}
      {request : Request}
      (first : server.ready = some (id, stream))
      (headed : takenHead stream = some head)
      (reads : Message.requestOf codec head stream.body = .ok request) :
      Looked codec server (.ok (.settled (some (id, request))))
        { connection := server.connection.setStream id (emptied stream)
          answering := insert id server.answering }
  | malformed {id : Nat} {stream : Stream} {head : List Field}
      {malformed : Violation} {after : Connection}
      (first : server.ready = some (id, stream))
      (headed : takenHead stream = some head)
      (fails : Message.requestOf codec head stream.body = .error malformed)
      (resets : Connection.reset id malformed.code
        (server.connection.setStream id (emptied stream)) = (.ok (), after)) :
      Looked codec server (.ok .again)
        { server with connection := after.remove id }
  | lost {id : Nat} {stream : Stream} {head : List Field}
      {malformed : Violation} {after : Connection} {failure : NetError}
      (first : server.ready = some (id, stream))
      (headed : takenHead stream = some head)
      (fails : Message.requestOf codec head stream.body = .error malformed)
      (resets : Connection.reset id malformed.code
        (server.connection.setStream id (emptied stream)) =
          (.error failure, after)) :
      Looked codec server (.error failure) { server with connection := after }

theorem looked_of_look
    {codec : Percent}
    {server after : Server}
    {outcome : Except NetError Look}
    (runs : look codec server = (outcome, after)) :
    Looked codec server outcome after := by
  rw [look, get_bind_apply] at runs
  cases first : server.ready with
  | none =>
      simp only [first] at runs
      cases runs
      exact .nothing first
  | some entry =>
      obtain ⟨id, stream⟩ := entry
      simp only [first] at runs
      cases headed : takenHead stream with
      | none =>
          have none := headed
          rw [takenHead] at none
          simp only [none] at runs
          cases runs
          exact .headless first headed
      | some head =>
          have some := headed
          rw [takenHead] at some
          simp only [some] at runs
          cases reads : Message.requestOf codec head stream.body with
          | ok request =>
              simp only [reads] at runs
              cases runs
              exact .request first headed reads
          | error malformed =>
              simp only [reads, bind_apply, Fallible.modify_apply,
                onConnection] at runs
              rcases resets : Connection.reset id malformed.code
                (server.connection.setStream id (emptied stream)) with
                ⟨_ | _, reset⟩
              · rw [resets] at runs
                cases runs
                exact .lost first headed reads resets
              · rw [resets] at runs
                cases runs
                exact .malformed first headed reads resets

/-- A look that goes on leaves a smaller table. -/
theorem size_of_look
    {codec : Percent}
    {server after : Server}
    (runs : look codec server = (.ok .again, after)) :
    after.connection.streams.size < server.connection.streams.size := by
  cases looked_of_look runs with
  | @headless id stream first =>
      have found := (found_of_ready first).1
      have there : (server.connection.streams.insert id
          (emptied stream))[id]? = some (emptied stream) :=
        NatMap.getElem?_insert_self _ _
      have less := NatMap.size_erase_lt there
      rw [NatMap.size_insert_of_found found] at less
      exact less
  | @malformed id stream head malformed reset first headed fails resets =>
      have found := (found_of_ready first).1
      have streams : reset.streams =
          (server.connection.streams.insert id (emptied stream)).modify
            id fun stream =>
              { stream with state := .closed, reset := some malformed.code } := by
        rw [← congrArg (fun pair => pair.2.streams) resets]
        exact streams_reset id malformed.code _
      have marked : reset.streams[id]? =
          some { emptied stream with
            state := .closed
            reset := some malformed.code } := by
        rw [streams, NatMap.getElem?_modify, if_pos rfl,
          NatMap.getElem?_insert_self]
        rfl
      have sized : reset.streams.size = server.connection.streams.size := by
        rw [streams, Std.TreeMap.size_modify,
          NatMap.size_insert_of_found found]
      exact sized ▸ NatMap.size_erase_lt marked

/-- Looks until one gives a request, or there is none. -/
def lookFrom (codec : Percent) (server : Server) :
    Except NetError (Option (Nat × Request)) × Server :=
  match _runs : look codec server with
  | (.error failure, after) => (.error failure, after)
  | (.ok (.settled taken), after) => (.ok taken, after)
  | (.ok .again, after) => lookFrom codec after
termination_by server.connection.streams.size
decreasing_by exact size_of_look _runs

/-- A request whose stream the client has ended and that is not yet taken,
without reading: none where every one read is taken. -/
def finished (codec : Percent) : Call (Option (Nat × Request)) :=
  lookFrom codec

/-- Read and handle one frame: `false` where the client went away or closed the
connection. -/
def readFrame : Call Bool := do
  let server ← get
  if server.connection.goaway.isSome then
    pure false
  else
    onConnection Connection.pump

theorem keeps_fixed_onConnection
    {α : Type}
    {action : Action α}
    (keeps : Keeps Connection.fixed action) :
    Keeps (fun server => Connection.fixed server.connection)
      (onConnection action) :=
  fun server => keeps server.connection

theorem keeps_fixed_look (codec : Percent) :
    Keeps (fun server => Connection.fixed server.connection)
      (look codec) := by
  refine keeps_bind keeps_get fun server => ?_
  split
  · exact keeps_pure _
  · refine keeps_bind (keeps_modify ?_) fun _ => ?_
    · exact fun _ => rfl
    · split
      · split
        · refine keeps_bind (keeps_modify ?_) fun _ => keeps_pure _
          exact fun _ => rfl
        · refine keeps_bind (keeps_fixed_onConnection
            (Connection.keeps_fixed_of_emits (Connection.emits_reset _ _))) fun _ =>
              keeps_bind (keeps_modify ?_) fun _ => keeps_pure _
          exact fun _ => rfl
      · refine keeps_bind (keeps_modify ?_) fun _ => keeps_pure _
        exact fun _ => rfl

/-- Looking for a request reads nothing. -/
theorem keeps_fixed_finished (codec : Percent) :
    Keeps (fun server => Connection.fixed server.connection)
      (finished codec) := by
  intro server
  rw [finished]
  fun_induction lookFrom codec server with
  | case1 server failure after runs =>
      have kept := keeps_fixed_look codec server
      rwa [runs] at kept
  | case2 server taken after runs =>
      have kept := keeps_fixed_look codec server
      rwa [runs] at kept
  | case3 server after runs inductionHypothesis =>
      have kept := keeps_fixed_look codec server
      rw [runs] at kept
      exact inductionHypothesis.trans kept

theorem remaining_readFrame
    {server after : Server}
    (reads : readFrame server = (.ok true, after)) :
    after.connection.wire.remaining < server.connection.wire.remaining := by
  rw [readFrame, get_bind_apply] at reads
  split at reads
  · cases reads
  · simp only [onConnection, Prod.mk.injEq] at reads
    obtain ⟨read, rfl⟩ := reads
    exact Connection.remaining_pump (Prod.ext read rfl)

/-- One turn of the wait for a request: one that has finished, the end, or
`none` where a frame was read and there may be more. -/
def await (codec : Percent) : Call (Option (Option (Nat × Request))) := do
  let taken ← finished codec
  match taken with
  | some request => pure (some (some request))
  | none => do
      let more ← readFrame
      pure (if more then none else some none)

theorem remaining_await
    {codec : Percent}
    {server after : Server}
    (runs : await codec server = (.ok none, after)) :
    after.connection.wire.remaining < server.connection.wire.remaining := by
  rw [await, bind_apply] at runs
  have kept := keeps_fixed_finished codec server
  split at runs
  next taken looked looks =>
    rw [looks] at kept
    have same := Connection.remaining_of_fixed kept
    cases taken with
    | some request => cases runs
    | none =>
        simp only [bind_apply] at runs
        split at runs
        next more read reads =>
          cases more with
          | true =>
              cases runs
              have less := remaining_readFrame reads
              simp only at same
              omega
          | false => cases runs
        · cases runs
  · cases runs

/-- Turns until one gives a request or the end. -/
def awaitFrom (codec : Percent) (server : Server) :
    Except NetError (Option (Nat × Request)) × Server :=
  match _runs : await codec server with
  | (.error failure, after) => (.error failure, after)
  | (.ok (some taken), after) => (.ok taken, after)
  | (.ok none, after) => awaitFrom codec after
termination_by server.connection.wire.remaining
decreasing_by exact remaining_await _runs

/-- The next request whose stream the client has ended, and the stream to answer
it on; none where the client went away or closed the connection. -/
def nextRequest (codec : Percent) : Call (Option (Nat × Request)) :=
  awaitFrom codec

/-- The body of an answer, where it has one. -/
def sendBody (id : Nat) (body : List UInt8) (ends : Bool) : Action Unit :=
  if body = [] then
    pure ()
  else
    Connection.sendData id body ends

/-- The trailers of an answer, where it has any. -/
def sendTrailers (id : Nat) (trailers : List Field) : Action Unit :=
  if trailers = [] then
    pure ()
  else
    Connection.sendHeaders id trailers true

/-- An answer's head, body and trailers on `id`. -/
def sendAnswer (id : Nat) (response : Response) : Action Unit := do
  let trailers := Message.carried response.trailers
  Connection.sendHeaders id (Message.responseFields response)
    (response.body = [] ∧ trailers = [])
  sendBody id response.body (trailers = [])
  sendTrailers id trailers

/-- Answer the request taken off `id` with `response`. -/
def respond (id : Nat) (response : Response) : Call Unit := do
  let server ← get
  if id ∉ server.answering then
    Fallible.fail (.new s!"no request waits on stream {id}")
  else do
    modify fun server => { server with answering := server.answering.erase id }
    let answered ← attempt
      (onConnection (Connection.together (sendAnswer id response)))
    modify fun server =>
      { server with connection := server.connection.remove id }
    lift answered

/-- Take no new stream: a `GOAWAY` naming the last one taken, which can still be
answered. -/
def goAway : Call Unit :=
  onConnection (Connection.goAway .noError "")

/-- At most so many frames read, while they are read well. -/
def drain : Nat → Action Unit
  | 0 => pure ()
  | limit + 1 => do
      let read ← attempt Connection.pump
      match read with
      | .ok true => drain limit
      | _ => pure ()

/-- A `GOAWAY` unless one was sent. -/
def sayGoodbye : Call Unit := do
  let server ← get
  if server.connection.goingAway then
    pure ()
  else do
    let _ ← attempt goAway
    pure ()

/-- Go away gracefully: a `GOAWAY` naming the last stream taken, where none was
sent, then what the client still sends read until it closes. -/
def close : Call Unit := do
  sayGoodbye
  onConnection (drain drainLimit)

end Server
end Http2
end XmipNet

import XmipNet.Http2.Send

/-!
# The asking side of HTTP/2

A connection started with the preface, a request sent on a new odd stream, its
answer read back whole, and one request after another on the same connection
until either side goes away.
-/

namespace XmipNet
namespace Http2

open Hpack (Field)
open Http (Request Response)

/-- A client connection: `next` is the stream its next request goes on. -/
structure Client where
  connection : Connection
  scheme : String
  next : Nat

namespace Client

open Fallible (get modify lift attempt)

/-- What a client does, failing as its caller is told. -/
abbrev Call := Fallible Client NetError

/-- Start a connection over `wire` for a service at `scheme`. -/
def handshake (wire : Wire) (scheme : String) : Except NetError Client :=
  (Connection.start wire true).map fun connection =>
    { connection, scheme, next := 1 }

/-- An action of the connection. -/
def onConnection {α : Type} (action : Action α) : Call α :=
  fun client =>
    ((action client.connection).1,
      { client with connection := (action client.connection).2 })

/-- The refusal of a request once the server has gone away. -/
def wentAway (last : Nat) (code : ErrorCode) : NetError where
  message := s!"the server went away ({code.debug}) after stream {last}; " ++
    "the request was not sent"
  io := some .connectionAborted

/-- The body of a request, where it has one. -/
def sendBody (id : Nat) (body : List UInt8) : Action Unit :=
  if body = [] then
    pure ()
  else
    Connection.sendData id body true

/-- A request's head and body on `id`. -/
def sendRequest (id : Nat) (fields : List Field) (body : List UInt8) :
    Action Unit := do
  Connection.sendHeaders id fields (body = [])
  sendBody id body

/-- Whether there is nothing left to wait for on `id`. -/
def answered (id : Nat) (connection : Connection) : Bool :=
  match connection.streams[id]? with
  | some stream => stream.finished
  | none => true

/-- The answer a finished record holds. -/
def answerOf (id : Nat) (record : Option Stream) : Except NetError Response :=
  match record with
  | none => .error (.new "the stream was lost")
  | some stream =>
      match stream.reset with
      | some code => .error (Connection.refused id code)
      | none =>
          match stream.head with
          | none => .error (.new "the answer ended without a head")
          | some head =>
              (Message.responseOf head stream.body stream.trailers).mapError
                Violation.toNetError

/-- Wait for the answer on `id` and take its record off. -/
def receiveAnswer (id : Nat) : Action Response := do
  let whole ← Connection.pumpUntil (answered id)
  let connection ← get
  modify fun connection => connection.remove id
  if whole then
    lift (answerOf id connection.streams[id]?)
  else
    Fallible.fail (.new "the connection closed before the answer ended")

/-- Send `request` on a new stream, `id`, and read its answer. -/
def exchange (id : Nat) (fields : List Field) (body : List UInt8) :
    Action Response := do
  modify fun connection => connection.openStream id
  Connection.together (sendRequest id fields body)
  receiveAnswer id

/-- Send `request` on a stream of its own and read its answer. -/
def send (codec : Percent) (request : Request) : Call Response := do
  let client ← get
  match client.connection.goaway with
  | some (last, code) => Fallible.fail (wentAway last code)
  | none =>
      if maxStreamId < client.next then
        Fallible.fail (.new "the connection has used every stream it has")
      else do
        modify fun client => { client with next := client.next + 2 }
        onConnection (exchange client.next
          (Message.requestFields codec client.scheme request) request.body)

/-- Send a `PING` and wait for it to come back. -/
def ping : Call Unit := do
  let client ← get
  onConnection (Connection.ping (BigEndian.write 8 client.next))

/-- Whether the server has said it is going away. -/
def goingAway (client : Client) : Bool :=
  client.connection.goaway.isSome

/-- Say goodbye with a `GOAWAY`. -/
def close : Call Unit := do
  let _ ← attempt (onConnection (Connection.goAway .noError ""))
  pure ()

end Client
end Http2
end XmipNet

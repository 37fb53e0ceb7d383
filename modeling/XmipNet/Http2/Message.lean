import XmipNet.Http
import XmipNet.Http2.Hpack.Table

/-!
# A request and its answer as HTTP/2 carries them

RFC 9113 section 8: the pseudo-header fields first, every name in lowercase, and
none of the fields that belong to an HTTP/1.1 connection.
-/

namespace XmipNet
namespace Http2
namespace Message

open Hpack (Field)
open Http (Request Response)

/-- The fields that name an HTTP/1.1 connection and never travel in HTTP/2. -/
def connectionSpecific : List String :=
  ["connection", "keep-alive", "proxy-connection", "transfer-encoding",
    "upgrade", "host"]

/-- What a field costs against the announced header list size. -/
def overhead : Nat := 32

/-- The size of a header list. -/
def listSize (fields : List Field) : Nat :=
  (fields.map fun field =>
    (Text.octets field.1).length + (Text.octets field.2).length + overhead).sum

/-- Whether a field is a pseudo-field. -/
def pseudo (field : Field) : Bool :=
  Text.opensWith field.1 ':'

/-- Whether a name is empty or holds a capital. -/
def badName (name : String) : Bool :=
  name = "" ∨ (Text.octets name).any fun octet => 65 ≤ octet ∧ octet ≤ 90

/-- The names of a list, once `regular` says whether a regular field has come:
none empty or capitalized, no pseudo-field after a regular one. -/
def checkNames (regular : Bool) : List Field → Except Violation Unit
  | [] => .ok ()
  | field :: rest =>
      if badName field.1 then
        .error (.protocol s!"a field name {Text.debug field.1}")
      else if pseudo field ∧ regular then
        .error (.protocol s!"{field.1} after a regular field")
      else
        checkNames (regular || !pseudo field) rest

/-- Refuse a header list that is malformed: larger than `limit`, a name empty
or not lowercase, or a pseudo-field after a regular one. -/
def check (fields : List Field) (limit : Nat) : Except Violation Unit :=
  let size := listSize fields
  if limit < size then
    .error (.protocol
      s!"a header list of {size} octets, over the {limit} announced")
  else
    checkNames false fields

/-- `headers` as HTTP/2 carries them: lowercase, without the fields of an
HTTP/1.1 connection. -/
def carried (headers : List Pair) : List Field :=
  (headers.map fun header => (Text.lowercase header.1, header.2)).filter
    fun field => field.1 ∉ connectionSpecific ∧
      (field.1 ≠ "te" ∨ field.2 = "trailers")

/-- `request` as the fields of its head. -/
def requestFields (codec : Percent) (scheme : String) (request : Request) :
    List Field :=
  let target := request.target codec
  [(":method", request.method), (":scheme", scheme)] ++
    (match request.headerValue "host" with
      | some host => [(":authority", host)]
      | none => []) ++
    [(":path", if target = "" then "/" else target)] ++
    carried request.headers

/-- What has been read of a request's head. -/
structure Head where
  method : Option String
  scheme : Option String
  path : Option String
  headers : List Pair
  deriving DecidableEq

namespace Head

/-- Nothing read yet. -/
def empty : Head where
  method := none
  scheme := none
  path := none
  headers := []

/-- One more field of a request's head. -/
def add (head : Head) (field : Field) : Except Violation Head :=
  if field.1 = ":method" then
    .ok { head with method := some field.2 }
  else if field.1 = ":scheme" then
    .ok { head with scheme := some field.2 }
  else if field.1 = ":path" then
    .ok { head with path := if field.2 = "" then none else some field.2 }
  else if field.1 = ":authority" then
    .ok { head with headers := ("host", field.2) :: head.headers }
  else if pseudo field then
    .error (.protocol s!"{field.1} in a request")
  else
    .ok { head with headers := head.headers ++ [field] }

end Head

/-- The request a head and a body carry; `:authority` is its `Host`. -/
def requestOf (codec : Percent) (fields : List Field) (body : List UInt8) :
    Except Violation Request := do
  let head ← fields.foldlM Head.add Head.empty
  match head.method, head.scheme, head.path with
  | some method, some _, some target =>
      let (path, query) := Http.splitTarget codec target
      let request : Request :=
        { method, path, query, headers := head.headers, body }
      match request.headerValue "content-length" with
      | some length =>
          if Text.parseUnsigned 64 length ≠ some body.length then
            .error (.protocol "a content-length the body does not have")
          else
            .ok request
      | none => .ok request
  | _, _, _ =>
      .error (.protocol "a request without :method, :scheme or :path")

/-- `response` as the fields of its head: `:status` and its own headers. -/
def responseFields (response : Response) : List Field :=
  (":status", toString response.status) :: carried response.headers

/-- The status a `:status` holds: three octets that are a number. -/
def statusOf (value : String) : Option Nat :=
  if (Text.octets value).length = 3 then
    Text.parseUnsigned 16 value
  else
    none

/-- The answer a head, a body and trailers carry; the last `:status` counts. -/
def responseOf (fields : List Field) (body : List UInt8)
    (trailers : List Field) : Except Violation Response :=
  let status := fields.foldl
    (fun status field =>
      if field.1 = ":status" then statusOf field.2 else status) none
  let headers := fields.filter fun field =>
    field.1 ≠ ":status" ∧ ¬pseudo field
  match status with
  | none => .error (.protocol "an answer without a :status")
  | some status =>
      .ok { status, reason := Http.reason status, headers, body, trailers }

end Message
end Http2
end XmipNet

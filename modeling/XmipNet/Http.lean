import XmipNet.Text

/-!
# A request and its answer

The two messages HTTP carries, in whichever version: HTTP/1.1 writes and reads
the same two as HTTP/2.
-/

namespace XmipNet

/-- A name and its value: a header, a trailer, or one parameter of a query. -/
abbrev Pair := String × String

/-- The percent-encoding of a query, which another library of the estate
provides. -/
structure Percent where
  decodePairs : String → List Pair
  encodePairs : List Pair → String

/-- The encoding of targets that have no query. -/
def Percent.bare : Percent where
  decodePairs _ := []
  encodePairs _ := ""

namespace Http

/-- One request. The path travels as it is; the query is kept decoded. -/
structure Request where
  method : String
  path : String
  query : List Pair
  headers : List Pair
  body : List UInt8
  deriving DecidableEq

/-- One answer. -/
structure Response where
  status : Nat
  reason : String
  headers : List Pair
  body : List UInt8
  trailers : List Pair
  deriving DecidableEq

/-- One header's value, however the peer capitalized it. -/
def find (headers : List Pair) (name : String) : Option String :=
  (headers.find? fun header =>
    Text.lowercase header.1 = Text.lowercase name).map Prod.snd

namespace Request

/-- One header's value, however it was capitalized. -/
def headerValue (request : Request) (name : String) : Option String :=
  find request.headers name

/-- The request target: the path, and the query encoded and joined. -/
def target (codec : Percent) (request : Request) : String :=
  if request.query = [] then
    request.path
  else
    request.path ++ "?" ++ codec.encodePairs request.query

end Request

/-- A request target as its path, still encoded, and its query decoded. -/
def splitTarget (codec : Percent) (target : String) : String × List Pair :=
  let (path, query) := (Text.splitOnce target '?').getD (target, "")
  (path, codec.decodePairs query)

/-- The phrase a status is written with. -/
def reason : Nat → String
  | 101 => "Switching Protocols"
  | 200 => "OK"
  | 201 => "Created"
  | 202 => "Accepted"
  | 204 => "No Content"
  | 207 => "Multi-Status"
  | 304 => "Not Modified"
  | 400 => "Bad Request"
  | 401 => "Unauthorized"
  | 403 => "Forbidden"
  | 404 => "Not Found"
  | 405 => "Method Not Allowed"
  | 408 => "Request Timeout"
  | 409 => "Conflict"
  | 423 => "Locked"
  | 429 => "Too Many Requests"
  | 500 => "Internal Server Error"
  | 503 => "Service Unavailable"
  | _ => "Status"

end Http
end XmipNet

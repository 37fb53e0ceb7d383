import XmipNet.Http.Message

/-!
# HTTP/1.1 on the wire

Both halves: a request and its answer, written and read, and the exchange of a
request for its answer over a connection kept for the next.
-/

namespace XmipNet
namespace Http

open Fallible (Reads Refuses Decided fail)
open Head (readHead fields)

/-- Whether an answer of `status` carries no body and states no length: a 1xx, a
204 or a 304. -/
def bodiless (status : Nat) : Bool :=
  status < 200 ∨ status = 204 ∨ status = 304

namespace Response

/-- One header's value, however it was capitalized. -/
def headerValue (response : Response) (name : String) : Option String :=
  find response.headers name

/-- One trailer field's value, however it was capitalized. -/
def trailerValue (response : Response) (name : String) : Option String :=
  find response.trailers name

end Response

/-- The message a request is written as, saying the connection closes after it
where `close`. -/
def requestMessage (codec : Percent) (request : Request) (close : Bool) :
    Message where
  first := request.method ++ " " ++ request.target codec ++ " HTTP/1.1"
  headers := request.headers
  body := request.body
  trailers := []
  close := close
  bodiless := false

/-- Write a request, saying the connection closes after it where `close`. -/
def write (codec : Percent) (request : Request) (close : Bool) :
    Fallible Wire NetError Unit :=
  (requestMessage codec request close).write "the request"

/-- Write a request, flushed. -/
def writeRequest (codec : Percent) (request : Request) :
    Fallible Wire NetError Unit :=
  write codec request true

/-- The message an answer is written as. -/
def responseMessage (response : Response) : Message where
  first :=
    let phrase :=
      if response.reason = "" then reason response.status else response.reason
    "HTTP/1.1 " ++ toString response.status ++ " " ++ phrase
  headers := response.headers
  body := response.body
  trailers := response.trailers
  close := true
  bodiless := bodiless response.status

/-- Write an answer, flushed; one with trailers goes chunked. -/
def writeResponse (response : Response) : Fallible Wire NetError Unit :=
  (responseMessage response).write "the answer"

/-- The status and the phrase of a status line. -/
def statusLine (line : String) : Option (Nat × String) :=
  (Text.stripPrefix line "HTTP/1.").bind fun rest =>
    (Text.splitOnce rest ' ').bind fun (_, words) =>
      let (code, phrase) := (Text.splitOnce words ' ').getD (words, "")
      if (Text.octets code).length = 3 then
        (Text.parseUnsigned 16 code).map fun status => (status, phrase)
      else
        none

/-- The body of an answer of `status` and the lines of its trailer. -/
def answerBody (status : Nat) (head : List String) :
    Reading NetError (List UInt8 × List String) :=
  if bodiless status then pure ([], []) else Body.read head true

/-- Read one answer. -/
def readResponse : Reading NetError Response := do
  let head ← readHead
  match head.head? with
  | none => fail (.new "the connection closed before an answer")
  | some line =>
      match statusLine line with
      | none => fail (.new s!"what came back is not an HTTP answer: {line}")
      | some (status, phrase) => do
          let (body, trailer) ← answerBody status head
          pure {
            status
            reason := phrase
            headers := fields (head.drop 1)
            body
            trailers := fields trailer }

/-- One request off a connection, or none where the peer closed without sending
one. -/
def readRequest (codec : Percent) : Reading NetError (Option Request) := do
  let head ← readHead
  match head.head? with
  | none => pure none
  | some line =>
      match Text.splitWhitespace line with
      | method :: target :: _ => do
          let (path, query) := splitTarget codec target
          let (body, _) ← Body.read head false
          pure (some {
            method
            path
            query
            headers := fields (head.drop 1)
            body })
      | _ => fail (.new s!"a request line Xmip cannot read: {line}")

/-- Whether a connection can carry another exchange after `answer`: it was
framed by other than the connection's end, and does not close. -/
def keeps (answer : Response) : Bool :=
  let closed := (answer.headerValue "connection").any fun said =>
    Text.lowercase said = "close"
  let framed := bodiless answer.status ||
    (answer.headerValue "content-length").isSome ||
      (answer.headerValue "transfer-encoding").isSome
  framed && !closed

/-- Read one answer off the connection through a buffer of its own, which is
dropped with what it still holds. -/
def readAnswer : Fallible Wire NetError Response := fun wire =>
  let (outcome, reader) := readResponse (.new wire.incoming)
  (outcome, { wire with incoming := reader.incoming })

/-- Write a request over a connection kept for the next, read its answer, and
say whether the connection can carry another. -/
def exchangeKept (codec : Percent) (request : Request) :
    Fallible Wire NetError (Response × Bool) := do
  write codec request false
  let answer ← readAnswer
  pure (answer, keeps answer)

/-! ## What is read, of the octets delivered -/

/-- What reading an answer does with a head. -/
def answerAfter (head : List String) : Reading NetError Response :=
  match head.head? with
  | none => fail (.new "the connection closed before an answer")
  | some line =>
      match statusLine line with
      | none => fail (.new s!"what came back is not an HTTP answer: {line}")
      | some (status, phrase) => do
          let (body, trailer) ← answerBody status head
          pure {
            status
            reason := phrase
            headers := fields (head.drop 1)
            body
            trailers := fields trailer }

/-- What reading a request does with a head. -/
def requestAfter (codec : Percent) (head : List String) :
    Reading NetError (Option Request) :=
  match head.head? with
  | none => pure none
  | some line =>
      match Text.splitWhitespace line with
      | method :: target :: _ => do
          let (path, query) := splitTarget codec target
          let (body, _) ← Body.read head false
          pure (some {
            method
            path
            query
            headers := fields (head.drop 1)
            body })
      | _ => fail (.new s!"a request line Xmip cannot read: {line}")

theorem readResponse_eq : readResponse = readHead >>= answerAfter := rfl

theorem readRequest_eq (codec : Percent) :
    readRequest codec = readHead >>= requestAfter codec := rfl

theorem answerAfter_of_statusLine
    {line phrase : String}
    {status : Nat}
    (reads : statusLine line = some (status, phrase))
    (rest : List String) :
    answerAfter (line :: rest) = answerBody status (line :: rest) >>= fun read =>
      pure {
        status
        reason := phrase
        headers := fields rest
        body := read.1
        trailers := fields read.2 } := by
  rw [answerAfter, List.head?_cons]
  simp only [reads]
  rfl

theorem answerAfter_of_not_statusLine
    {line : String}
    (unread : statusLine line = none)
    (rest : List String) :
    answerAfter (line :: rest) =
      fail (.new s!"what came back is not an HTTP answer: {line}") := by
  rw [answerAfter, List.head?_cons]
  simp only [unread]

theorem requestAfter_of_words
    (codec : Percent)
    {line method target : String}
    {more : List String}
    (words : Text.splitWhitespace line = method :: target :: more)
    (rest : List String) :
    requestAfter codec (line :: rest) =
      Body.read (line :: rest) false >>= fun read =>
        pure (some {
          method
          path := (splitTarget codec target).1
          query := (splitTarget codec target).2
          headers := fields rest
          body := read.1 }) := by
  rw [requestAfter, List.head?_cons]
  simp only [words]
  rfl

theorem requestAfter_of_word
    (codec : Percent)
    {line : String}
    {word : String}
    (words : Text.splitWhitespace line = [word])
    (rest : List String) :
    requestAfter codec (line :: rest) =
      fail (.new s!"a request line Xmip cannot read: {line}") := by
  rw [requestAfter, List.head?_cons]
  simp only [words]

theorem decided_answerBody (status : Nat) (head : List String) :
    Decided (answerBody status head) := by
  rw [answerBody]
  split
  · exact Fallible.decided_pure _
  · exact Body.decided_read head true

theorem decided_answerAfter (head : List String) :
    Decided (answerAfter head) := by
  cases head with
  | nil => exact Fallible.decided_fail _
  | cons line rest =>
      cases reads : statusLine line with
      | none =>
          rw [answerAfter_of_not_statusLine reads]
          exact Fallible.decided_fail _
      | some read =>
          rw [answerAfter_of_statusLine reads]
          exact (decided_answerBody _ _).bind fun _ => Fallible.decided_pure _

theorem decided_requestAfter (codec : Percent) (head : List String) :
    Decided (requestAfter codec head) := by
  cases head with
  | nil => exact Fallible.decided_pure none
  | cons line rest =>
      rw [requestAfter, List.head?_cons]
      simp only
      split
      · exact (Body.decided_read _ false).bind fun _ => Fallible.decided_pure _
      · exact Fallible.decided_fail _

end Http
end XmipNet

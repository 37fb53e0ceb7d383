import XmipNet.Http.Exchange
import XmipNet.Http.Legible

/-!
# Messages written are the messages read

A request or an answer whose strings are one line and trimmed is read back from
what was written of it, with the fields the writer added after its own; so the
messages written one after another are read one after another, each from where
the one before ended.
-/

namespace XmipNet
namespace Http

open Fallible (Reads times)
open Head (fieldLine lineOctets Whole readHead)
open Read (maxLine)

/-! ## Requests -/

namespace Request

/-- The query as the target carries it. -/
def encoded (codec : Percent) (request : Request) : String :=
  if request.query = [] then "" else codec.encodePairs request.query

/-- A request that is read as it was written, saying the connection closes after
it: its method and its target are words, its query is decoded from what it is
encoded to, and its headers are trimmed, one line each, and do not frame its
body otherwise than the writer does. No more than 197 headers leave room for the
two fields the writer adds. -/
structure Readable (codec : Percent) (request : Request) : Prop where
  method : request.method ≠ ""
  methodWord : ∀ character ∈ request.method.toList,
    Text.isWhitespace character = false
  path : Text.opensWith request.path '/' = true
  pathOnly : '?' ∉ request.path.toList
  targetWord : ∀ character ∈ (request.target codec).toList,
    Text.isWhitespace character = false
  decodes : codec.decodePairs (request.encoded codec) = request.query
  first : (Text.octets (requestMessage codec request true).first).length + 2 ≤
    maxLine
  headers : ∀ field ∈ request.headers, Writable field
  uncoded : ∀ field ∈ request.headers, ¬Names field "transfer-encoding"
  measured : ∀ field ∈ request.headers, Names field "content-length" →
    Body.contentLength field.2 = some request.body.length
  few : (requestMessage codec request true).lines.length ≤ Head.maxHeaders
  small : request.body.length ≤ maxBody

/-- A request as it is read back: its own headers and those its writer
adds. -/
def readBack (codec : Percent) (request : Request) : Request :=
  { request with
    headers := request.headers ++ (requestMessage codec request true).framing }

/-- The octets a request is written as. -/
def octets (codec : Percent) (request : Request) : List UInt8 :=
  (requestMessage codec request true).octets

theorem splitTarget_target
    {codec : Percent}
    {request : Request}
    (pathOnly : '?' ∉ request.path.toList)
    (decodes : codec.decodePairs (request.encoded codec) = request.query) :
    splitTarget codec (request.target codec) =
      (request.path, request.query) := by
  rw [encoded] at decodes
  rw [target, splitTarget]
  by_cases bare : request.query = []
  · rw [if_pos bare] at decodes ⊢
    rw [Text.splitOnce_eq_none pathOnly]
    simp only [Option.getD_none, decodes]
  · rw [if_neg bare] at decodes ⊢
    have split := Text.splitOnce_append pathOnly
      (codec.encodePairs request.query)
    rw [show request.path ++ "?" ++ codec.encodePairs request.query =
      request.path ++ String.singleton '?' ++
        codec.encodePairs request.query from rfl, split]
    simp only [Option.getD_some, decodes]

theorem target_ne_empty
    (codec : Percent)
    {request : Request}
    (path : Text.opensWith request.path '/' = true) :
    request.target codec ≠ "" := by
  have present : request.path ≠ "" := by
    intro empty
    rw [empty] at path
    exact absurd path (by decide)
  rw [target]
  split
  · exact present
  · intro empty
    rw [← String.toList_eq_nil_iff, String.toList_append,
      String.toList_append, List.append_eq_nil_iff,
      List.append_eq_nil_iff] at empty
    exact absurd empty.1.2 (by decide)

/-! ### The first line -/

section FirstLine

variable {codec : Percent} {request : Request}

/-- The words of the first line. -/
theorem words_first
    (method : request.method ≠ "")
    (methodWord : ∀ character ∈ request.method.toList,
      Text.isWhitespace character = false)
    (path : Text.opensWith request.path '/' = true)
    (targetWord : ∀ character ∈ (request.target codec).toList,
      Text.isWhitespace character = false) :
    Text.splitWhitespace (requestMessage codec request true).first =
      [request.method, request.target codec, "HTTP/1.1"] := by
  have line : (requestMessage codec request true).first =
      request.method ++ " " ++
        (request.target codec ++ " " ++ "HTTP/1.1") := by
    have version : " HTTP/1.1" = " " ++ "HTTP/1.1" := rfl
    rw [requestMessage, version]
    simp only [String.append_assoc]
  rw [line, Text.splitWhitespace_append method methodWord,
    Text.splitWhitespace_append (target_ne_empty codec path) targetWord,
    Text.splitWhitespace_of_forall (by decide)
      (Text.forall_mem_of_all (by decide))]

theorem not_lineFeed
    {text : String}
    (word : ∀ character ∈ text.toList, Text.isWhitespace character = false) :
    '\n' ∉ text.toList :=
  fun member => absurd (word '\n' member) (by decide)

theorem whole_first
    (words : Text.splitWhitespace (requestMessage codec request true).first =
      [request.method, request.target codec, "HTTP/1.1"])
    (methodWord : ∀ character ∈ request.method.toList,
      Text.isWhitespace character = false)
    (targetWord : ∀ character ∈ (request.target codec).toList,
      Text.isWhitespace character = false)
    (fits : (Text.octets
      (requestMessage codec request true).first).length + 2 ≤ maxLine) :
    Whole (requestMessage codec request true).first where
  nonempty := by
    intro empty
    have none : Text.splitWhitespace "" = [] := by decide
    rw [empty, none] at words
    cases words
  oneLine := by
    rw [requestMessage]
    simp only [String.toList_append, List.mem_append, not_or]
    exact ⟨⟨⟨not_lineFeed methodWord, by decide⟩, not_lineFeed targetWord⟩,
      by decide⟩
  fits := fits

end FirstLine

namespace Readable

variable {codec : Percent} {request : Request}

theorem words (readable : request.Readable codec) :
    Text.splitWhitespace (requestMessage codec request true).first =
      [request.method, request.target codec, "HTTP/1.1"] :=
  words_first readable.method readable.methodWord readable.path
    readable.targetWord

theorem whole (readable : request.Readable codec) :
    Whole (requestMessage codec request true).first :=
  whole_first readable.words readable.methodWord readable.targetWord
    readable.first

theorem legible (readable : request.Readable codec) :
    (requestMessage codec request true).Legible where
  first := readable.whole
  headers := readable.headers
  few := readable.few

theorem framed (readable : request.Readable codec) :
    (requestMessage codec request true).Framed where
  coded value found := by
    obtain ⟨field, member, names, _⟩ := of_find found
    exact absurd names (readable.uncoded field member)
  measured _ value found := by
    obtain ⟨field, member, names, rfl⟩ := of_find found
    exact readable.measured field member names
  small := readable.small
  trailers _ absent := absurd absent List.not_mem_nil
  fewTrailers := Nat.zero_le _

/-- A request is read back from its octets, and what follows them is left. -/
theorem reads
    (readable : request.Readable codec)
    (rest : List UInt8) :
    Reads (readRequest codec) (request.octets codec ++ rest)
      (some (request.readBack codec)) rest := by
  have head := readable.legible.readHead readable.small rest
  have body := readable.framed.read readable.legible rfl false rest
  have split := splitTarget_target readable.pathOnly readable.decodes
  rw [readRequest_eq]
  refine head.bind ?_
  rw [Message.lines, requestAfter_of_words codec readable.words,
    readable.legible.fields readable.small, split]
  exact body.bind (Fallible.reads_pure _ rest)

end Readable
end Request

/-! ## Answers -/

theorem statusLine_eq (status : Nat) (phrase : String) :
    "HTTP/1.1 " ++ toString status ++ " " ++ phrase =
      "HTTP/1." ++ ("1" ++ String.singleton ' ' ++
        (toString status ++ String.singleton ' ' ++ phrase)) := by
  have opening : "HTTP/1.1 " = "HTTP/1." ++ ("1" ++ String.singleton ' ') := rfl
  have space : " " = String.singleton ' ' := rfl
  rw [opening, space]
  simp only [String.append_assoc]

/-- The status and the phrase a status line was written with are read of it. -/
theorem statusLine_written
    {status : Nat}
    (three : 100 ≤ status ∧ status ≤ 999)
    (phrase : String) :
    statusLine ("HTTP/1.1 " ++ toString status ++ " " ++ phrase) =
      some (status, phrase) := by
  have space : ' ' ∉ (toString status).toList := fun member =>
    absurd (Text.isDigit_of_mem_toString member) (by decide)
  have digits := (Text.length_octets_toString_eq_three_iff status).mpr three
  have small : status < 2 ^ 16 := Nat.lt_of_le_of_lt three.2 (by decide)
  have version : ' ' ∉ "1".toList := by decide
  rw [statusLine_eq, statusLine, Text.stripPrefix_append, Option.bind_some,
    Text.splitOnce_append version, Option.bind_some]
  simp only [Text.splitOnce_append space, Option.getD_some]
  rw [if_pos digits, Text.parseUnsigned_toString small, Option.map_some]

theorem statusLine_ne_empty (status : Nat) (phrase : String) :
    "HTTP/1.1 " ++ toString status ++ " " ++ phrase ≠ "" := by
  intro empty
  rw [statusLine_eq, ← String.toList_eq_nil_iff, String.toList_append,
    List.append_eq_nil_iff] at empty
  exact absurd empty.1 (by decide)

theorem oneLine_statusLine
    {phrase : String}
    (oneLine : '\n' ∉ phrase.toList)
    (status : Nat) :
    '\n' ∉ ("HTTP/1.1 " ++ toString status ++ " " ++ phrase).toList := by
  have digits : '\n' ∉ (toString status).toList := fun member =>
    absurd (Text.isDigit_of_mem_toString member) (by decide)
  simp only [String.toList_append, List.mem_append, not_or]
  exact ⟨⟨⟨by decide, digits⟩, by decide⟩, oneLine⟩

theorem whole_statusLine
    {status : Nat}
    {phrase : String}
    (oneLine : '\n' ∉ phrase.toList)
    (fits : (Text.octets
      ("HTTP/1.1 " ++ toString status ++ " " ++ phrase)).length + 2 ≤ maxLine) :
    Whole ("HTTP/1.1 " ++ toString status ++ " " ++ phrase) where
  nonempty := statusLine_ne_empty status phrase
  oneLine := oneLine_statusLine oneLine status
  fits := fits

namespace Response

/-- The phrase an answer is written with. -/
def phrase (response : Response) : String :=
  if response.reason = "" then Http.reason response.status else response.reason

/-- An answer that is read as it was written: its status takes three digits, its
reason is one line, its headers and trailers are trimmed, one line each, and do
not frame its body otherwise than the writer does, and where its status allows
no body it has none. -/
structure Readable (response : Response) : Prop where
  status : 100 ≤ response.status ∧ response.status ≤ 999
  reason : '\n' ∉ response.reason.toList
  first : (Text.octets (responseMessage response).first).length + 2 ≤ maxLine
  headers : ∀ field ∈ response.headers, Writable field
  uncoded : ∀ field ∈ response.headers, ¬Names field "transfer-encoding"
  measured : ∀ field ∈ response.headers, Names field "content-length" →
    Body.contentLength field.2 = some response.body.length
  trailers : ∀ field ∈ response.trailers, Writable field
  fewTrailers : response.trailers.length ≤ Head.maxHeaders
  bodiless : bodiless response.status = true →
    response.body = [] ∧ response.trailers = []
  few : (responseMessage response).lines.length ≤ Head.maxHeaders
  small : response.body.length ≤ maxBody

/-- An answer as it is read back: the phrase it was written with, its own
headers and those its writer adds. -/
def readBack (response : Response) : Response :=
  { response with
    reason := response.phrase
    headers := response.headers ++ (responseMessage response).framing }

/-- The octets an answer is written as. -/
def octets (response : Response) : List UInt8 :=
  (responseMessage response).octets

theorem first_eq (response : Response) :
    (responseMessage response).first =
      "HTTP/1.1 " ++ toString response.status ++ " " ++ response.phrase :=
  rfl

theorem oneLine_reason (status : Nat) : '\n' ∉ (Http.reason status).toList := by
  unfold Http.reason
  split <;> decide

theorem oneLine_phrase
    {response : Response}
    (oneLine : '\n' ∉ response.reason.toList) :
    '\n' ∉ response.phrase.toList := by
  rw [phrase]
  split
  · exact oneLine_reason response.status
  · exact oneLine

namespace Readable

variable {response : Response}

theorem legible (readable : response.Readable) :
    (responseMessage response).Legible where
  first := whole_statusLine (oneLine_phrase readable.reason) readable.first
  headers := readable.headers
  few := readable.few

theorem framed (readable : response.Readable) :
    (responseMessage response).Framed where
  coded value found := by
    obtain ⟨field, member, names, _⟩ := of_find found
    exact absurd names (readable.uncoded field member)
  measured _ value found := by
    obtain ⟨field, member, names, rfl⟩ := of_find found
    exact readable.measured field member names
  small := readable.small
  trailers := readable.trailers
  fewTrailers := readable.fewTrailers

end Readable

/-- What reading an answer gives of a message whose head and body are read. -/
theorem reads_of_framed
    {response : Response}
    (status : 100 ≤ response.status ∧ response.status ≤ 999)
    (legible : (responseMessage response).Legible)
    (small : response.body.length ≤ maxBody)
    (framed : Http.bodiless response.status = false →
      (responseMessage response).Framed)
    (empty : Http.bodiless response.status = true →
      response.body = [] ∧ response.trailers = [])
    (rest : List UInt8) :
    Reads readResponse (response.octets ++ rest) response.readBack rest := by
  have head := legible.readHead small rest
  rw [readResponse_eq]
  refine head.bind ?_
  rw [Message.lines, first_eq,
    answerAfter_of_statusLine (statusLine_written status _),
    legible.fields small, answerBody]
  cases carries : Http.bodiless response.status with
  | true =>
      obtain ⟨noBody, noTrailers⟩ := empty carries
      have content : (responseMessage response).content = [] :=
        if_pos carries
      have same : response.readBack =
          { status := response.status
            reason := response.phrase
            headers := response.headers ++ (responseMessage response).framing
            body := []
            trailers := Head.fields [] } := by
        rw [readBack, noBody, noTrailers]
        rfl
      rw [if_pos rfl, content, List.nil_append, same]
      exact (Fallible.reads_pure ([], []) rest).bind (Fallible.reads_pure _ rest)
  | false =>
      have holds := framed carries
      have body := holds.read legible carries true rest
      have trailers : Head.fields (response.trailers.map fieldLine) =
          response.trailers :=
        Head.fields_map_fieldLine fun field member =>
          (holds.trailers field member).plain
      rw [if_neg (by decide)]
      refine body.bind ?_
      have same : response.readBack =
          { status := response.status
            reason := response.phrase
            headers := response.headers ++ (responseMessage response).framing
            body := response.body
            trailers := Head.fields (response.trailers.map fieldLine) } := by
        rw [trailers]
        rfl
      rw [same]
      exact Fallible.reads_pure _ rest

/-- An answer is read back from its octets, and what follows them is left. -/
theorem Readable.reads
    {response : Response}
    (readable : response.Readable)
    (rest : List UInt8) :
    Reads readResponse (response.octets ++ rest) response.readBack rest :=
  reads_of_framed readable.status readable.legible readable.small
    (fun _ => readable.framed) readable.bodiless rest

end Response

/-! ## One after another -/

/-- Write messages one after another. -/
def inTurn {α : Type} (write : α → Fallible Wire NetError Unit) :
    List α → Fallible Wire NetError Unit
  | [] => pure ()
  | message :: messages => do
      write message
      inTurn write messages

/-- Messages written one after another put their octets one after another. -/
theorem written_of_inTurn
    {α : Type}
    (write : α → Fallible Wire NetError Unit)
    (octets : α → List UInt8)
    (puts : ∀ message wire after, write message wire = (.ok (), after) →
      after.written = wire.written ++ octets message)
    {messages : List α}
    {wire after : Wire}
    (writes : inTurn write messages wire = (.ok (), after)) :
    after.written = wire.written ++ messages.flatMap octets := by
  induction messages generalizing wire with
  | nil =>
      cases writes
      exact (List.append_nil _).symm
  | cons message messages inductionHypothesis =>
      rw [inTurn, Fallible.bind_apply] at writes
      cases first : write message wire with
      | mk outcome between =>
          rw [first] at writes
          cases outcome with
          | error failure => cases writes
          | ok done =>
              rw [inductionHypothesis writes, puts _ _ _ first, List.flatMap_cons,
                List.append_assoc]

theorem written_of_writeRequest
    {codec : Percent}
    {request : Request}
    {wire after : Wire}
    (writes : writeRequest codec request wire = (.ok (), after)) :
    after.written = wire.written ++ request.octets codec := by
  rw [writeRequest, write] at writes
  exact (Message.written_of_write writes).1

theorem written_of_writeResponse
    {response : Response}
    {wire after : Wire}
    (writes : writeResponse response wire = (.ok (), after)) :
    after.written = wire.written ++ response.octets := by
  rw [writeResponse] at writes
  exact (Message.written_of_write writes).1

/-- Requests written one after another are read one after another, each as it
was, and likewise answers; the reader is left at what follows the last. -/
theorem messages_read_back (codec : Percent) :
    (∀ {requests : List Request} {wire after : Wire},
      (∀ request ∈ requests, request.Readable codec) →
      inTurn (writeRequest codec) requests wire = (.ok (), after) →
      ∃ octets, after.written = wire.written ++ octets ∧ ∀ rest,
        Reads (times (readRequest codec) requests.length) (octets ++ rest)
          (requests.map fun request => some (request.readBack codec)) rest) ∧
    ∀ {responses : List Response} {wire after : Wire},
      (∀ response ∈ responses, response.Readable) →
      inTurn writeResponse responses wire = (.ok (), after) →
      ∃ octets, after.written = wire.written ++ octets ∧ ∀ rest,
        Reads (times readResponse responses.length) (octets ++ rest)
          (responses.map Response.readBack) rest := by
  constructor
  · intro requests wire after readable writes
    have puts : after.written =
        wire.written ++ requests.flatMap (Request.octets codec) :=
      written_of_inTurn (writeRequest codec) (Request.octets codec)
        (fun _ _ _ runs => written_of_writeRequest runs) writes
    refine ⟨_, puts, Fallible.times_reads ?_⟩
    intro request member rest
    exact (readable request member).reads rest
  · intro responses wire after readable writes
    have puts : after.written =
        wire.written ++ responses.flatMap Response.octets :=
      written_of_inTurn writeResponse Response.octets
        (fun _ _ _ runs => written_of_writeResponse runs) writes
    refine ⟨_, puts, Fallible.times_reads ?_⟩
    intro response member rest
    exact (readable response member).reads rest

/-- The encoding of a query whose names and values need no escaping. -/
def unescaped : Percent where
  decodePairs text :=
    ((text.toList.splitOn '&').map String.ofList).filterMap fun part =>
      Text.splitOnce part '='
  encodePairs query :=
    "&".intercalate (query.map fun (name, value) => name ++ "=" ++ value)

/-- A request with a query and a body that reads as another request. -/
def putting : Request where
  method := "PUT"
  path := "/a"
  query := [("x", "1"), ("y", "2")]
  headers := [("Host", "h"), ("X-Note", "a: b")]
  body := Text.octets "GET / HTTP/1.1\r\n\r\n"

/-- An answer whose trailer and body read as chunks and a head. -/
def trailing : Response where
  status := 200
  reason := ""
  headers := [("X-Kind", "trailing")]
  body := Text.octets "0\r\n\r\n"
  trailers := [("Grpc-Status", "0")]

/-- An answer that carries no body. -/
def bare : Response where
  status := 204
  reason := ""
  headers := []
  body := []
  trailers := []

theorem readable_putting : putting.Readable unescaped where
  method := by decide
  methodWord := Text.forall_mem_of_all (by decide)
  path := by decide
  pathOnly := by decide
  targetWord := Text.forall_mem_of_all (by decide)
  decodes := by decide
  first := by decide
  headers := List.forall_mem_cons.mpr
    ⟨⟨⟨by decide, by decide, by decide, by decide, by decide⟩, by decide⟩,
      List.forall_mem_singleton.mpr
        ⟨⟨by decide, by decide, by decide, by decide, by decide⟩, by decide⟩⟩
  uncoded := by decide
  measured := by decide
  few := by decide
  small := by decide

theorem readable_trailing : trailing.Readable where
  status := by decide
  reason := by decide
  first := by decide
  headers := List.forall_mem_singleton.mpr
    ⟨⟨by decide, by decide, by decide, by decide, by decide⟩, by decide⟩
  uncoded := by decide
  measured := by decide
  trailers := List.forall_mem_singleton.mpr
    ⟨⟨by decide, by decide, by decide, by decide, by decide⟩, by decide⟩
  fewTrailers := by decide
  bodiless := by decide
  few := by decide
  small := by decide

theorem readable_bare : bare.Readable where
  status := by decide
  reason := by decide
  first := by decide
  headers := List.forall_mem_nil _
  uncoded := by decide
  measured := by decide
  trailers := List.forall_mem_nil _
  fewTrailers := by decide
  bodiless := by decide
  few := by decide
  small := by decide

/-- A connection that takes all that is written and gives nothing. -/
def silent : Wire where
  incoming := []
  accepts := []
  written := []

theorem messages_read_back_putting_trailing :
    (∃ octets, (inTurn (writeRequest unescaped) [putting, putting]
        silent).2.written = silent.written ++ octets ∧ ∀ rest,
      Reads (times (readRequest unescaped) [putting, putting].length)
        (octets ++ rest)
        ([putting, putting].map fun request =>
          some (request.readBack unescaped))
        rest) ∧
    ∃ octets, (inTurn writeResponse [bare, trailing] silent).2.written =
        silent.written ++ octets ∧ ∀ rest,
      Reads (times readResponse [bare, trailing].length) (octets ++ rest)
        ([bare, trailing].map Response.readBack) rest :=
  ⟨(messages_read_back unescaped).1
      (List.forall_mem_cons.mpr
        ⟨readable_putting, List.forall_mem_singleton.mpr readable_putting⟩) rfl,
    (messages_read_back unescaped).2
      (List.forall_mem_cons.mpr
        ⟨readable_bare, List.forall_mem_singleton.mpr readable_trailing⟩) rfl⟩

end Http
end XmipNet

import XmipNet.Http.RoundTrip

/-!
# Whose answer an exchange gets

A server answers each request on a kept connection with any number of interim
answers and then a final one, sent once the request has come. An exchange gives
the first answer there is: its own where no interim answer comes before it, and
an interim answer in its place where one does.
-/

namespace XmipNet
namespace Http

open Fallible (Reads)
open Head (fieldLine lineOctets Whole)
open Read (maxLine)

/-! ## Answers as servers send them -/

/-- The chunks a body goes in, each with its line, and the line of the last. -/
structure Chunks where
  sized : List (String × List UInt8)
  last : String
  deriving DecidableEq

/-- An answer as a server sends it, its framing among its headers, and the
chunks its body goes in where it goes in chunks. -/
structure Answer where
  response : Response
  chunks : Option Chunks
  deriving DecidableEq

namespace Answer

/-- The lines of an answer's head. -/
def lines (answer : Answer) : List String :=
  ("HTTP/1.1 " ++ toString answer.response.status ++ " " ++
    answer.response.reason) :: answer.response.headers.map fieldLine

/-- What follows an answer's head. -/
def content (answer : Answer) : List UInt8 :=
  match answer.chunks with
  | none => answer.response.body
  | some chunks =>
      chunks.sized.flatMap Body.chunkOctets ++ (lineOctets chunks.last ++
        ((answer.response.trailers.map fieldLine).flatMap lineOctets ++
          [13, 10]))

/-- The octets of an answer. -/
def octets (answer : Answer) : List UInt8 :=
  answer.lines.flatMap lineOctets ++ ([13, 10] ++ answer.content)

/-- How an answer's body is framed: its status allows none, its length is
stated, or it goes in chunks. -/
def Framed (answer : Answer) : Prop :=
  if bodiless answer.response.status then
    answer.response.body = [] ∧ answer.response.trailers = [] ∧
      answer.chunks = none
  else
    match answer.chunks with
    | none =>
        answer.response.trailers = [] ∧
          find answer.response.headers "transfer-encoding" = none ∧
          (find answer.response.headers "content-length").bind
            Body.contentLength = some answer.response.body.length
    | some chunks =>
        (find answer.response.headers "transfer-encoding").map
            (fun value => Text.lowercase (Text.trim value)) = some "chunked" ∧
          (∀ chunk ∈ chunks.sized, Body.Sized chunk ∧ chunk.2 ≠ []) ∧
          Body.Sized (chunks.last, []) ∧
          answer.response.body = chunks.sized.flatMap Prod.snd

/-- An answer any server may send: lines within the longest and no more of them
than may be, its body framed and within the largest. -/
structure Sound (answer : Answer) : Prop where
  status : 100 ≤ answer.response.status ∧ answer.response.status ≤ 999
  reason : '\n' ∉ answer.response.reason.toList
  first : (Text.octets ("HTTP/1.1 " ++ toString answer.response.status ++ " " ++
    answer.response.reason)).length + 2 ≤ maxLine
  headers : ∀ field ∈ answer.response.headers, Writable field
  few : answer.lines.length ≤ Head.maxHeaders
  framed : answer.Framed
  small : answer.response.body.length ≤ maxBody
  trailers : ∀ field ∈ answer.response.trailers, Writable field
  fewTrailers : answer.response.trailers.length ≤ Head.maxHeaders

/-- An answer that others follow: a 1xx other than the one that ends HTTP. -/
def Interim (answer : Answer) : Prop :=
  answer.response.status < 200 ∧ answer.response.status ≠ 101

instance (answer : Answer) : Decidable answer.Interim :=
  inferInstanceAs (Decidable (_ ∧ _))

theorem whole_of_writable
    {fields : List Pair}
    (writable : ∀ field ∈ fields, Writable field) :
    ∀ line ∈ fields.map fieldLine, Whole line := by
  intro line member
  obtain ⟨field, present, rfl⟩ := List.mem_map.mp member
  exact (writable field present).whole

theorem fields_of_writable
    {fields : List Pair}
    (writable : ∀ field ∈ fields, Writable field) :
    Head.fields (fields.map fieldLine) = fields :=
  Head.fields_map_fieldLine fun field member => (writable field member).plain

theorem Sound.whole
    {answer : Answer}
    (sound : answer.Sound) :
    ∀ line ∈ answer.lines, Whole line :=
  List.forall_mem_cons.mpr ⟨whole_statusLine sound.reason sound.first,
    whole_of_writable sound.headers⟩

theorem Sound.header
    {answer : Answer}
    (sound : answer.Sound)
    (name : String) :
    Head.header answer.lines name = find answer.response.headers name := by
  rw [Head.header_eq_find, lines, List.drop_succ_cons, List.drop_zero,
    fields_of_writable sound.headers]

/-- The body an answer frames is read, with the lines of its trailer. -/
theorem Sound.answerBody
    {answer : Answer}
    (sound : answer.Sound)
    (rest : List UInt8) :
    Reads (answerBody answer.response.status answer.lines)
      (answer.content ++ rest)
      (answer.response.body, answer.response.trailers.map fieldLine) rest := by
  have framed := sound.framed
  rw [Framed] at framed
  rw [Http.answerBody, content]
  by_cases none : bodiless answer.response.status = true
  · rw [if_pos none] at framed ⊢
    obtain ⟨noBody, noTrailers, whole⟩ := framed
    rw [whole, noBody, noTrailers]
    exact Fallible.reads_pure ([], []) rest
  · rw [if_neg none] at framed ⊢
    cases goes : answer.chunks with
    | none =>
        rw [goes] at framed
        obtain ⟨noTrailers, uncoded, states⟩ := framed
        obtain ⟨value, found, measured⟩ := Option.bind_eq_some_iff.mp states
        rw [noTrailers]
        exact Message.read_reads_of_length ((sound.header _).trans uncoded)
          ((sound.header _).trans found) measured sound.small true rest
    | some chunks =>
        rw [goes] at framed
        obtain ⟨coded, sized, ends, whole⟩ := framed
        obtain ⟨value, found, chunked⟩ := Option.map_eq_some_iff.mp coded
        have fits : ([] ++ chunks.sized.flatMap Prod.snd).length ≤ maxBody := by
          rw [List.nil_append, ← whole]
          exact sound.small
        have few : (answer.response.trailers.map fieldLine).length ≤
            Head.maxHeaders := by
          rw [List.length_map]
          exact sound.fewTrailers
        have reads := Body.unchunkFrom_reads sized ends fits
          (whole_of_writable sound.trailers) few rest
        rw [Message.read_of_chunked ((sound.header _).trans found) chunked,
          whole]
        simp only [List.append_assoc] at reads ⊢
        exact reads

/-- A sound answer is read, and what follows it is left. -/
theorem Sound.reads
    {answer : Answer}
    (sound : answer.Sound)
    (rest : List UInt8) :
    Reads readResponse (answer.octets ++ rest) answer.response rest := by
  have head := Head.readHead_reads sound.whole sound.few
    (answer.content ++ rest)
  have body := sound.answerBody rest
  rw [octets, List.append_assoc, List.append_assoc, readResponse_eq]
  refine head.bind ?_
  rw [lines] at body ⊢
  rw [answerAfter_of_statusLine (statusLine_written sound.status _),
    fields_of_writable sound.headers]
  refine body.bind ?_
  rw [fields_of_writable sound.trailers]
  exact Fallible.reads_pure _ rest

end Answer

/-! ## A connection that takes what is written -/

/-- Every write to the connection goes through. -/
def Takes (wire : Wire) : Prop :=
  ∀ acceptance ∈ wire.accepts, acceptance = .taken

theorem put_of_takes
    {wire : Wire}
    (takes : Takes wire)
    (bytes : List UInt8) :
    ∃ after, Message.put bytes wire = (.ok (), after) ∧ Takes after ∧
      after.incoming = wire.incoming := by
  rw [Message.put, Wire.writeAll]
  cases accepts : wire.accepts with
  | nil => exact ⟨_, rfl, fun _ absent => absurd absent List.not_mem_nil, rfl⟩
  | cons acceptance rest =>
      rw [Takes, accepts] at takes
      obtain ⟨first, others⟩ := List.forall_mem_cons.mp takes
      rw [first]
      exact ⟨_, rfl, others, rfl⟩

theorem write_of_takes
    {wire : Wire}
    (takes : Takes wire)
    (message : Message)
    (what : String) :
    ∃ after, message.write what wire = (.ok (), after) ∧ Takes after ∧
      after.incoming = wire.incoming := by
  obtain ⟨first, puts, takes, same⟩ :=
    put_of_takes takes (Text.octets message.parts.1)
  obtain ⟨second, putsBody, takes, sameBody⟩ :=
    put_of_takes takes (if message.bodiless then [] else message.body)
  obtain ⟨third, putsTail, takes, sameTail⟩ :=
    put_of_takes takes (Text.octets message.parts.2)
  obtain ⟨after, flushes, takes, sameEnd⟩ := put_of_takes takes []
  have flushed : Message.flush third = (.ok (), after) := flushes
  refine ⟨after, ?_, takes, ?_⟩
  · rw [Message.write_eq, Fallible.mapError, Fallible.bind_of_ok puts,
      Fallible.bind_of_ok putsBody, Fallible.bind_of_ok putsTail, flushed]
    rfl
  · rw [sameEnd, sameTail, sameBody, same]

/-- An exchange gives the first answer that comes; where nothing comes after it,
nothing is left for the next. -/
theorem exchangeKept_of_reads
    (codec : Percent)
    (request : Request)
    {wire : Wire}
    (takes : Takes wire)
    {bytes rest : List UInt8}
    (delivers : Wire.Delivers wire.incoming bytes)
    {answer : Response}
    (reads : Reads readResponse bytes answer rest) :
    ∃ after, exchangeKept codec request wire =
        (.ok (answer, keeps answer), after) ∧ Takes after ∧
      (rest = [] → Wire.Delivers after.incoming []) := by
  obtain ⟨between, writes, takes, same⟩ :=
    write_of_takes takes (requestMessage codec request false) "the request"
  have comes : Wire.Delivers between.incoming bytes := by rwa [same]
  obtain ⟨reader, runs, later, left, whole⟩ :=
    reads (.new between.incoming) (Reader.delivers_new comes)
  have written : write codec request false wire = (.ok (), between) := writes
  have answers : readAnswer between =
      (.ok answer, { between with incoming := reader.incoming }) := by
    rw [readAnswer, runs]
  refine ⟨{ between with incoming := reader.incoming }, ?_, takes, ?_⟩
  · rw [exchangeKept, Fallible.bind_of_ok written, Fallible.bind_of_ok answers]
    rfl
  · rintro rfl
    rw [List.append_eq_nil_iff] at whole
    obtain rfl := whole.2
    exact left

/-! ## A run of exchanges -/

/-- A request and what comes once it has been received: interim answers and the
final one, their octets in pieces of any sizes. -/
structure Exchange where
  request : Request
  interims : List Answer
  final : Answer
  arrivals : List Arrival

/-- The server answers as it may: any number of interim answers, then a final
one. -/
structure Exchange.Served (exchange : Exchange) : Prop where
  interims : ∀ answer ∈ exchange.interims, answer.Sound ∧ answer.Interim
  final : exchange.final.Sound
  status : 200 ≤ exchange.final.response.status
  delivers : Wire.Delivers exchange.arrivals
    ((exchange.interims ++ [exchange.final]).flatMap Answer.octets)

/-- Each call gives the final answer to its own request, as long as every call
before it said that the connection can carry another. -/
def Answered (codec : Percent) : List Exchange → Wire → Prop
  | [], _ => True
  | exchange :: later, wire =>
      ∃ kept after,
        exchangeKept codec exchange.request
            { wire with incoming := wire.incoming ++ exchange.arrivals } =
          (.ok (exchange.final.response, kept), after) ∧
        (kept = true → Answered codec later after)

/-- Whether an answer says that its connection closes. -/
def closes (answer : Response) : Bool :=
  (answer.headerValue "connection").any fun said =>
    Text.lowercase said = "close"

/-- No interim answer comes before a final one, as far as the final answers leave
the connection open. -/
def Direct : List Exchange → Prop
  | [] => True
  | exchange :: later =>
      exchange.interims = [] ∧
        (closes exchange.final.response = false → Direct later)

/-- An answer that is framed keeps its connection unless it says otherwise. -/
theorem keeps_of_sound
    {answer : Answer}
    (sound : answer.Sound) :
    keeps answer.response = !closes answer.response := by
  have framed := sound.framed
  have holds : (bodiless answer.response.status ||
      (answer.response.headerValue "content-length").isSome ||
        (answer.response.headerValue "transfer-encoding").isSome) = true := by
    rw [Answer.Framed] at framed
    by_cases none : bodiless answer.response.status = true
    · rw [none, Bool.true_or, Bool.true_or]
    · rw [if_neg none] at framed
      cases goes : answer.chunks with
      | none =>
          rw [goes] at framed
          obtain ⟨value, found, _⟩ := Option.bind_eq_some_iff.mp framed.2.2
          rw [Response.headerValue, found, Option.isSome_some, Bool.or_true,
            Bool.true_or]
      | some chunks =>
          rw [goes] at framed
          obtain ⟨value, found, _⟩ := Option.map_eq_some_iff.mp framed.1
          rw [Response.headerValue, Response.headerValue, found,
            Option.isSome_some, Bool.or_true]
  rw [keeps, holds, Bool.true_and]
  rfl

/-- The call that gets an interim answer gives it in place of its own. -/
theorem exchangeKept_of_interim
    (codec : Percent)
    {exchange : Exchange}
    (served : exchange.Served)
    {interim : Answer}
    {more : List Answer}
    (first : exchange.interims = interim :: more)
    {wire : Wire}
    (takes : Takes wire)
    (ended : Wire.Delivers wire.incoming []) :
    ∃ after, exchangeKept codec exchange.request
        { wire with incoming := wire.incoming ++ exchange.arrivals } =
      (.ok (interim.response, keeps interim.response), after) := by
  have comes := ended.append served.delivers
  have sound := (served.interims interim (first ▸ List.mem_cons_self)).1
  rw [List.nil_append, first, List.cons_append, List.flatMap_cons] at comes
  have takesAll : Takes
      { wire with incoming := wire.incoming ++ exchange.arrivals } := takes
  obtain ⟨after, runs, _⟩ := exchangeKept_of_reads codec
    exchange.request takesAll comes (sound.reads _)
  exact ⟨after, runs⟩

/-- A request for which the server says that it may go on and then answers. -/
def continued : Exchange where
  request := putting
  interims := [{
    response := {
      status := 100, reason := "Continue", headers := [], body := []
      trailers := [] }
    chunks := none }]
  final := {
    response := {
      status := 200, reason := "OK", headers := [("Content-Length", "2")]
      body := [111, 107], trailers := [] }
    chunks := none }
  arrivals := [.octets (Text.octets
    ("HTTP/1.1 100 Continue\r\n\r\n" ++
      "HTTP/1.1 200 OK\r\nContent-Length: 2\r\n\r\nok"))]

/-- A request answered in chunks. -/
def chunked : Exchange where
  request := putting
  interims := []
  final := {
    response := {
      status := 200, reason := "OK"
      headers := [("Transfer-Encoding", "chunked")]
      body := [111, 107], trailers := [] }
    chunks := some { sized := [("1;a", [111]), ("01", [107])], last := "00" } }
  arrivals := [.octets (Text.octets
    ("HTTP/1.1 200 OK\r\nTransfer-Encoding: chunked\r\n\r\n" ++
      "1;a\r\no\r\n01\r\nk\r\n00\r\n\r\n"))]

theorem served_continued : continued.Served where
  interims := List.forall_mem_singleton.mpr
    ⟨{ status := by decide, reason := by decide, first := by decide
       headers := List.forall_mem_nil _, few := by decide
       framed := ⟨rfl, rfl, rfl⟩, small := by decide
       trailers := List.forall_mem_nil _, fewTrailers := by decide },
      by decide⟩
  final :=
    { status := by decide, reason := by decide, first := by decide
      headers := List.forall_mem_singleton.mpr
        ⟨⟨by decide, by decide, by decide, by decide, by decide⟩, by decide⟩
      few := by decide, framed := ⟨rfl, rfl, by decide⟩, small := by decide
      trailers := List.forall_mem_nil _, fewTrailers := by decide }
  status := by decide
  delivers := by decide

theorem served_chunked : chunked.Served where
  interims := List.forall_mem_nil _
  final :=
    { status := by decide, reason := by decide, first := by decide
      headers := List.forall_mem_singleton.mpr
        ⟨⟨by decide, by decide, by decide, by decide, by decide⟩, by decide⟩
      few := by decide
      framed := ⟨by decide,
        List.forall_mem_cons.mpr
          ⟨⟨⟨by decide, by decide, by decide⟩, by decide⟩,
            List.forall_mem_singleton.mpr
              ⟨⟨by decide, by decide, by decide⟩, by decide⟩⟩,
        ⟨by decide, by decide, by decide⟩, by decide⟩
      small := by decide
      trailers := List.forall_mem_nil _, fewTrailers := by decide }
  status := by decide
  delivers := by decide

theorem takes_silent : Takes silent :=
  List.forall_mem_nil _

end Http
end XmipNet

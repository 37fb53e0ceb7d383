import XmipNet.Foundation.Cuts
import XmipNet.Http2.Agreement
import XmipNet.Words

/-!
# A gRPC message on its stream

A message is framed as one octet that says whether it is compressed, four of its
length and the message; what is read of a body is the first message framed in
it. Of two ends that talk to each other over HTTP/2, each reads the message the
other framed.
-/

namespace XmipNet
namespace Grpc

open Cuts (Cut)

/-- The status codes, by the names gRPC gives them, in code order. -/
def codes : List String :=
  ["OK", "CANCELLED", "UNKNOWN", "INVALID_ARGUMENT", "DEADLINE_EXCEEDED",
    "NOT_FOUND", "ALREADY_EXISTS", "PERMISSION_DENIED", "RESOURCE_EXHAUSTED",
    "FAILED_PRECONDITION", "ABORTED", "OUT_OF_RANGE", "UNIMPLEMENTED",
    "INTERNAL", "UNAVAILABLE", "DATA_LOSS", "UNAUTHENTICATED"]

/-- The code a status name, or a code already, stands for: that of `UNKNOWN`
where it is neither. -/
def code (name : String) : Nat :=
  ((codes.idxOf? name).filter (· < 2 ^ 8) <|>
    Text.parseUnsigned 8 name).getD 2

/-- `message` as one frame with its length before it, not compressed. -/
def frame (message : List UInt8) : Except NetError (List UInt8) :=
  if message.length < 2 ^ 32 then
    .ok (0 :: BigEndian.write 4 message.length ++ message)
  else
    .error (.new "a message over 4 GiB does not fit a gRPC frame")

/-- The first message in a body of frames, and whether it was flagged
compressed. -/
def unframe : List UInt8 → Except NetError (List UInt8 × Bool)
  | flag :: first :: second :: third :: fourth :: rest =>
      let length := BigEndian.read [first, second, third, fourth]
      if length ≤ rest.length then
        .ok (rest.take length, flag ≠ 0)
      else
        .error (.new
          s!"the frame claims {length} bytes, the body has fewer")
  | _ => .error (.new "the body is shorter than a gRPC frame prefix")

/-! ## What is framed and what is read -/

section Unframe

variable {message framed body came : List UInt8} {compressed : Bool}

/-- A body is read whose first octets are a flag, a length and as many octets
more, whatever follows them. -/
theorem unframe_eq_ok_iff :
    unframe body = .ok (message, compressed) ↔
      ∃ flag rest, body =
          flag :: BigEndian.write 4 message.length ++ message ++ rest ∧
        message.length < 2 ^ 32 ∧ compressed = decide (flag ≠ 0) := by
  constructor
  · intro reads
    match body, reads with
    | flag :: first :: second :: third :: fourth :: rest, reads =>
        rw [unframe] at reads
        split at reads
        next enough =>
          obtain ⟨rfl, rfl⟩ := Prod.mk.inj (Except.ok.inj reads)
          have fits := BigEndian.read_lt [first, second, third, fourth]
          have length := List.length_take_of_le enough
          have header := BigEndian.write_read [first, second, third, fourth]
          refine ⟨flag,
            rest.drop (BigEndian.read [first, second, third, fourth]), ?_, ?_,
            rfl⟩
          · rw [length, show BigEndian.write 4 _ = _ from header,
              List.append_assoc, List.take_append_drop]
            rfl
          · rw [length]
            exact fits.trans_eq (by norm_num)
        · cases reads
  · rintro ⟨flag, rest, rfl, fits, rfl⟩
    have back : BigEndian.read (BigEndian.write 4 message.length) =
        message.length :=
      BigEndian.read_write_of_lt (fits.trans_eq (by norm_num))
    have four := BigEndian.length_write 4 message.length
    match header : BigEndian.write 4 message.length, four with
    | [first, second, third, fourth], _ =>
        rw [header] at back
        simp only [List.cons_append, List.nil_append, unframe, back,
          List.length_append, Nat.le_add_right, if_true, List.take_left]

/-- Anything else is refused: a body too short for what comes before a message, or
for the message that it claims. -/
theorem unframe_refuses
    (refused : ∀ flag message rest, message.length < 2 ^ 32 →
      body ≠ flag :: BigEndian.write 4 message.length ++ message ++ rest) :
    ∃ failure, unframe body = .error failure := by
  cases reads : unframe body with
  | error failure => exact ⟨failure, rfl⟩
  | ok read =>
      obtain ⟨message, compressed⟩ := read
      obtain ⟨flag, rest, same, fits, _⟩ := unframe_eq_ok_iff.mp reads
      exact absurd same (refused flag message rest fits)

/-- A frame is read back whatever follows it. -/
theorem unframe_append
    (frames : frame message = .ok framed)
    (rest : List UInt8) :
    unframe (framed ++ rest) = .ok (message, false) := by
  rw [frame] at frames
  split at frames
  next fits =>
    cases frames
    exact unframe_eq_ok_iff.mpr ⟨0, rest, rfl, fits, rfl⟩
  · cases frames

/-- A frame that was cut is refused. -/
theorem unframe_of_cut
    (frames : frame message = .ok framed)
    (cut : Cut came framed) :
    ∃ failure, unframe came = .error failure := by
  refine unframe_refuses fun flag other rest small same => ?_
  obtain ⟨more, whole⟩ := cut.opens
  have claims := unframe_append frames []
  have reads : unframe (framed ++ []) = .ok (other, decide (flag ≠ 0)) := by
    refine unframe_eq_ok_iff.mpr ⟨flag, rest ++ more, ?_, small, rfl⟩
    rw [List.append_nil, ← whole, same, List.append_assoc]
  obtain ⟨rfl, _⟩ := Prod.mk.inj (Except.ok.inj (claims.symm.trans reads))
  have shorter := cut.length_lt
  rw [frame, if_pos small] at frames
  cases frames
  simp only [same, List.length_append, List.length_cons,
    BigEndian.length_write] at shorter
  omega

/-- A message has a frame exactly when its length fits four octets; a frame is
read back whatever follows it, and refused where it was cut; and what is read of
a body is framed at its beginning, flagged or not. -/
theorem frame_reads
    (message : List UInt8) :
    ((∃ framed, frame message = .ok framed) ↔ message.length < 2 ^ 32) ∧
      (∀ framed, frame message = .ok framed →
        (∀ rest, unframe (framed ++ rest) = .ok (message, false)) ∧
          ∀ came, Cut came framed →
            ∃ failure, unframe came = .error failure) ∧
      ∀ body compressed, unframe body = .ok (message, compressed) ↔
        ∃ flag framed rest, frame message = .ok framed ∧
          body = flag :: framed.tail ++ rest ∧
          compressed = decide (flag ≠ 0) := by
  refine ⟨?_, fun framed frames =>
    ⟨unframe_append frames, fun came => unframe_of_cut frames⟩, ?_⟩
  · rw [frame]
    split
    next fits => exact iff_of_true ⟨_, rfl⟩ fits
    next large =>
      refine iff_of_false ?_ large
      rintro ⟨_, fails⟩
      cases fails
  · intro body compressed
    rw [unframe_eq_ok_iff]
    constructor
    · rintro ⟨flag, rest, same, fits, flagged⟩
      exact ⟨flag, _, rest, if_pos fits, same, flagged⟩
    · rintro ⟨flag, framed, rest, frames, same, flagged⟩
      rw [frame] at frames
      split at frames
      next fits =>
        cases frames
        exact ⟨flag, rest, same, fits, flagged⟩
      · cases frames

end Unframe

/-! ## A status -/

/-- The trailer an answer's status is carried in. -/
def status : String := "grpc-status"

/-- A name is no number. -/
theorem unparsed_of_mem_codes :
    ∀ name ∈ codes, Text.parseUnsigned 8 name = none := by
  decide

/-- A code is read back as itself, whether it is written by its number or, where
it has one, by its name. -/
theorem code_reads :
    (∀ number < 256, code (toString number) = number) ∧
      ∀ name number, codes[number]? = some name → code name = number := by
  constructor
  · intro number small
    have parsed : Text.parseUnsigned 8 (toString number) = some number :=
      Text.parseUnsigned_toString small
    have unnamed : codes.idxOf? (toString number) = none := by
      rw [List.idxOf?_eq_none_iff]
      intro member
      rw [unparsed_of_mem_codes _ member] at parsed
      cases parsed
    rw [code, unnamed, parsed]
    rfl
  · intro name number named
    have within : number < codes.length := (List.getElem?_eq_some_iff.mp named).1
    have all : ∀ number < codes.length,
        codes[number]?.map code = some number := by decide
    have reads := all number within
    rw [named] at reads
    exact Option.some.inj reads

/-! ## A call over HTTP/2 -/

section Call

open Http (Request Response)
open Http2

theorem body_of_requestOf
    {codec : Percent}
    {fields : List Hpack.Field}
    {body : List UInt8}
    {request : Request}
    (reads : Message.requestOf codec fields body = .ok request) :
    request.body = body := by
  cases heads : fields.foldlM Message.Head.add Message.Head.empty with
  | error violation =>
      rw [Message.requestOf, heads] at reads
      cases reads
  | ok head =>
      rw [Message.requestOf, heads] at reads
      simp only [bind, Except.bind] at reads
      split at reads
      · split at reads
        · split at reads
          · cases reads
          · cases reads
            rfl
        · cases reads
          rfl
      · cases reads

theorem body_of_responseOf
    {fields trailers : List Hpack.Field}
    {body : List UInt8}
    {response : Response}
    (reads : Message.responseOf fields body trailers = .ok response) :
    response.body = body ∧ response.trailers = trailers := by
  rw [Message.responseOf] at reads
  split at reads
  · cases reads
  · cases reads
    exact ⟨rfl, rfl⟩

theorem body_replying (response : Response) :
    (Held.of (Server.replying response).items).body = response.body := by
  simp only [Server.replying, Outgoing.items, Outgoing.trailing, Held.of,
    List.foldl_cons, Held.take, Held.nothing]
  by_cases empty : response.body = [] <;>
    by_cases none : Message.carried response.trailers = [] <;>
      by_cases informs : Stream.informational
        (Message.responseFields response) = true <;>
        by_cases plain : Stream.informational
          (Message.carried response.trailers) = true <;>
          simp [empty, none, informs, plain, Held.take]

/-- A field of an answer's trailers that names no connection goes out with
them. -/
theorem status_carried
    {trailers : List Pair}
    {value : String}
    (member : (status, value) ∈ trailers) :
    (status, value) ∈ Message.carried trailers := by
  refine List.mem_filter.mpr ⟨List.mem_map.mpr ⟨_, member, ?_⟩, ?_⟩
  · have same : Text.lowercase status = status := by decide
    rw [same]
  · have free : status ∉ Message.connectionSpecific ∧ status ≠ "te" := by decide
    exact decide_eq_true ⟨free.1, Or.inl free.2⟩

/-- A call over two ends that talk to each other: the message the server reads of
the request it was given is the one the client framed, the message the client
reads of the answer is the one the server framed, and so is the code of the
status, unless the answer's fields or its trailers are taken for an informational
head. -/
theorem call_agrees
    {codec : Percent}
    {client : Client}
    {asks : List Client.Ask}
    {server : Server}
    {calls : List Server.Ask}
    (conversation : Conversation codec client asks server calls)
    {earlier later : List Client.Ask}
    {request : Request}
    (split : asks = earlier ++ .send request :: later)
    {message : List UInt8}
    (framed : frame message = .ok request.body)
    {answer : Response}
    (answers : (Client.send codec request
      (Client.run codec client earlier)).1 = .ok answer) :
    ∃ before response after given,
      calls = before ++
        .respond (Client.run codec client earlier).next response :: after ∧
      ((Client.run codec client earlier).next, given) ∈
        (Server.run codec server before).1 ∧
      unframe given.body = .ok (message, false) ∧
      (∀ reply, frame reply = .ok response.body →
        unframe answer.body = .ok (reply, false)) ∧
      (Stream.informational (Message.responseFields response) = false →
        Stream.informational (Message.carried response.trailers) = false →
          ∀ number < 256, (status, toString number) ∈ response.trailers →
            ∃ value, (status, value) ∈ answer.trailers ∧
              code value = number) := by
  obtain ⟨before, response, after, given, called, _, gives, asked, head, headed,
    reads⟩ := conversation.traced split answers
  have whole {sent body : List UInt8} (frames : frame sent = .ok body) :
      unframe body = .ok (sent, false) := by
    have reads := unframe_append frames []
    rwa [List.append_nil] at reads
  refine ⟨before, response, after, given, called, gives, ?_, ?_, ?_⟩
  · rw [body_of_requestOf asked]
    exact whole framed
  · intro reply frames
    rw [(body_of_responseOf reads).1, body_replying]
    exact whole frames
  · intro final plain number small member
    have trailers := (body_of_responseOf reads).2
    rw [Server.held_replying response final plain] at trailers
    refine ⟨toString number, ?_, code_reads.1 number small⟩
    rw [trailers]
    exact status_carried member

/-- A request whose body is one message of two octets. -/
def plainCall : Request where
  method := "POST"
  path := "/"
  query := []
  headers := []
  body := [0, 0, 0, 0, 2, 1, 2]

/-- An answer of one message. -/
def plainReply : Response where
  status := 200
  reason := "OK"
  headers := []
  body := [0, 0, 0, 0, 1, 7]
  trailers := []

/-- A server that reads the call and answers it. -/
def replyingCalls : List Server.Ask :=
  [.readFrame, .readFrame, .readFrame, .finished, .respond 1 plainReply]

theorem meets_plainCall :
    meets plainCall replyingCalls
      ([false] ++ List.replicate 5 true ++ List.replicate 7 false ++
        List.replicate 5 true) = true := by
  decide +kernel

/-- The client's message is read by the server. -/
theorem call_agrees_called :
    ∃ client server answer, Conversation .bare client [.send plainCall] server
        replyingCalls ∧
      (Client.send .bare plainCall client).1 = .ok answer ∧
      ∃ given, (client.next, given) ∈
          (Server.run .bare server replyingCalls).1 ∧
        unframe given.body = .ok ([1, 2], false) := by
  obtain ⟨client, server, answer, conversation, _, answers⟩ :=
    conversation_of_meets meets_plainCall
  have split : [Client.Ask.send plainCall] = [] ++ .send plainCall :: [] := rfl
  have framed : frame [1, 2] = .ok plainCall.body := rfl
  obtain ⟨before, response, after, given, called, gives, reads, _⟩ :=
    call_agrees conversation split framed answers
  refine ⟨client, server, answer, conversation, answers, given, ?_, reads⟩
  rw [called, Server.run_append]
  exact List.mem_append_left _ gives

end Call

end Grpc
end XmipNet

import XmipNet.Http.Kept
import XmipNet.Http.Received

/-!
# Answers read and written again

An answer that was read is written with the fields it came with, those of its
framing included. Where it came in chunks and has no trailer, it goes out with
its length and the coding it came in, and its body is no longer in chunks.
-/

namespace XmipNet
namespace Http

open Fallible (Reads Refuses)
open Head (fieldLine lineOctets Plain header)
open Read (maxLine)

/-- An answer that is read back when it is written again: its status takes three
digits, it did not come in chunks without a trailer, and each of its lines, with
a space after its colon and its ending, is within the longest. -/
structure Rewritable (answer : Response) : Prop where
  status : 100 ≤ answer.status
  uncoded : bodiless answer.status = false → answer.trailers = [] →
    find answer.headers "transfer-encoding" = none
  first : (Text.octets (responseMessage answer).first).length + 2 ≤ maxLine
  headers : ∀ field ∈ answer.headers,
    (Text.octets (fieldLine field)).length + 2 ≤ maxLine
  trailers : ∀ field ∈ answer.trailers,
    (Text.octets (fieldLine field)).length + 2 ≤ maxLine

/-- The octets are read as an answer of the same status, body and trailers. -/
def ReadAs (answer : Response) (octets : List UInt8) : Prop :=
  ∃ again left, Reads readResponse octets again left ∧
    again.status = answer.status ∧ again.body = answer.body ∧
      again.trailers = answer.trailers

/-- A rewritable answer is read back. -/
theorem readAs_of_rewritable
    {answer : Response}
    (received : Received answer)
    (few : answer.headers.length ≤ 190)
    (rewritable : Rewritable answer) :
    ReadAs answer answer.octets := by
  have legible : (responseMessage answer).Legible :=
    { first := whole_statusLine (Response.oneLine_phrase received.reason)
        rewritable.first
      headers := fun field member =>
        ⟨received.headers field member, rewritable.headers field member⟩
      few := Message.length_lines_le (Nat.le_trans few (by decide)) }
  have framed : bodiless answer.status = false →
      (responseMessage answer).Framed := fun carries =>
    { coded := fun value found => by
        refine ⟨fun plain => ?_, received.coded carries value found⟩
        have none := rewritable.uncoded carries plain
        have same : find answer.headers "transfer-encoding" = some value :=
          found
        rw [none] at same
        cases same
      measured := fun plain =>
        (received.uncoded carries (rewritable.uncoded carries plain)).2
      small := received.small
      trailers := fun field member =>
        ⟨received.trailers field member, rewritable.trailers field member⟩
      fewTrailers := received.fewTrailers }
  have reads := Response.reads_of_framed ⟨rewritable.status, received.status⟩
    legible received.small framed received.bare []
  rw [List.append_nil] at reads
  exact ⟨answer.readBack, [], reads, rfl, rfl, rfl⟩

/-- A status below 100 is not read of the line it is written in. -/
theorem statusLine_of_small
    {status : Nat}
    (small : status < 100)
    (phrase : String) :
    statusLine ("HTTP/1.1 " ++ toString status ++ " " ++ phrase) = none := by
  have space : ' ' ∉ (toString status).toList := fun member =>
    absurd (Text.isDigit_of_mem_toString member) (by decide)
  have digits : (Text.octets (toString status)).length ≠ 3 := fun three => by
    have bounds := (Text.length_octets_toString_eq_three_iff status).mp three
    omega
  have version : ' ' ∉ "1".toList := by decide
  rw [statusLine_eq, statusLine, Text.stripPrefix_append, Option.bind_some,
    Text.splitOnce_append version, Option.bind_some]
  simp only [Text.splitOnce_append space, Option.getD_some]
  rw [if_neg digits]

/-- The lines an answer that was read is written in are not blank and one line
each. -/
theorem Received.lines
    {answer : Response}
    (received : Received answer) :
    ∀ line ∈ (responseMessage answer).lines,
      line ≠ "" ∧ '\n' ∉ line.toList := by
  rw [Message.lines, Response.first_eq]
  refine List.forall_mem_cons.mpr ⟨⟨statusLine_ne_empty _ _,
    oneLine_statusLine (Response.oneLine_phrase received.reason) _⟩, ?_⟩
  intro line member
  obtain ⟨field, present, rfl⟩ := List.mem_map.mp member
  have plain : Plain field := by
    rcases List.mem_append.mp present with own | added
    · exact received.headers field own
    · exact (Message.writable_framing received.small added).plain
  exact ⟨Head.fieldLine_ne_empty field, Head.oneLine_fieldLine plain⟩

/-- An answer that is read back had its head read as it was written. -/
theorem legible_of_reads
    {answer again : Response}
    {left : List UInt8}
    (received : Received answer)
    (few : answer.headers.length ≤ 190)
    (reads : Reads readResponse answer.octets again left) :
    (responseMessage answer).Legible ∧
      Reads (answerAfter (responseMessage answer).lines)
        (responseMessage answer).content again left := by
  have room : (responseMessage answer).lines.length ≤ Head.maxHeaders :=
    Message.length_lines_le (Nat.le_trans few (by decide))
  rw [readResponse_eq, Head.decided_readHead.reads_bind_iff
    decided_answerAfter] at reads
  obtain ⟨head, middle, first, second⟩ := reads
  have whole := Head.fits_of_readHeadFrom received.lines room first
  have legible : (responseMessage answer).Legible :=
    { first := whole _ List.mem_cons_self
      headers := fun field member => ⟨received.headers field member,
        (whole _ (List.mem_cons_of_mem _ (List.mem_map_of_mem
          (List.mem_append_left _ member)))).fits⟩
      few := room }
  have same := legible.readHead received.small []
  rw [List.append_nil, List.append_nil] at same
  obtain ⟨rfl, rfl⟩ := first.unique same
  exact ⟨legible, second⟩

/-- A message without a trailer whose head names a coding is not read as its
body. -/
theorem uncoded_of_reads
    {message : Message}
    (legible : message.Legible)
    (small : message.body.length ≤ maxBody)
    (carries : message.bodiless = false)
    (plain : message.trailers = [])
    {toEnd : Bool}
    {result : List UInt8 × List String}
    {left : List UInt8}
    (reads : Reads (Body.read message.lines toEnd) message.content result left)
    (same : result.1 = message.body) :
    find message.headers "transfer-encoding" = none := by
  cases found : find message.headers "transfer-encoding" with
  | none => rfl
  | some value =>
      have names : header message.lines "transfer-encoding" = some value := by
        rw [legible.header small, found]
        rfl
      rw [Message.content_of_plain carries plain] at reads
      rcases Body.of_read reads with ⟨_, _, _, unchunks⟩ | ⟨uncoded, _⟩
      · obtain ⟨_, shorter, _⟩ := Body.of_unchunkFrom unchunks (Nat.zero_le _)
        rw [same, List.length_nil, Nat.zero_add] at shorter
        exact absurd shorter (Nat.lt_irrefl _)
      · rw [names] at uncoded
        cases uncoded

/-- A trailer that is read has no line over the longest. -/
theorem fits_of_reads
    {message : Message}
    (legible : message.Legible)
    (small : message.body.length ≤ maxBody)
    (carries : message.bodiless = false)
    (plain : ∀ field ∈ message.trailers, Plain field)
    (few : message.trailers.length ≤ Head.maxHeaders)
    {toEnd : Bool}
    {result : List UInt8 × List String}
    {left : List UInt8}
    (reads : Reads (Body.read message.lines toEnd) message.content result
      left) :
    ∀ field ∈ message.trailers,
      (Text.octets (fieldLine field)).length + 2 ≤ maxLine := by
  by_cases none : message.trailers = []
  · rw [none]
    exact List.forall_mem_nil _
  · rw [Message.content_of_trailers carries none] at reads
    rcases Body.of_read reads with ⟨_, _, _, unchunks⟩ | ⟨uncoded, _⟩
    · have room : (message.trailers.map fieldLine).length ≤
          Head.maxHeaders := by
        rwa [List.length_map]
      have each : ∀ line ∈ message.trailers.map fieldLine,
          line ≠ "" ∧ '\n' ∉ line.toList := by
        intro line member
        obtain ⟨field, present, rfl⟩ := List.mem_map.mp member
        exact ⟨Head.fieldLine_ne_empty field,
          Head.oneLine_fieldLine (plain field present)⟩
      rcases Head.decided_readHead
          ((message.trailers.map fieldLine).flatMap lineOctets ++ [13, 10]) with
        ⟨lines, rest, head⟩ | stops
      · have whole := Head.fits_of_readHeadFrom each room head
        exact fun field member => (whole _ (List.mem_map_of_mem member)).fits
      · have refuses := (Body.unchunk_oneChunk small _).2
          ((Body.unchunkFrom_last Body.sized_zero message.body _).2 stops)
        exact absurd refuses unchunks.not_refuses
    · rw [legible.header small, Option.or_eq_none_iff,
        Message.find_framing_of_trailers carries none] at uncoded
      cases uncoded.2

/-- An answer that is read back is rewritable. -/
theorem rewritable_of_readAs
    {answer : Response}
    (received : Received answer)
    (few : answer.headers.length ≤ 190)
    (readAs : ReadAs answer answer.octets) :
    Rewritable answer := by
  obtain ⟨again, left, reads, _, sameBody, _⟩ := readAs
  obtain ⟨legible, after⟩ := legible_of_reads received few reads
  have three : 100 ≤ answer.status := by
    rcases Nat.lt_or_ge answer.status 100 with small | three
    · rw [Message.lines, Response.first_eq,
        answerAfter_of_not_statusLine (statusLine_of_small small _)] at after
      exact absurd (Fallible.refuses_fail _ _) after.not_refuses
    · exact three
  rw [Message.lines, Response.first_eq,
    answerAfter_of_statusLine (statusLine_written ⟨three, received.status⟩ _),
    (decided_answerBody _ _).reads_bind_iff
      fun _ => Fallible.decided_pure _] at after
  obtain ⟨result, _, body, ends⟩ := after
  obtain ⟨rfl, _⟩ := ends.unique (Fallible.reads_pure _ _)
  rw [answerBody] at body
  refine ⟨three, ?_, legible.first.fits,
    fun field member => (legible.headers field member).fits, ?_⟩
  · intro carries plain
    rw [carries, if_neg (by decide)] at body
    exact uncoded_of_reads legible received.small carries plain body sameBody
  · cases carries : bodiless answer.status with
    | true =>
        rw [(received.bare carries).2]
        exact List.forall_mem_nil _
    | false =>
        rw [carries, if_neg (by decide)] at body
        exact fits_of_reads legible received.small carries received.trailers
          received.fewTrailers body

/-- An answer that was read and is written again is read as the same answer
exactly where it is rewritable. -/
theorem readAs_iff_rewritable
    {bytes rest : List UInt8}
    {answer : Response}
    (reads : Reads readResponse bytes answer rest)
    (few : answer.headers.length ≤ 190)
    {wire after : Wire}
    (writes : writeResponse answer wire = (.ok (), after)) :
    ∃ octets, after.written = wire.written ++ octets ∧
      (ReadAs answer octets ↔ Rewritable answer) := by
  have received := received_of_reads reads
  refine ⟨answer.octets, written_of_writeResponse writes, ?_, ?_⟩
  · exact rewritable_of_readAs received few
  · exact readAs_of_rewritable received few

/-- An answer that came in chunks goes out with its length and its coding, and
is not read back. -/
theorem not_readAs_chunked :
    Reads readResponse chunked.final.octets chunked.final.response [] ∧
      chunked.final.response.headers.length ≤ 190 ∧
      ∃ after octets,
        writeResponse chunked.final.response silent = (.ok (), after) ∧
        after.written = silent.written ++ octets ∧
          ¬ReadAs chunked.final.response octets := by
  have reads := served_chunked.final.reads []
  rw [List.append_nil] at reads
  have few : chunked.final.response.headers.length ≤ 190 := by decide
  refine ⟨reads, few, _, chunked.final.response.octets, rfl,
    written_of_writeResponse rfl, fun readAs => ?_⟩
  have rewritable := rewritable_of_readAs (received_of_reads reads) few readAs
  exact absurd (rewritable.uncoded (by decide) rfl) (by decide)

theorem readAs_iff_rewritable_trailing :
    ∃ octets, (writeResponse trailing.readBack silent).2.written =
        silent.written ++ octets ∧
      (ReadAs trailing.readBack octets ↔ Rewritable trailing.readBack) :=
  readAs_iff_rewritable (readable_trailing.reads []) (by decide) rfl

end Http
end XmipNet

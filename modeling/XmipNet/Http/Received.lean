import XmipNet.Http.Exchange
import XmipNet.Http.Legible

/-!
# Answers that were read

Whatever octets an answer was read from, its fields are plain, its body is
within the largest, and its headers say how the body came: in chunks where they
name a coding, by its length where they state one.
-/

namespace XmipNet
namespace Http

open Fallible (Reads Refuses)
open Head (Plain header readHead)
open Read (line)

/-! ## Taking a reading apart -/

theorem of_readExact
    {needed : Nat}
    {bytes taken rest : List UInt8}
    (reads : Reads (Reader.readExact needed) bytes taken rest) :
    needed ≤ bytes.length ∧ taken = bytes.take needed ∧
      rest = bytes.drop needed := by
  rcases Nat.lt_or_ge bytes.length needed with short | enough
  · exact absurd (Reader.readExact_refuses short) reads.not_refuses
  · exact ⟨enough, reads.unique (Reader.readExact_reads enough)⟩

theorem decided_exactly (needed : Nat) (doing : String) :
    Fallible.Decided
      (Fallible.mapError (NetError.fromIo doing) (Reader.readExact needed)) :=
  (Reader.decided_readExact needed).mapError _

theorem of_exactly
    {needed : Nat}
    {doing : String}
    {bytes taken rest : List UInt8}
    (reads : Reads
      (Fallible.mapError (NetError.fromIo doing) (Reader.readExact needed)) bytes
      taken rest) :
    needed ≤ bytes.length ∧ taken = bytes.take needed ∧
      rest = bytes.drop needed := by
  rcases Reader.decided_readExact needed bytes with ⟨other, left, goes⟩ | refuses
  · obtain ⟨rfl, rfl⟩ := reads.unique (goes.mapError _)
    exact of_readExact goes
  · exact absurd (refuses.mapError _) reads.not_refuses

/-- What is lifted is what it is. -/
theorem of_lift
    {α : Type}
    {outcome : Except NetError α}
    {bytes rest : List UInt8}
    {value : α}
    (reads : Reads (Fallible.lift outcome : Reading NetError α) bytes value
      rest) :
    outcome = .ok value ∧ rest = bytes := by
  cases outcome with
  | error failure =>
      exact absurd (Fallible.refuses_lift failure bytes) reads.not_refuses
  | ok given =>
      obtain ⟨rfl, rfl⟩ := reads.unique (Fallible.reads_lift given bytes)
      exact ⟨rfl, rfl⟩

namespace Body

/-- A chunk that was read came after its line and before its ending. -/
theorem of_sized
    {length size : Nat}
    {bytes rest : List UInt8}
    {turn : Option (List UInt8)}
    (reads : Reads (sized length size) bytes turn rest) :
    ∃ piece, turn = some piece ∧ length + size ≤ maxBody ∧
      piece.length = size ∧ rest.length + size + 2 = bytes.length := by
  rw [sized, (Fallible.decided_lift _).reads_bind_iff fun _ =>
    (decided_exactly _ _).bind fun _ => (decided_exactly _ _).bind fun _ => by
      split
      · exact Fallible.decided_pure _
      · exact Fallible.decided_fail _] at reads
  obtain ⟨_, _, first, reads⟩ := reads
  obtain ⟨fits, rfl⟩ := of_lift first
  rw [(decided_exactly _ _).reads_bind_iff fun _ =>
    (decided_exactly _ _).bind fun _ => by
      split
      · exact Fallible.decided_pure _
      · exact Fallible.decided_fail _] at reads
  obtain ⟨taken, _, second, reads⟩ := reads
  obtain ⟨enough, rfl, rfl⟩ := of_exactly second
  rw [(decided_exactly _ _).reads_bind_iff fun _ => by
      split
      · exact Fallible.decided_pure _
      · exact Fallible.decided_fail _] at reads
  obtain ⟨ending, _, third, reads⟩ := reads
  obtain ⟨two, rfl, rfl⟩ := of_exactly third
  split at reads
  · obtain ⟨rfl, rfl⟩ := reads.unique (Fallible.reads_pure _ _)
    rw [List.length_drop] at two
    refine ⟨_, rfl, Read.le_of_within fits, List.length_take_of_le enough, ?_⟩
    rw [List.length_drop, List.length_drop]
    omega
  · exact absurd (Fallible.refuses_fail _ _) reads.not_refuses

/-- A turn over a chunked body takes its line and what the line states. -/
theorem of_chunk
    {length : Nat}
    {bytes rest : List UInt8}
    {turn : Option (List UInt8)}
    (reads : Reads (chunk length) bytes turn rest) :
    rest.length < bytes.length ∧ ∀ piece, turn = some piece →
      0 < piece.length ∧ length + piece.length ≤ maxBody ∧
        rest.length + piece.length < bytes.length := by
  obtain ⟨read, middle, first, second⟩ :=
    (Read.decided_line.reads_bind_iff (decided_chunkAfter length)).mp reads
  cases read with
  | none => exact absurd (Fallible.refuses_fail _ _) second.not_refuses
  | some text =>
      have shorter := Read.length_lt_of_line first
      cases states : chunkSize text with
      | none =>
          rw [chunkAfter_of_broken states] at second
          exact absurd (Fallible.refuses_fail _ _) second.not_refuses
      | some size =>
          rw [chunkAfter_of_size states] at second
          by_cases last : size = 0
          · rw [if_pos last] at second
            obtain ⟨rfl, rfl⟩ := second.unique (Fallible.reads_pure _ _)
            exact ⟨shorter, fun _ none => by cases none⟩
          · rw [if_neg last] at second
            obtain ⟨piece, rfl, fits, rfl, left⟩ := of_sized second
            refine ⟨by omega, ?_⟩
            rintro _ ⟨⟩
            exact ⟨Nat.pos_of_ne_zero last, fits, by omega⟩

/-- A chunked body that was read is within the largest and shorter than what it
was read from, and its trailer is one of a head. -/
theorem of_unchunkFrom
    {whole : List UInt8}
    {bytes rest : List UInt8}
    {result : List UInt8 × List String}
    (reads : Reads (unchunkFrom whole : Reading NetError _) bytes result rest)
    (fits : whole.length ≤ maxBody) :
    result.1.length ≤ maxBody ∧
      result.1.length < whole.length + bytes.length ∧
      result.2.length ≤ Head.maxHeaders ∧
      ∀ text ∈ result.2, '\n' ∉ text.toList := by
  generalize room : maxBody - whole.length = left
  induction left using Nat.strongRecOn generalizing whole bytes with
  | ind left inductionHypothesis =>
      rw [unchunkFrom_eq, (decided_chunk whole.length).reads_bind_iff
        (decided_afterChunk whole)] at reads
      obtain ⟨turn, middle, first, second⟩ := reads
      obtain ⟨shorter, each⟩ := of_chunk first
      cases turn with
      | none =>
          rw [afterChunk, Head.decided_readHead.reads_bind_iff
            fun _ => Fallible.decided_pure _] at second
          obtain ⟨trailer, _, head, ends⟩ := second
          obtain ⟨rfl, rfl⟩ := ends.unique (Fallible.reads_pure _ _)
          obtain ⟨few, lines⟩ := Head.of_readHead head
          have some' : 0 < bytes.length := by omega
          exact ⟨fits, Nat.lt_add_of_pos_right some', few,
            fun text member => (lines text member).2⟩
      | some piece =>
          obtain ⟨positive, small, less⟩ := each piece rfl
          have grown : (whole ++ piece).length =
              whole.length + piece.length := List.length_append
          obtain ⟨bounded, strictly, trailer⟩ :=
            inductionHypothesis (maxBody - (whole ++ piece).length) (by omega)
              second (by omega) rfl
          exact ⟨bounded, by omega, trailer⟩

/-- How a body was read: in chunks where the head names a coding, by the length
it states where it names none, and to the end or not at all where it states
none. -/
theorem of_read
    {head : List String}
    {toEnd : Bool}
    {bytes rest : List UInt8}
    {result : List UInt8 × List String}
    (reads : Reads (read head toEnd) bytes result rest) :
    (∃ value, header head "transfer-encoding" = some value ∧
      Text.lowercase (Text.trim value) = "chunked" ∧
        Reads unchunk bytes result rest) ∨
    (header head "transfer-encoding" = none ∧ result.2 = [] ∧
      result.1.length ≤ maxBody ∧
        (∀ value, header head "content-length" = some value →
          contentLength value = some result.1.length) ∧
        bytes = result.1 ++ rest ∧
        (header head "content-length" = none → toEnd = false →
          result.1 = [])) := by
  rw [read] at reads
  cases coded : header head "transfer-encoding" with
  | some value =>
      rw [coded] at reads
      by_cases chunked : Text.lowercase (Text.trim value) = "chunked"
      · simp only [if_pos chunked] at reads
        exact Or.inl ⟨value, rfl, chunked, reads⟩
      · simp only [if_neg chunked] at reads
        exact absurd (Fallible.refuses_fail _ _) reads.not_refuses
  | none =>
      rw [coded] at reads
      refine Or.inr ⟨rfl, ?_⟩
      cases states : header head "content-length" with
      | some value =>
          rw [states] at reads
          cases measured : contentLength value with
          | none =>
              simp only [measured] at reads
              exact absurd (Fallible.refuses_fail _ _) reads.not_refuses
          | some length =>
              simp only [measured] at reads
              rw [(Fallible.decided_lift _).reads_bind_iff fun _ =>
                (decided_exactly _ _).bind fun _ =>
                  Fallible.decided_pure _] at reads
              obtain ⟨_, _, first, reads⟩ := reads
              obtain ⟨fits, rfl⟩ := of_lift first
              rw [(decided_exactly _ _).reads_bind_iff fun _ =>
                Fallible.decided_pure _] at reads
              obtain ⟨taken, _, second, reads⟩ := reads
              obtain ⟨enough, rfl, rfl⟩ := of_exactly second
              obtain ⟨rfl, rfl⟩ := reads.unique (Fallible.reads_pure _ _)
              have length' := List.length_take_of_le enough
              refine ⟨rfl, ?_, ?_, (List.take_append_drop _ _).symm,
                fun none _ => by cases none⟩
              · rw [length']
                exact Read.le_of_within fits
              · rintro _ ⟨⟩
                rw [measured, length']
      | none =>
          rw [states] at reads
          cases toEnd with
          | true =>
              have goes := ((Read.decided_toEnd maxBody).reads_bind_iff fun _ =>
                Fallible.decided_pure _).mp reads
              obtain ⟨taken, _, all, reads⟩ := goes
              obtain ⟨rfl, rfl⟩ := reads.unique (Fallible.reads_pure _ _)
              rcases Nat.lt_or_ge maxBody bytes.length with exceeds | fits
              · exact absurd (Read.toEnd_refuses exceeds) all.not_refuses
              · obtain ⟨rfl, rfl⟩ := all.unique (Read.toEnd_reads fits)
                exact ⟨rfl, fits, (fun _ none => by cases none),
                  (List.append_nil _).symm, fun _ ends => by cases ends⟩
          | false =>
              obtain ⟨rfl, rfl⟩ := reads.unique (Fallible.reads_pure _ _)
              exact ⟨rfl, Nat.zero_le _, (fun _ none => by cases none), rfl,
                fun _ _ => rfl⟩

end Body
/-- An answer as it may be read. -/
structure Received (answer : Response) : Prop where
  status : answer.status ≤ 999
  reason : '\n' ∉ answer.reason.toList
  headers : ∀ field ∈ answer.headers, Plain field
  trailers : ∀ field ∈ answer.trailers, Plain field
  fewTrailers : answer.trailers.length ≤ Head.maxHeaders
  small : answer.body.length ≤ maxBody
  bare : bodiless answer.status = true →
    answer.body = [] ∧ answer.trailers = []
  coded : bodiless answer.status = false →
    ∀ value, find answer.headers "transfer-encoding" = some value →
      Text.lowercase (Text.trim value) = "chunked"
  uncoded : bodiless answer.status = false →
    find answer.headers "transfer-encoding" = none →
      answer.trailers = [] ∧
        ∀ value, find answer.headers "content-length" = some value →
          Body.contentLength value = some answer.body.length

theorem decimal_lt
    {digits : List Char}
    (digit : ∀ character ∈ digits, character.isDigit = true) :
    Text.decimal digits < 10 ^ digits.length := by
  have grows : ∀ (rest : List Char) (value : Nat),
      (∀ character ∈ rest, character.isDigit = true) →
        rest.foldl (fun value digit => value * 10 + (digit.toNat - 48)) value <
          (value + 1) * 10 ^ rest.length := by
    intro rest
    induction rest with
    | nil =>
        intro value _
        rw [List.foldl_nil, List.length_nil, Nat.pow_zero, Nat.mul_one]
        exact Nat.lt_succ_self value
    | cons character rest inductionHypothesis =>
        intro value each
        obtain ⟨first, others⟩ := List.forall_mem_cons.mp each
        have bounds := (Text.isDigit_iff character).mp first
        have less : value * 10 + (character.toNat - 48) + 1 ≤
            (value + 1) * 10 := by
          omega
        rw [List.foldl_cons, List.length_cons, Nat.pow_succ', ← Nat.mul_assoc]
        exact Nat.lt_of_lt_of_le (inductionHypothesis _ others)
          (Nat.mul_le_mul_right _ less)
  have bound := grows digits 0 digit
  rwa [Nat.zero_add, Nat.one_mul] at bound

theorem parseUnsigned_lt
    {bits number : Nat}
    {code : String}
    (reads : Text.parseUnsigned bits code = some number) :
    number < 10 ^ (Text.octets code).length := by
  have bound : ∀ digits : List Char, ∀ before : List Char,
      code.toList = before ++ digits →
      (∀ character ∈ before, character.toNat < 128) →
      digits.all Char.isDigit = true →
        Text.decimal digits < 10 ^ (Text.octets code).length := by
    intro digits before split signs all
    have digit := List.all_eq_true.mp all
    have ascii : ∀ character ∈ code.toList, character.toNat < 128 := by
      rw [split]
      intro character member
      rcases List.mem_append.mp member with sign | spelled
      · exact signs character sign
      · exact Text.ascii_of_isDigit (digit character spelled)
    rw [Text.octets_eq, Utf8.length_encode_of_ascii ascii, split,
      List.length_append]
    exact Nat.lt_of_lt_of_le (decimal_lt digit)
      (Nat.pow_le_pow_right (by decide) (Nat.le_add_left _ _))
  simp only [Text.parseUnsigned] at reads
  split at reads
  next rest plus =>
    split at reads
    next holds =>
      obtain rfl := Option.some.inj reads
      refine bound rest ['+'] plus ?_ holds.2.1
      exact List.forall_mem_singleton.mpr (by decide)
    · cases reads
  next =>
    split at reads
    next holds =>
      obtain rfl := Option.some.inj reads
      exact bound code.toList [] rfl (List.forall_mem_nil _) holds.2.1
    · cases reads

theorem mem_of_splitOnce
    {text first second : String}
    {character : Char}
    (splits : Text.splitOnce text character = some (first, second)) :
    (∀ other ∈ first.toList, other ∈ text.toList) ∧
      ∀ other ∈ second.toList, other ∈ text.toList := by
  rw [Text.splitOnce] at splits
  split at splits
  · simp only [Option.some.injEq, Prod.mk.injEq] at splits
    obtain ⟨rfl, rfl⟩ := splits
    rw [String.toList_ofList, String.toList_ofList]
    exact ⟨fun other member => (List.takeWhile_prefix _).subset member,
      fun other member => (List.dropWhile_suffix _).subset
        (List.mem_of_mem_drop member)⟩
  · cases splits

/-- A status that is read takes three octets, so it is below 1000, and its
phrase is of its line. -/
theorem of_statusLine
    {line phrase : String}
    {status : Nat}
    (reads : statusLine line = some (status, phrase))
    (oneLine : '\n' ∉ line.toList) :
    status ≤ 999 ∧ '\n' ∉ phrase.toList := by
  obtain ⟨rest, strips, reads⟩ := Option.bind_eq_some_iff.mp reads
  obtain ⟨⟨version, words⟩, splits, reads⟩ := Option.bind_eq_some_iff.mp reads
  have inRest : ∀ other ∈ rest.toList, other ∈ line.toList := by
    rw [Text.stripPrefix] at strips
    split at strips
    · obtain rfl := Option.some.inj strips
      rw [String.toList_ofList]
      exact fun other member => List.mem_of_mem_drop member
    · cases strips
  have inWords : ∀ other ∈ words.toList, other ∈ line.toList :=
    fun other member => inRest other ((mem_of_splitOnce splits).2 other member)
  have parsed : ∀ code rest : String,
      (if (Text.octets code).length = 3 then
        (Text.parseUnsigned 16 code).map fun status => (status, rest)
      else
        none) = some (status, phrase) → status ≤ 999 ∧ phrase = rest := by
    intro code rest given
    split at given
    next three =>
      obtain ⟨number, parses, same⟩ := Option.map_eq_some_iff.mp given
      obtain ⟨rfl, rfl⟩ := Prod.mk.inj same
      have bound := parseUnsigned_lt parses
      rw [three] at bound
      exact ⟨Nat.le_of_lt_succ bound, rfl⟩
    · cases given
  cases once : Text.splitOnce words ' ' with
  | none =>
      simp only [once, Option.getD_none] at reads
      obtain ⟨small, rfl⟩ := parsed words "" reads
      exact ⟨small, List.not_mem_nil⟩
  | some pair =>
      simp only [once, Option.getD_some] at reads
      obtain ⟨small, rfl⟩ := parsed pair.1 pair.2 reads
      exact ⟨small, fun member => oneLine
        (inWords '\n' ((mem_of_splitOnce once).2 '\n' member))⟩

/-- Whatever octets an answer was read from, it is one that may be read. -/
theorem received_of_reads
    {bytes rest : List UInt8}
    {answer : Response}
    (reads : Reads readResponse bytes answer rest) :
    Received answer := by
  rw [readResponse_eq, Head.decided_readHead.reads_bind_iff
    decided_answerAfter] at reads
  obtain ⟨head, middle, first, second⟩ := reads
  obtain ⟨_, lines⟩ := Head.of_readHead first
  cases head with
  | nil => exact absurd (Fallible.refuses_fail _ _) second.not_refuses
  | cons line others =>
      have oneLine := (lines line List.mem_cons_self).2
      have oneLines : ∀ text ∈ others, '\n' ∉ text.toList := fun text member =>
        (lines text (List.mem_cons_of_mem _ member)).2
      have plain : ∀ field ∈ Head.fields others, Plain field :=
        fun field member => Head.plain_of_mem_fields oneLines member
      have looks : ∀ name, header (line :: others) name =
          find (Head.fields others) name := fun name =>
        Head.header_eq_find (line :: others) name
      cases states : statusLine line with
      | none =>
          rw [answerAfter_of_not_statusLine states] at second
          exact absurd (Fallible.refuses_fail _ _) second.not_refuses
      | some status =>
          obtain ⟨small, inPhrase⟩ := of_statusLine states oneLine
          rw [answerAfter_of_statusLine states,
            (decided_answerBody _ _).reads_bind_iff fun _ =>
              Fallible.decided_pure _] at second
          obtain ⟨result, _, body, ends⟩ := second
          obtain ⟨rfl, _⟩ := ends.unique (Fallible.reads_pure _ _)
          rw [answerBody] at body
          cases none : bodiless status.1 with
          | true =>
              rw [none, if_pos rfl] at body
              obtain ⟨rfl, _⟩ := body.unique (Fallible.reads_pure _ _)
              exact {
                status := small
                reason := inPhrase
                headers := plain
                trailers := List.forall_mem_nil _
                fewTrailers := Nat.zero_le _
                small := Nat.zero_le _
                bare := fun _ => ⟨rfl, rfl⟩
                coded := fun carries => by rw [none] at carries; cases carries
                uncoded := fun carries => by rw [none] at carries; cases carries }
          | false =>
              rw [none, if_neg (by decide)] at body
              have bare : bodiless status.1 = true → result.1 = [] ∧
                  Head.fields result.2 = [] := fun holds => by
                rw [none] at holds
                cases holds
              rcases Body.of_read body with
                ⟨value, coded, chunked, unchunks⟩ |
                  ⟨uncoded, noTrailer, fits, measured, _⟩
              · obtain ⟨fits, _, few, oneLineTrailer⟩ :=
                  Body.of_unchunkFrom unchunks (Nat.zero_le _)
                rw [looks] at coded
                exact {
                  status := small
                  reason := inPhrase
                  headers := plain
                  trailers := fun field member =>
                    Head.plain_of_mem_fields oneLineTrailer member
                  fewTrailers :=
                    Nat.le_trans (Head.length_fields_le result.2) few
                  small := fits
                  bare
                  coded := fun _ other found => by
                    rw [coded] at found
                    obtain rfl := Option.some.inj found
                    exact chunked
                  uncoded := fun _ absent => by
                    rw [coded] at absent
                    cases absent }
              · rw [looks] at uncoded
                exact {
                  status := small
                  reason := inPhrase
                  headers := plain
                  trailers := by
                    rw [noTrailer]
                    exact List.forall_mem_nil _
                  fewTrailers := by
                    rw [noTrailer]
                    exact Nat.zero_le _
                  small := fits
                  bare
                  coded := fun _ other found => by
                    rw [uncoded] at found
                    cases found
                  uncoded := fun _ _ => by
                    rw [noTrailer]
                    exact ⟨rfl, fun value found =>
                      measured value ((looks _).trans found)⟩ }

end Http
end XmipNet

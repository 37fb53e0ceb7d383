import XmipNet.Http.Received

/-!
# Where a request ends

A head frames what follows it: in the chunked coding where it names one, by the
length it states where it names none. Where it says so more than once, only the
first counts, so that whoever counts another sees the request end elsewhere.
-/

namespace XmipNet
namespace Http

open Fallible (Reads Refuses)
open Head (fields header lineOctets readHead readHeadFrom)
open Read (line trimEol upTo)

/-! ## The chunked coding -/

/-- The octets of a line: `text`, and a line feed after it or a return and a
line feed. -/
structure Spans (octets : List UInt8) (text : String) : Prop where
  ends : ∃ content, 10 ∉ content ∧ octets = content ++ [10]
  holds : Text.octets text = trimEol octets

/-- The octets of lines up to a blank one, and the lines before it. -/
inductive Closing : List UInt8 → List String → Prop
  | blank
      {octets : List UInt8}
      (spans : Spans octets "") :
      Closing octets []
  | line
      {octets rest : List UInt8}
      {text : String}
      {lines : List String}
      (spans : Spans octets text)
      (nonempty : text ≠ "")
      (closing : Closing rest lines) :
      Closing (octets ++ rest) (text :: lines)

/-- The octets of a body in the chunked coding: its chunks, the last of no
octets, and the lines of its trailer. -/
inductive Coding : List UInt8 → List UInt8 → List String → Prop
  | last
      {octets tail : List UInt8}
      {text : String}
      {trailer : List String}
      (spans : Spans octets text)
      (states : Body.chunkSize text = some 0)
      (closing : Closing tail trailer) :
      Coding (octets ++ tail) [] trailer
  | chunk
      {octets piece coded body : List UInt8}
      {text : String}
      {trailer : List String}
      (spans : Spans octets text)
      (states : Body.chunkSize text = some piece.length)
      (nonempty : piece ≠ [])
      (coding : Coding coded body trailer) :
      Coding (octets ++ (piece ++ ([13, 10] ++ coded))) (piece ++ body) trailer

/-- A line is read as what it spans, and what follows it is left. -/
theorem of_line_of_spans
    {octets rest after : List UInt8}
    {text : String}
    (spans : Spans octets text)
    {read : Option String}
    (reads : Reads line (octets ++ rest) read after) :
    read = some text ∧ after = rest := by
  obtain ⟨content, absent, rfl⟩ := spans.ends
  have upTo : upTo 10 (content ++ [10] ++ rest) = content ++ [10] := by
    rw [List.append_assoc, Read.upTo_append_of_not_mem absent,
      List.singleton_append, Read.upTo_of_delimiter]
  cases read with
  | none =>
      have nothing := (Read.of_line_none reads).1
      rw [List.append_assoc] at nothing
      cases (List.append_eq_nil_iff.mp nothing).2
  | some given =>
      obtain ⟨_, split, _, spells⟩ := Read.of_line reads
      rw [upTo] at split spells
      exact ⟨congrArg some (Text.octets_injective (spells.trans
        spans.holds.symm)), List.append_cancel_left split⟩

/-- Lines up to a blank one are read as those lines. -/
theorem of_readHeadFrom_of_closing
    {octets : List UInt8}
    {lines : List String}
    (closing : Closing octets lines)
    {room : Nat}
    {earlier result : List String}
    {rest after : List UInt8}
    (reads : Reads (readHeadFrom room earlier) (octets ++ rest) result after) :
    result = earlier ++ lines ∧ after = rest := by
  induction closing generalizing room earlier with
  | blank spans =>
      rw [Head.readHeadFrom_eq, Read.decided_line.reads_bind_iff
        (Head.decided_afterLine_any room earlier)] at reads
      obtain ⟨read, middle, first, second⟩ := reads
      obtain ⟨rfl, rfl⟩ := of_line_of_spans spans first
      rw [Head.afterLine_blank] at second
      rw [List.append_nil]
      exact second.unique (Fallible.reads_pure _ _)
  | line spans nonempty closing inductionHypothesis =>
      rw [List.append_assoc, Head.readHeadFrom_eq,
        Read.decided_line.reads_bind_iff
          (Head.decided_afterLine_any room earlier)] at reads
      obtain ⟨read, middle, first, second⟩ := reads
      obtain ⟨rfl, rfl⟩ := of_line_of_spans spans first
      cases room with
      | zero =>
          rw [Head.afterLine_full nonempty] at second
          exact absurd (Fallible.refuses_fail _ _) second.not_refuses
      | succ room =>
          rw [Head.afterLine_more nonempty] at second
          obtain ⟨rfl, rfl⟩ := inductionHypothesis second
          rw [List.append_assoc, List.singleton_append]
          exact ⟨rfl, rfl⟩

/-- A chunk that comes whole is the chunk that is read. -/
theorem of_sized_of_whole
    {length : Nat}
    {piece rest after : List UInt8}
    {turn : Option (List UInt8)}
    (reads : Reads (Body.sized length piece.length)
      (piece ++ ([13, 10] ++ rest)) turn after) :
    turn = some piece ∧ after = rest := by
  obtain ⟨_, _, fits, _⟩ := Body.of_sized reads
  exact reads.unique (Body.sized_reads fits rest)

/-- A body in the chunked coding is read as that body, and what follows the
coding is left. -/
theorem of_unchunkFrom_of_coding
    {coded body : List UInt8}
    {trailer : List String}
    (coding : Coding coded body trailer)
    {whole rest after : List UInt8}
    {result : List UInt8 × List String}
    (reads : Reads (Body.unchunkFrom whole : Reading NetError _)
      (coded ++ rest) result after) :
    result = (whole ++ body, trailer) ∧ after = rest := by
  induction coding generalizing whole with
  | last spans states closing =>
      rw [Body.unchunkFrom_eq, (Body.decided_chunk whole.length).reads_bind_iff
        (Body.decided_afterChunk whole)] at reads
      obtain ⟨turn, middle, first, second⟩ := reads
      rw [Body.chunk, Read.decided_line.reads_bind_iff
        (Body.decided_chunkAfter whole.length), List.append_assoc] at first
      obtain ⟨read, between, comes, goes⟩ := first
      obtain ⟨rfl, rfl⟩ := of_line_of_spans spans comes
      rw [Body.chunkAfter_of_size states, if_pos rfl] at goes
      obtain ⟨rfl, rfl⟩ := goes.unique (Fallible.reads_pure _ _)
      rw [Body.afterChunk, Head.decided_readHead.reads_bind_iff
        fun _ => Fallible.decided_pure _] at second
      obtain ⟨lines, left, head, ends⟩ := second
      obtain ⟨rfl, rfl⟩ := of_readHeadFrom_of_closing closing head
      obtain ⟨rfl, rfl⟩ := ends.unique (Fallible.reads_pure _ _)
      rw [List.append_nil]
      exact ⟨rfl, rfl⟩
  | chunk spans states nonempty coding inductionHypothesis =>
      rw [Body.unchunkFrom_eq, (Body.decided_chunk whole.length).reads_bind_iff
        (Body.decided_afterChunk whole)] at reads
      obtain ⟨turn, middle, first, second⟩ := reads
      rw [Body.chunk, Read.decided_line.reads_bind_iff
        (Body.decided_chunkAfter whole.length), List.append_assoc] at first
      obtain ⟨read, between, comes, goes⟩ := first
      obtain ⟨rfl, rfl⟩ := of_line_of_spans spans comes
      rw [Body.chunkAfter_of_size states,
        if_neg (List.length_pos_iff.mpr nonempty).ne', List.append_assoc,
        List.append_assoc] at goes
      obtain ⟨rfl, rfl⟩ := of_sized_of_whole goes
      obtain ⟨rfl, rfl⟩ := inductionHypothesis second
      rw [List.append_assoc]
      exact ⟨rfl, rfl⟩

/-! ## What a request's head says of its body -/

/-- The head of a request says where it ends in one way, and what was `taken`
after the head is what it says: the chunked coding of `body`, or `body` as it
is. -/
structure Unambiguous
    (head : List String)
    (taken body : List UInt8) : Prop where
  lengths : ∀ field ∈ fields (head.drop 1), Names field "content-length" →
    Text.allDigits field.2 = true ∧
      ∀ other ∈ fields (head.drop 1), Names other "content-length" →
        Text.decimal other.2.toList = Text.decimal field.2.toList
  codings : ∀ field ∈ fields (head.drop 1), Names field "transfer-encoding" →
    Text.lowercase (Text.trim field.2) = "chunked"
  chunked : (∃ field ∈ fields (head.drop 1), Names field "transfer-encoding") →
    ∃ trailer, Coding taken body trailer
  counted : (∀ field ∈ fields (head.drop 1),
      ¬Names field "transfer-encoding") →
    taken = body ∧
      (∀ field ∈ fields (head.drop 1), Names field "content-length" →
        taken.length = Text.decimal field.2.toList) ∧
      ((∀ field ∈ fields (head.drop 1), ¬Names field "content-length") →
        taken = [])

/-- The fields that frame a request repeat each other: its codings are alike and
its lengths are digits alone and of one number; and where it names a coding, the
coding comes whole `after` the head. -/
structure Repeats (head : List String) (after : List UInt8) : Prop where
  lengths : ∀ field ∈ fields (head.drop 1), Names field "content-length" →
    Text.allDigits field.2 = true ∧
      ∀ other ∈ fields (head.drop 1), Names other "content-length" →
        Text.decimal other.2.toList = Text.decimal field.2.toList
  codings : ∀ field ∈ fields (head.drop 1), Names field "transfer-encoding" →
    ∀ other ∈ fields (head.drop 1), Names other "transfer-encoding" →
      Text.lowercase (Text.trim other.2) = Text.lowercase (Text.trim field.2)
  whole : (∃ field ∈ fields (head.drop 1), Names field "transfer-encoding") →
    ∃ coded body trailer later,
      after = coded ++ later ∧ Coding coded body trailer

/-- What a request was read from: its head, and its body as the head frames
it. -/
theorem of_readRequest
    {codec : Percent}
    {bytes rest : List UInt8}
    {request : Request}
    (reads : Reads (readRequest codec) bytes (some request) rest) :
    ∃ head after result, Reads readHead bytes head after ∧
      Reads (Body.read head false) after result rest ∧
        request.headers = fields (head.drop 1) ∧ request.body = result.1 := by
  rw [readRequest_eq, Head.decided_readHead.reads_bind_iff
    (decided_requestAfter codec)] at reads
  obtain ⟨head, after, first, second⟩ := reads
  cases head with
  | nil =>
      obtain ⟨none, _⟩ := second.unique (Fallible.reads_pure none after)
      cases none
  | cons line others =>
      rw [requestAfter, List.head?_cons] at second
      simp only at second
      split at second
      next words =>
        obtain ⟨result, _, body, ends⟩ :=
          ((Body.decided_read _ false).reads_bind_iff fun _ =>
            Fallible.decided_pure _).mp second
        obtain ⟨same, rfl⟩ := ends.unique (Fallible.reads_pure _ _)
        obtain rfl := Option.some.inj same
        exact ⟨line :: others, after, result, first, body, rfl, rfl⟩
      · exact absurd (Fallible.refuses_fail _ _) second.not_refuses

/-- The number of a length that is read. -/
theorem decimal_of_contentLength
    {value : String}
    {length : Nat}
    (reads : Body.contentLength value = some length) :
    Text.decimal value.toList = length := by
  rw [Body.contentLength] at reads
  split at reads
  next digits => exact Text.decimal_of_parseUnsigned digits reads
  · cases reads

/-- A request whose framing repeats itself ends where its head says. -/
theorem unambiguous_of_repeats
    {head : List String}
    {after rest : List UInt8}
    {result : List UInt8 × List String}
    (reads : Reads (Body.read head false) after result rest)
    (repeats : Repeats head after) :
    ∃ taken, after = taken ++ rest ∧ Unambiguous head taken result.1 := by
  have looks : ∀ name, header head name = find (fields (head.drop 1)) name :=
    Head.header_eq_find head
  rcases Body.of_read reads with
    ⟨value, coded, chunked, unchunks⟩ |
      ⟨uncoded, _, _, measured, split, bare⟩
  · rw [looks] at coded
    obtain ⟨first, present, names, rfl⟩ := of_find coded
    obtain ⟨taken, body, trailer, later, rfl, coding⟩ :=
      repeats.whole ⟨first, present, names⟩
    obtain ⟨rfl, rfl⟩ := of_unchunkFrom_of_coding coding unchunks
    refine ⟨taken, rfl, repeats.lengths, ?_, fun _ => ⟨trailer, coding⟩,
      fun absent => absurd names (absent first present)⟩
    intro field member named
    rw [repeats.codings first present names field member named]
    exact chunked
  · rw [looks] at uncoded
    have absent := find_eq_none_iff.mp uncoded
    refine ⟨result.1, split, repeats.lengths,
      fun field member named => absurd named (absent field member), ?_, ?_⟩
    · rintro ⟨field, member, named⟩
      exact absurd named (absent field member)
    · refine fun _ => ⟨rfl, ?_, ?_⟩
      · intro field member named
        cases found : find (fields (head.drop 1)) "content-length" with
        | none =>
            exact absurd named (find_eq_none_iff.mp found field member)
        | some value =>
            have length := decimal_of_contentLength
              (measured value ((looks _).trans found))
            obtain ⟨first, present, names, rfl⟩ := of_find found
            rw [← length]
            exact (repeats.lengths field member named).2 first present names
      · intro none
        exact bare ((looks _).trans (find_eq_none_iff.mpr none)) rfl

/-- A request is read by the length that counts. -/
theorem readRequest_reads_of_length
    (codec : Percent)
    {line method target : String}
    {more others : List String}
    (words : Text.splitWhitespace line = method :: target :: more)
    (whole : ∀ text ∈ line :: others, Head.Whole text)
    (few : (line :: others).length ≤ Head.maxHeaders)
    (uncoded : header (line :: others) "transfer-encoding" = none)
    {value : String}
    (states : header (line :: others) "content-length" = some value)
    {body : List UInt8}
    (measured : Body.contentLength value = some body.length)
    (small : body.length ≤ maxBody)
    (rest : List UInt8) :
    Reads (readRequest codec)
      ((line :: others).flatMap lineOctets ++ ([13, 10] ++ (body ++ rest)))
      (some {
        method
        path := (splitTarget codec target).1
        query := (splitTarget codec target).2
        headers := fields others
        body }) rest := by
  rw [readRequest_eq]
  refine (Head.readHead_reads whole few _).bind ?_
  rw [requestAfter_of_words codec words]
  exact (Message.read_reads_of_length uncoded states measured small false
    rest).bind (Fallible.reads_pure _ rest)

end Http
end XmipNet

import XmipNet.Head

/-!
# The body a head frames

Its chunks, its `Content-Length`, or the connection's end, and never more than
the largest body; and the trailer a chunked body ends with.
-/

namespace XmipNet
namespace Http
namespace Body

open Fallible (Reads Refuses Decided Ensures mapError fail lift)
open Head (header readHead lineOctets Whole)
open Read (line)
open Reader (readExact)

/-- Refuse a body over the largest. -/
def within (length : Nat) : Except NetError Unit :=
  XmipNet.within length maxBody "Xmip reads in one body"

/-- The failure of a chunked body that is not one. -/
def broken : NetError :=
  .new "a chunked body is broken"

/-- The length a `Content-Length` states: digits, and a number of the machine's
word. -/
def contentLength (value : String) : Option Nat :=
  if Text.allDigits value then Text.parseUnsigned 64 value else none

/-- The size a chunk's line states: hexadecimal digits before any extension, and
a number of the machine's word. -/
def chunkSize (line : String) : Option Nat :=
  let size := Text.trim (Text.before line ';')
  if Text.allHexDigits size then Text.parseHex 64 size else none

/-- The octets of a chunk of `size`, and its ending, where `length` octets of
the body are read. -/
def sized (length size : Nat) : Reading NetError (Option (List UInt8)) := do
  lift (within (length + size))
  let piece ← mapError (.fromIo "reading a chunk") (readExact size)
  let ending ← mapError (.fromIo "reading a chunk") (readExact 2)
  if ending = [13, 10] then
    pure (some piece)
  else
    fail broken

/-- What a line opens where `length` octets of a chunked body are read: a chunk,
or none where it says the last has come. -/
def chunkAfter (length : Nat) : Option String →
    Reading NetError (Option (List UInt8))
  | none => fail broken
  | some text =>
      match chunkSize text with
      | none => fail broken
      | some size => if size = 0 then pure none else sized length size

theorem chunkAfter_of_broken
    {text : String}
    (notSize : chunkSize text = none)
    (length : Nat) :
    chunkAfter length (some text) = fail broken := by
  rw [chunkAfter, notSize]

theorem chunkAfter_of_size
    {text : String}
    {size : Nat}
    (states : chunkSize text = some size)
    (length : Nat) :
    chunkAfter length (some text) =
      if size = 0 then pure none else sized length size := by
  rw [chunkAfter, states]

/-- One turn over a chunked body of which `length` octets are read. -/
def chunk (length : Nat) : Reading NetError (Option (List UInt8)) := do
  let text ← line
  chunkAfter length text

theorem ensures_readExact (needed : Nat) (reader : Reader) :
    Ensures (readExact needed) reader (fun filled _ => filled.length = needed)
      fun _ _ => True := by
  rw [Ensures]
  split
  next runs => exact Reader.length_of_readExact runs
  · trivial

theorem ensures_sized (length size : Nat) (reader : Reader) :
    Ensures (sized length size) reader
      (fun outcome _ => ∀ piece, outcome = some piece →
        piece.length = size ∧ length + size ≤ maxBody)
      fun _ _ => True := by
  rw [sized, Fallible.ensures_bind, Fallible.ensures_lift]
  cases fits : within (length + size) with
  | error failure => trivial
  | ok bounded =>
      have small := Read.le_of_within fits
      simp only [Fallible.ensures_bind, Fallible.ensures_mapError]
      refine (ensures_readExact size reader).mono ?_ fun _ _ _ => trivial
      intro piece between whole
      refine (ensures_readExact 2 between).mono ?_ fun _ _ _ => trivial
      intro ending after _
      by_cases crlf : ending = [13, 10]
      · rw [if_pos crlf]
        rintro given ⟨⟩
        exact ⟨whole, small⟩
      · rw [if_neg crlf]
        trivial

/-- A chunk that is read holds something, and the body stays within the
largest. -/
theorem length_of_chunk
    {length : Nat}
    {reader after : Reader}
    {piece : List UInt8}
    (reads : chunk length reader = (.ok (some piece), after)) :
    0 < piece.length ∧ length + piece.length ≤ maxBody := by
  have ensures : Ensures (chunk length) reader
      (fun outcome _ => ∀ piece, outcome = some piece →
        0 < piece.length ∧ length + piece.length ≤ maxBody)
      fun _ _ => True := by
    rw [chunk, Fallible.ensures_bind, Ensures]
    split
    next text between runs =>
      cases text with
      | none => trivial
      | some text =>
          cases states : chunkSize text with
          | none =>
              rw [chunkAfter_of_broken states]
              trivial
          | some size =>
              rw [chunkAfter_of_size states]
              by_cases last : size = 0
              · rw [if_pos last]
                rintro given ⟨⟩
              · rw [if_neg last]
                refine (ensures_sized length size between).mono ?_
                  fun _ _ _ => trivial
                intro outcome _ each given same
                obtain ⟨rfl, small⟩ := each given same
                exact ⟨Nat.pos_of_ne_zero last, small⟩
    · trivial
  exact Fallible.ensures_of_ok ensures reads piece rfl

/-- A chunked body put back together after the octets already read, and the
lines of its trailer. -/
def unchunkFrom (whole : List UInt8) (reader : Reader) :
    Except NetError (List UInt8 × List String) × Reader :=
  match _turn : chunk whole.length reader with
  | (.error failure, after) => (.error failure, after)
  | (.ok none, after) =>
      (do
        let trailer ← readHead
        pure (whole, trailer) :
          Reading NetError (List UInt8 × List String)) after
  | (.ok (some piece), after) => unchunkFrom (whole ++ piece) after
termination_by maxBody - whole.length
decreasing_by
  have grows := length_of_chunk _turn
  rw [List.length_append]
  omega

/-- A chunked body, put back together, and the lines of its trailer. -/
def unchunk : Reading NetError (List UInt8 × List String) :=
  unchunkFrom []

/-- The body `head` frames, to the connection's end where `to_end` and nothing
frames it, and the lines of its trailer. -/
def read (head : List String) (to_end : Bool) :
    Reading NetError (List UInt8 × List String) :=
  match header head "transfer-encoding" with
  | some codings =>
      if Text.lowercase (Text.trim codings) = "chunked" then
        unchunk
      else
        fail (.new
          s!"a transfer coding this client does not read: {codings}")
  | none =>
      match header head "content-length" with
      | some value =>
          match contentLength value with
          | none => fail (.new s!"a Content-Length '{value}' is not one")
          | some length => do
              lift (within length)
              let bytes ← mapError (.fromIo "reading the body")
                (readExact length)
              pure (bytes, [])
      | none =>
          if to_end then do
            let bytes ← Read.toEnd maxBody
            pure (bytes, [])
          else
            pure ([], [])

/-! ## What is read, of the octets delivered -/

theorem decided_sized (length size : Nat) : Decided (sized length size) := by
  rw [sized]
  refine (Fallible.decided_lift _).bind fun _ => ?_
  refine ((Reader.decided_readExact size).mapError _).bind fun piece => ?_
  refine ((Reader.decided_readExact 2).mapError _).bind fun ending => ?_
  split
  · exact Fallible.decided_pure _
  · exact Fallible.decided_fail _

theorem decided_chunkAfter (length : Nat) (read : Option String) :
    Decided (chunkAfter length read) := by
  cases read with
  | none => exact Fallible.decided_fail _
  | some text =>
      cases states : chunkSize text with
      | none =>
          rw [chunkAfter_of_broken states]
          exact Fallible.decided_fail _
      | some size =>
          rw [chunkAfter_of_size states]
          split
          · exact Fallible.decided_pure _
          · exact decided_sized length size

theorem decided_chunk (length : Nat) : Decided (chunk length) :=
  Read.decided_line.bind (decided_chunkAfter length)

/-- What a turn over a chunked body goes on with. -/
def afterChunk (whole : List UInt8) :
    Option (List UInt8) → Reading NetError (List UInt8 × List String)
  | none => do
      let trailer ← readHead
      pure (whole, trailer)
  | some piece => unchunkFrom (whole ++ piece)

theorem unchunkFrom_eq (whole : List UInt8) :
    (unchunkFrom whole : Reading NetError (List UInt8 × List String)) =
      chunk whole.length >>= afterChunk whole := by
  funext reader
  rw [unchunkFrom, Fallible.bind_apply]
  split
  next runs => rw [runs]
  next runs =>
    rw [runs]
    rfl
  next runs =>
    rw [runs]
    rfl

theorem decided_afterChunk_none (whole : List UInt8) :
    Decided (afterChunk whole none) :=
  Head.decided_readHead.bind fun _ => Fallible.decided_pure _

/-- A chunked body is decided chunk by chunk. -/
theorem decided_unchunkFrom (whole : List UInt8) :
    Decided (unchunkFrom whole : Reading NetError _) := by
  generalize room : maxBody - whole.length = left
  induction left using Nat.strongRecOn generalizing whole with
  | ind left inductionHypothesis =>
      rw [unchunkFrom_eq]
      intro bytes
      rcases decided_chunk whole.length bytes with ⟨turn, middle, reads⟩ |
        refuses
      · cases turn with
        | none =>
            rcases decided_afterChunk_none whole middle with
              ⟨value, rest, goes⟩ | refuses
            · exact Or.inl ⟨value, rest, reads.bind goes⟩
            · exact Or.inr (reads.bind_refuses refuses)
        | some piece =>
            obtain ⟨reader, delivers⟩ :=
              Delivering.every (σ := Reader) bytes
            obtain ⟨after, runs, _⟩ := reads reader delivers
            have grows := length_of_chunk runs
            have smaller : maxBody - (whole ++ piece).length < left := by
              rw [List.length_append]
              omega
            rcases inductionHypothesis _ smaller (whole ++ piece) rfl middle with
              ⟨value, rest, goes⟩ | refuses
            · exact Or.inl ⟨value, rest, reads.bind goes⟩
            · exact Or.inr (reads.bind_refuses refuses)
      · exact Or.inr (refuses.bind _)

theorem decided_afterChunk
    (whole : List UInt8)
    (turn : Option (List UInt8)) :
    Decided (afterChunk whole turn) := by
  cases turn with
  | none => exact decided_afterChunk_none whole
  | some piece => exact decided_unchunkFrom (whole ++ piece)

theorem decided_unchunk : Decided unchunk :=
  decided_unchunkFrom []

theorem decided_read (head : List String) (to_end : Bool) :
    Decided (read head to_end) := by
  rw [read]
  split
  · split
    · exact decided_unchunk
    · exact Fallible.decided_fail _
  · split
    · split
      · exact Fallible.decided_fail _
      · refine (Fallible.decided_lift _).bind fun _ => ?_
        refine ((Reader.decided_readExact _).mapError _).bind fun bytes => ?_
        exact Fallible.decided_pure _
    · split
      · exact (Read.decided_toEnd maxBody).bind fun bytes =>
          Fallible.decided_pure _
      · exact Fallible.decided_pure _

/-- The size a chunk is written with is the size that is read. -/
theorem chunkSize_toHex
    {size : Nat}
    (fits : size < 2 ^ 64) :
    chunkSize (Text.toHex size) = some size := by
  have noExtension : Text.before (Text.toHex size) ';' = Text.toHex size := by
    have all : (Text.toHex size).toList.takeWhile (· ≠ ';') =
        (Text.toHex size).toList :=
      List.takeWhile_eq_self_iff.mpr fun digit member =>
        decide_eq_true (Text.toHex_spec member).2.2.1
    rw [Text.before, all, String.ofList_toList]
  have trimmed : Text.trim (Text.toHex size) = Text.toHex size :=
    Text.trim_of_forall fun digit member => (Text.toHex_spec member).2.1
  rw [chunkSize, noExtension]
  simp only [trimmed]
  rw [if_pos (Text.allHexDigits_toHex size), Text.parseHex_toHex fits]

theorem whole_toHex
    {size : Nat}
    (fits : size ≤ maxBody) :
    Whole (Text.toHex size) := by
  refine ⟨Text.toHex_ne_empty size, ?_, ?_⟩
  · intro member
    exact (Text.toHex_spec member).2.2.2.1 rfl
  · have short : (Nat.toDigits 16 size).length ≤ 8 :=
      (Nat.length_toDigits_le_iff (by decide) (by decide)).mpr
        (Nat.lt_of_le_of_lt fits (by decide))
    rw [Text.length_octets_toHex]
    exact Nat.le_trans (Nat.add_le_add_right short 2) (by decide)

theorem sized_reads
    {length : Nat}
    {piece : List UInt8}
    (fits : length + piece.length ≤ maxBody)
    (rest : List UInt8) :
    Reads (sized length piece.length) (piece ++ ([13, 10] ++ rest)) (some piece)
      rest := by
  have enough : piece.length ≤ (piece ++ ([13, 10] ++ rest)).length := by
    rw [List.length_append]
    exact Nat.le_add_right _ _
  have content := Reader.readExact_reads enough
  rw [List.take_left, List.drop_left] at content
  have two : 2 ≤ ([13, 10] ++ rest).length := by
    rw [List.length_append]
    exact Nat.le_add_right _ _
  have ending := Reader.readExact_reads two
  have within : within (length + piece.length) = .ok () :=
    Read.within_eq_ok fits _
  rw [sized, within]
  refine (Fallible.reads_lift () _).bind ?_
  refine (content.mapError _).bind ?_
  refine (ending.mapError _).bind ?_
  exact Fallible.reads_pure (some piece) rest

/-- A chunk's line and its octets: the line states how many there are. -/
structure Sized (chunk : String × List UInt8) : Prop where
  oneLine : '\n' ∉ chunk.1.toList
  fits : (Text.octets chunk.1).length + 2 ≤ Read.maxLine
  states : chunkSize chunk.1 = some chunk.2.length

/-- A chunk as it is written. -/
def chunkOctets (chunk : String × List UInt8) : List UInt8 :=
  lineOctets chunk.1 ++ (chunk.2 ++ [13, 10])

theorem sized_toHex
    {piece : List UInt8}
    (fits : piece.length ≤ maxBody) :
    Sized (Text.toHex piece.length, piece) where
  oneLine := (whole_toHex fits).oneLine
  fits := (whole_toHex fits).fits
  states := chunkSize_toHex (Nat.lt_of_le_of_lt fits (by decide))

theorem sized_zero : Sized ("0", []) where
  oneLine := by decide
  fits := by decide
  states := by decide

/-- A chunk that was written is read. -/
theorem chunk_reads
    {written : String × List UInt8}
    (sized : Sized written)
    (nonempty : written.2 ≠ [])
    {length : Nat}
    (fits : length + written.2.length ≤ maxBody)
    (rest : List UInt8) :
    Reads (chunk length)
      (lineOctets written.1 ++ (written.2 ++ ([13, 10] ++ rest)))
      (some written.2) rest := by
  refine (Read.line_reads sized.oneLine sized.fits _).bind ?_
  rw [chunkAfter_of_size sized.states,
    if_neg (List.length_pos_iff.mpr nonempty).ne']
  exact sized_reads fits rest

/-- The last chunk ends the body. -/
theorem chunk_reads_last
    {last : String}
    (sized : Sized (last, []))
    (length : Nat)
    (rest : List UInt8) :
    Reads (chunk length) (lineOctets last ++ rest) none rest := by
  have states : chunkSize last = some 0 := sized.states
  refine (Read.line_reads sized.oneLine sized.fits rest).bind ?_
  rw [chunkAfter_of_size states, if_pos rfl]
  exact Fallible.reads_pure none rest

/-- Chunks come before whatever a chunked body goes on with. -/
theorem unchunkFrom_chunks
    {chunks : List (String × List UInt8)}
    (sized : ∀ chunk ∈ chunks, Sized chunk ∧ chunk.2 ≠ [])
    {before : List UInt8}
    (fits : (before ++ chunks.flatMap Prod.snd).length ≤ maxBody)
    (bytes : List UInt8) :
    (∀ {result rest}, Reads
        (unchunkFrom (before ++ chunks.flatMap Prod.snd) : Reading NetError _)
        bytes result rest →
      Reads (unchunkFrom before : Reading NetError _)
        (chunks.flatMap chunkOctets ++ bytes) result rest) ∧
    (Refuses
        (unchunkFrom (before ++ chunks.flatMap Prod.snd) : Reading NetError _)
        bytes →
      Refuses (unchunkFrom before : Reading NetError _)
        (chunks.flatMap chunkOctets ++ bytes)) := by
  induction chunks generalizing before with
  | nil =>
      rw [List.flatMap_nil, List.flatMap_nil, List.append_nil, List.nil_append]
      exact ⟨id, id⟩
  | cons chunk chunks inductionHypothesis =>
      obtain ⟨⟨first, nonempty⟩, others⟩ := List.forall_mem_cons.mp sized
      rw [List.flatMap_cons, ← List.append_assoc] at fits
      have room : before.length + chunk.2.length ≤ maxBody := by
        rw [List.length_append, List.length_append] at fits
        exact Nat.le_trans (Nat.le_add_right _ _) fits
      obtain ⟨reads, refuses⟩ := inductionHypothesis others fits
      have reading := chunk_reads first nonempty room
        (chunks.flatMap chunkOctets ++ bytes)
      rw [unchunkFrom_eq before, List.flatMap_cons, List.flatMap_cons,
        chunkOctets]
      simp only [List.append_assoc] at reads refuses reading ⊢
      exact ⟨fun goes => reading.bind (reads goes),
        fun stops => reading.bind_refuses (refuses stops)⟩

/-- A trailer comes after the last chunk. -/
theorem unchunkFrom_last
    {last : String}
    (ends : Sized (last, []))
    (before : List UInt8)
    (bytes : List UInt8) :
    (∀ {trailer rest}, Reads readHead bytes trailer rest →
      Reads (unchunkFrom before : Reading NetError (List UInt8 × List String))
        (lineOctets last ++ bytes) (before, trailer) rest) ∧
    (Refuses readHead bytes →
      Refuses (unchunkFrom before : Reading NetError (List UInt8 × List String))
        (lineOctets last ++ bytes)) := by
  have reading := chunk_reads_last ends before.length bytes
  rw [unchunkFrom_eq]
  refine ⟨fun goes => reading.bind ?_, fun stops => reading.bind_refuses ?_⟩
  · exact goes.bind (Fallible.reads_pure _ _)
  · exact stops.bind _

/-- Chunks and a trailer are read as the body they make and the lines of the
trailer. -/
theorem unchunkFrom_reads
    {chunks : List (String × List UInt8)}
    (sized : ∀ chunk ∈ chunks, Sized chunk ∧ chunk.2 ≠ [])
    {last : String}
    (ends : Sized (last, []))
    {before : List UInt8}
    (fits : (before ++ chunks.flatMap Prod.snd).length ≤ maxBody)
    {trailer : List String}
    (whole : ∀ line ∈ trailer, Whole line)
    (few : trailer.length ≤ Head.maxHeaders)
    (rest : List UInt8) :
    Reads (unchunkFrom before : Reading NetError (List UInt8 × List String))
      (chunks.flatMap chunkOctets ++ (lineOctets last ++
        (trailer.flatMap lineOctets ++ ([13, 10] ++ rest))))
      (before ++ chunks.flatMap Prod.snd, trailer) rest :=
  (unchunkFrom_chunks sized fits _).1
    ((unchunkFrom_last ends _ _).1 (Head.readHead_reads whole few rest))

/-- A body as one chunk, or as none where it is empty. -/
def oneChunk (body : List UInt8) : List UInt8 :=
  if body = [] then
    []
  else
    lineOctets (Text.toHex body.length) ++ body ++ [13, 10]

/-- The chunks of a body that goes as one. -/
def chunksOf (body : List UInt8) : List (String × List UInt8) :=
  if body = [] then [] else [(Text.toHex body.length, body)]

theorem flatMap_chunksOf (body : List UInt8) :
    (chunksOf body).flatMap chunkOctets = oneChunk body ∧
      (chunksOf body).flatMap Prod.snd = body := by
  rw [chunksOf, oneChunk]
  by_cases empty : body = []
  · rw [if_pos empty, if_pos empty]
    exact ⟨rfl, empty.symm⟩
  · rw [if_neg empty, if_neg empty, List.flatMap_singleton,
      List.flatMap_singleton, chunkOctets, List.append_assoc]
    exact ⟨rfl, rfl⟩

theorem sized_chunksOf
    {body : List UInt8}
    (fits : body.length ≤ maxBody) :
    ∀ chunk ∈ chunksOf body, Sized chunk ∧ chunk.2 ≠ [] := by
  rw [chunksOf]
  by_cases empty : body = []
  · rw [if_pos empty]
    exact List.forall_mem_nil _
  · rw [if_neg empty]
    exact List.forall_mem_singleton.mpr ⟨sized_toHex fits, empty⟩

/-- A body written as one chunk is read before whatever follows it. -/
theorem unchunk_oneChunk
    {body : List UInt8}
    (fits : body.length ≤ maxBody)
    (bytes : List UInt8) :
    (∀ {result rest}, Reads (unchunkFrom body : Reading NetError _) bytes result
        rest →
      Reads unchunk (oneChunk body ++ bytes) result rest) ∧
    (Refuses (unchunkFrom body : Reading NetError _) bytes →
      Refuses unchunk (oneChunk body ++ bytes)) := by
  obtain ⟨written, whole⟩ := flatMap_chunksOf body
  have small : ([] ++ (chunksOf body).flatMap Prod.snd).length ≤ maxBody := by
    rwa [List.nil_append, whole]
  have goes := unchunkFrom_chunks (sized_chunksOf fits) small bytes
  rw [List.nil_append, whole, written] at goes
  exact goes

/-- A body written as one chunk with its trailer is read back. -/
theorem unchunk_reads
    {body : List UInt8}
    (fits : body.length ≤ maxBody)
    {trailer : List String}
    (whole : ∀ line ∈ trailer, Whole line)
    (few : trailer.length ≤ Head.maxHeaders)
    (rest : List UInt8) :
    Reads unchunk
      (oneChunk body ++ (lineOctets "0" ++
        (trailer.flatMap lineOctets ++ ([13, 10] ++ rest))))
      (body, trailer) rest :=
  (unchunk_oneChunk fits _).1
    ((unchunkFrom_last sized_zero body _).1
      (Head.readHead_reads whole few rest))

end Body
end Http
end XmipNet

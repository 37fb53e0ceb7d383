import XmipNet.Http.Body

/-!
# A chunked body in every spelling

The size of a chunk may be spelled with white space around it, zeros before it,
capitals in it and an extension after it. However its sizes are spelled and
wherever it is cut, a body is put together again; and whatever comes instead,
what is put together stays within the largest body.
-/

namespace XmipNet
namespace Http
namespace Body

open Fallible (Reads Refuses Decided)
open Head (lineOctets Whole readHead)

/-- White space and nothing else. -/
def Blank (text : String) : Prop :=
  ∀ character ∈ text.toList, Text.isWhitespace character = true

/-- `text` spells `size`: hexadecimal digits of either case, any zeros before
them, white space around them and an extension after them, in a line. -/
structure Spelled (text : String) (size : Nat) : Prop where
  parts : ∃ before digits after extension,
    text = before ++ digits ++ after ++ extension ∧ Blank before ∧ Blank after ∧
      Text.allHexDigits digits = true ∧
        Text.hexadecimal digits.toList = size ∧
          (extension = "" ∨ Text.opensWith extension ';' = true)
  oneLine : '\n' ∉ text.toList
  fits : (Text.octets text).length + 2 ≤ Read.maxLine

theorem not_blank_of_isHexDigit
    {digit : Char}
    (hexadecimal : digit.isHexDigit = true) :
    Text.isWhitespace digit = false := by
  have bounds := Text.isHexDigit_bounds hexadecimal
  rw [Text.isWhitespace, decide_eq_false_iff_not]
  omega

theorem not_semicolon_of_isHexDigit
    {digit : Char}
    (hexadecimal : digit.isHexDigit = true) :
    digit ≠ ';' := by
  have bounds := Text.isHexDigit_bounds hexadecimal
  rintro rfl
  have code : ';'.toNat = 59 := rfl
  omega

theorem before_append
    {first : String}
    {mark : Char}
    (absent : mark ∉ first.toList)
    {rest : String}
    (ends : rest = "" ∨ Text.opensWith rest mark = true) :
    Text.before (first ++ rest) mark = first := by
  have goes : ∀ character ∈ first.toList,
      decide (character ≠ mark) = true := by
    intro character member
    refine decide_eq_true ?_
    rintro rfl
    exact absent member
  have stops : rest.toList.takeWhile (· ≠ mark) = [] := by
    rcases ends with rfl | opens
    · rfl
    · rw [Text.opensWith, decide_eq_true_iff, List.head?_eq_some_iff] at opens
      obtain ⟨tail, same⟩ := opens
      have here : ¬decide (mark ≠ mark) = true := by
        rw [decide_eq_true_iff]
        exact not_not.mpr rfl
      rw [same, List.takeWhile_cons_of_neg
        (p := fun character => decide (character ≠ mark)) here]
  rw [Text.before, String.toList_append, List.takeWhile_append_of_pos goes,
    stops, List.append_nil, String.ofList_toList]

theorem semicolon_not_mem_of_blank
    {text : String}
    (blank : Blank text) :
    ';' ∉ text.toList :=
  fun member => absurd (blank ';' member) (by decide)

/-- The size that is spelled is the size that is read. -/
theorem chunkSize_of_spelled
    {text : String}
    {size : Nat}
    (spelled : Spelled text size)
    (fits : size < 2 ^ 64) :
    chunkSize text = some size := by
  obtain ⟨before, digits, after, extension, rfl, front, back, hexadecimal,
    value, ends⟩ := spelled.parts
  have all := hexadecimal
  rw [Text.allHexDigits, decide_eq_true_iff, List.all_eq_true] at all
  have noMark : ';' ∉ (before ++ digits ++ after).toList := by
    rw [String.toList_append, String.toList_append, List.mem_append,
      List.mem_append]
    rintro ((early | digit) | late)
    · exact semicolon_not_mem_of_blank front early
    · exact not_semicolon_of_isHexDigit (all.2 ';' digit) rfl
    · exact semicolon_not_mem_of_blank back late
  have trimmed : Text.trim (before ++ digits ++ after) = digits := by
    rw [Text.trim, String.toList_append, String.toList_append,
      Trimming.trimmed_append front
        (fun digit member => not_blank_of_isHexDigit (all.2 digit member)) back,
      String.ofList_toList]
  rw [chunkSize, before_append noMark ends]
  simp only [trimmed]
  rw [if_pos hexadecimal, Text.parseHex, value, if_pos fits]

/-- A chunk whose size is spelled is one that is read. -/
theorem sized_of_spelled
    {chunk : String × List UInt8}
    (spelled : Spelled chunk.1 chunk.2.length)
    (fits : chunk.2.length ≤ maxBody) :
    Sized chunk where
  oneLine := spelled.oneLine
  fits := spelled.fits
  states := chunkSize_of_spelled spelled (Nat.lt_of_le_of_lt fits (by decide))

/-! ## What is put together -/

/-- What `reader` has put together of a chunked body, and the reader it goes on
from, after some turns. -/
inductive Gathered (reader : Reader) : List UInt8 → Reader → Prop
  | nothing : Gathered reader [] reader
  | more
      {whole piece : List UInt8}
      {between after : Reader}
      (gathered : Gathered reader whole between)
      (reads : chunk whole.length between = (.ok (some piece), after)) :
      Gathered reader (whole ++ piece) after

/-- What is put together stays within the largest body. -/
theorem length_of_gathered
    {reader after : Reader}
    {whole : List UInt8}
    (gathered : Gathered reader whole after) :
    whole.length ≤ maxBody := by
  cases gathered with
  | nothing => exact Nat.zero_le _
  | more gathered reads =>
      rw [List.length_append]
      exact (length_of_chunk reads).2

/-- A chunk that would not fit is refused before any of it is read. -/
theorem sized_of_exceeds
    {length size : Nat}
    (exceeds : maxBody < length + size)
    (reader : Reader) :
    ∃ failure, sized length size reader = (.error failure, reader) := by
  obtain ⟨failure, refused⟩ := Read.within_eq_error exceeds
    "Xmip reads in one body"
  refine ⟨failure, ?_⟩
  have fails : Fallible.lift (within (length + size)) reader =
      (.error failure, reader) := by
    rw [Fallible.lift, within, refused]
  exact Fallible.bind_of_error fails _

/-- The body that is read is what was put together. -/
theorem gathered_of_unchunkFrom
    {reader start after : Reader}
    {whole body : List UInt8}
    {trailer : List String}
    (gathered : Gathered reader whole start)
    (reads : unchunkFrom whole start = (.ok (body, trailer), after)) :
    ∃ between, Gathered reader body between := by
  fun_induction unchunkFrom whole start with
  | case1 whole start failure later turn => cases reads
  | case2 whole start later turn =>
      rw [Fallible.bind_apply] at reads
      split at reads
      · cases reads
        exact ⟨start, gathered⟩
      · cases reads
  | case3 whole start piece later turn inductionHypothesis =>
      exact inductionHypothesis (.more gathered turn) reads

/-- A body is put together again whatever its chunks are and however their sizes
are spelled, with the lines of its trailer, and what follows is left. Whatever
comes, reading it ends, with a body or without; and what is put together, and
what room is made for before a chunk is read, stays within the largest body. -/
theorem unchunk_whole :
    (∀ (chunks : List (String × List UInt8)) (last : String)
      (trailer : List String) (rest : List UInt8),
      (∀ chunk ∈ chunks, Spelled chunk.1 chunk.2.length ∧ chunk.2 ≠ []) →
      Spelled last 0 →
      (chunks.flatMap Prod.snd).length ≤ maxBody →
      (∀ line ∈ trailer, Whole line) →
      trailer.length ≤ 200 →
      Reads unchunk
        (chunks.flatMap chunkOctets ++ (lineOctets last ++
          (trailer.flatMap lineOctets ++ ([13, 10] ++ rest))))
        (chunks.flatMap Prod.snd, trailer) rest) ∧
    (∀ bytes, (∃ body trailer rest,
      Reads unchunk bytes (body, trailer) rest) ∨ Refuses unchunk bytes) ∧
    (∀ reader after whole, Gathered reader whole after →
      whole.length ≤ maxBody ∧
        ∀ size, maxBody < whole.length + size → ∃ failure,
          sized whole.length size after = (.error failure, after)) ∧
    ∀ reader after body trailer,
      unchunk reader = (.ok (body, trailer), after) → body.length ≤ maxBody := by
  refine ⟨?_, ?_, ?_, ?_⟩
  · intro chunks last trailer rest spelled ends fits whole few
    have sized : ∀ chunk ∈ chunks, Sized chunk ∧ chunk.2 ≠ [] := by
      intro chunk member
      obtain ⟨spells, nonempty⟩ := spelled chunk member
      have small : chunk.2.length ≤ (chunks.flatMap Prod.snd).length := by
        obtain ⟨earlier, later, rfl⟩ := List.append_of_mem member
        rw [List.flatMap_append, List.flatMap_cons, List.length_append,
          List.length_append]
        omega
      exact ⟨sized_of_spelled spells (Nat.le_trans small fits), nonempty⟩
    exact unchunkFrom_reads sized (sized_of_spelled ends (Nat.zero_le _)) fits
      whole few rest
  · intro bytes
    rcases decided_unchunk bytes with ⟨⟨body, trailer⟩, rest, reads⟩ | refuses
    · exact Or.inl ⟨body, trailer, rest, reads⟩
    · exact Or.inr refuses
  · intro reader after whole gathered
    exact ⟨length_of_gathered gathered,
      fun size exceeds => sized_of_exceeds exceeds after⟩
  · intro reader after body trailer reads
    obtain ⟨between, gathered⟩ := gathered_of_unchunkFrom .nothing reads
    exact length_of_gathered gathered

theorem spelled_extended : Spelled " 00a ;name=\r\"x\" " 10 where
  parts := ⟨" ", "00a", " ", ";name=\r\"x\" ", rfl,
    Text.forall_mem_of_all (by decide), Text.forall_mem_of_all (by decide),
    by decide, by decide, Or.inr rfl⟩
  oneLine := by decide
  fits := by decide

theorem unchunk_whole_extended :
    Reads unchunk
      ([(" 00a ;name=\r\"x\" ", [48, 13, 10, 13, 10, 53, 13, 10, 0, 255])].flatMap
        chunkOctets ++ (lineOctets "000" ++
          (["digest: 1"].flatMap lineOctets ++ ([13, 10] ++ [71]))))
      ([48, 13, 10, 13, 10, 53, 13, 10, 0, 255], ["digest: 1"]) [71] := by
  have blank : Blank "" := fun _ absent => absurd absent List.not_mem_nil
  have last : Spelled "000" 0 :=
    ⟨⟨"", "000", "", "", rfl, blank, blank, by decide, by decide,
      Or.inl rfl⟩, by decide, by decide⟩
  refine unchunk_whole.1 _ _ _ _ ?_ last (by decide) ?_ (by decide)
  · exact List.forall_mem_singleton.mpr ⟨spelled_extended, by decide⟩
  · exact List.forall_mem_singleton.mpr ⟨by decide, by decide, by decide⟩

end Body
end Http
end XmipNet

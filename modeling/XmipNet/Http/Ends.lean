import XmipNet.Foundation.Cuts
import XmipNet.Http.Legible

/-!
# What is read where a connection ends

A connection that ends in the middle of a head ends the head, and the line it
ends in is a line, unless it ends inside a character. A body that is asked of
nothing is refused, and one that goes as a chunk until the last is said to have
come.
-/

namespace XmipNet
namespace Http

open Cuts (Cut)
open Fallible (Reads Refuses)
open Head (lineOctets Whole header readHead readHeadFrom)
open Read (line maxLine trimEol)

/-! ## The line a connection ends in -/

/-- The text of the octets a connection ended after, where they end inside no
character. -/
def spelled (part : List UInt8) : Option String :=
  Text.fromUtf8 (trimEol part)

theorem line_reads_of_end
    {part : List UInt8}
    (nonempty : part ≠ [])
    (noFeed : 10 ∉ part)
    (fits : part.length ≤ maxLine)
    {text : String}
    (spells : spelled part = some text) :
    Reads line part (some text) [] := by
  have all := Read.upTo_of_not_mem noFeed
  have reads : Reads line part (some text)
      (part.drop (Read.upTo 10 part).length) :=
    Read.line_reads_of_upTo nonempty (by rwa [all])
      (by rw [all, Text.octets_of_fromUtf8 spells])
  rwa [all, List.drop_length] at reads

theorem line_refuses_of_end
    {part : List UInt8}
    (nonempty : part ≠ [])
    (noFeed : 10 ∉ part)
    (fits : part.length ≤ maxLine)
    (spells : spelled part = none) :
    Refuses line part := by
  have all := Read.upTo_of_not_mem noFeed
  have reads : Reads (Read.«until» 10 maxLine []) part
      ((Read.upTo 10 part).length, Read.upTo 10 part)
      (part.drop (Read.upTo 10 part).length) :=
    Read.until_reads (by rwa [all])
  have some' : part.length ≠ 0 := fun zero =>
    nonempty (List.eq_nil_of_length_eq_zero zero)
  rw [all] at reads
  rw [Read.line_eq]
  refine reads.bind_refuses ?_
  rw [spelled] at spells
  rw [Read.lineOf, if_neg some', spells]
  exact Fallible.refuses_fail _ _

/-! ## The head a connection ends in -/

/-- The lines a head has where the connection ends after `text`. -/
def seen (before : List String) (text : String) : List String :=
  if text = "" then before else before ++ [text]

/-- What came of a line, less than the line and its ending. -/
theorem part_of_cut
    {text : String}
    (whole : Whole text)
    {part : List UInt8}
    (cut : Cut part (lineOctets text)) :
    part <+: Text.octets text ++ [13] ∧ 10 ∉ part ∧ part.length ≤ maxLine := by
  have ending : lineOctets text = (Text.octets text ++ [13]) ++ [10] := by
    rw [lineOctets, List.append_assoc]
    rfl
  have opens : part <+: Text.octets text ++ [13] := by
    have cutEnding := cut
    rw [ending] at cutEnding
    rcases cutEnding.append_cases with inside | ⟨later, rfl, last⟩
    · exact inside.opens
    · have none := last.length_lt
      rw [List.length_singleton, Nat.lt_one_iff,
        List.length_eq_zero_iff] at none
      rw [none, List.append_nil]
  refine ⟨opens, fun member => ?_, ?_⟩
  · rcases List.mem_append.mp (opens.subset member) with held | last
    · exact whole.oneLine ((Text.lineFeed_mem_octets_iff text).mp held)
    · exact absurd (List.mem_singleton.mp last) (by decide)
  · have short := opens.length_le
    have fits := whole.fits
    rw [List.length_append, List.length_singleton] at short
    omega

/-- Whole lines come before whatever a head goes on with. -/
theorem readHeadFrom_lines
    {before : List String}
    (whole : ∀ text ∈ before, Whole text)
    (room : Nat)
    (earlier : List String)
    (bytes : List UInt8) :
    (∀ {result rest}, Reads (readHeadFrom room (earlier ++ before)) bytes result
        rest →
      Reads (readHeadFrom (before.length + room) earlier)
        (before.flatMap lineOctets ++ bytes) result rest) ∧
    (Refuses (readHeadFrom room (earlier ++ before)) bytes →
      Refuses (readHeadFrom (before.length + room) earlier)
        (before.flatMap lineOctets ++ bytes)) := by
  induction before generalizing earlier with
  | nil =>
      rw [List.append_nil, List.length_nil, Nat.zero_add, List.flatMap_nil,
        List.nil_append]
      exact ⟨id, id⟩
  | cons text before inductionHypothesis =>
      obtain ⟨first, others⟩ := List.forall_mem_cons.mp whole
      obtain ⟨reads, refuses⟩ := inductionHypothesis others (earlier ++ [text])
      rw [List.append_assoc, List.singleton_append] at reads refuses
      have more : (text :: before).length + room =
          before.length + room + 1 := by
        rw [List.length_cons]
        omega
      rw [more, List.flatMap_cons, List.append_assoc]
      constructor
      · intro result rest goes
        exact Head.readHeadFrom_reads_line first (reads goes)
      · intro stops
        rw [Head.readHeadFrom_eq]
        refine (Read.line_reads first.oneLine first.fits _).bind_refuses ?_
        rw [Head.afterLine_more first.nonempty]
        exact refuses stops

/-- A head the connection ends in is the lines that came, unless it ends inside
a character. -/
theorem readHead_of_end
    {before : List String}
    (whole : ∀ text ∈ before, Whole text)
    {part : List UInt8}
    (noFeed : 10 ∉ part)
    (fits : part.length ≤ maxLine)
    (few : before.length ≤ Head.maxHeaders)
    (room : ∀ text, spelled part = some text → text ≠ "" →
      before.length < Head.maxHeaders) :
    (∀ text, spelled part = some text →
      Reads readHead (before.flatMap lineOctets ++ part) (seen before text)
        []) ∧
    (spelled part = none →
      Refuses readHead (before.flatMap lineOctets ++ part)) := by
  obtain ⟨left, spare⟩ := Nat.exists_eq_add_of_le few
  have lines := readHeadFrom_lines whole left [] part
  rw [← spare, List.nil_append] at lines
  obtain ⟨reads, refuses⟩ := lines
  constructor
  · intro text spells
    refine reads ?_
    rw [Head.readHeadFrom_eq]
    by_cases nothing : part = []
    · have blank : spelled [] = some "" := by decide
      rw [nothing, blank] at spells
      obtain rfl := Option.some.inj spells
      rw [nothing, seen, if_pos rfl]
      exact Read.line_reads_none.bind (Fallible.reads_pure before [])
    · refine (line_reads_of_end nothing noFeed fits spells).bind ?_
      by_cases blank : text = ""
      · rw [seen, if_pos blank, blank, Head.afterLine_blank]
        exact Fallible.reads_pure before []
      · have space := room text spells blank
        obtain ⟨less, rfl⟩ : ∃ less, left = less + 1 :=
          ⟨left - 1, by omega⟩
        rw [seen, if_neg blank, Head.afterLine_more blank,
          Head.readHeadFrom_eq]
        refine Read.line_reads_none.bind ?_
        exact Fallible.reads_pure _ []
  · intro spells
    refine refuses ?_
    have nonempty : part ≠ [] := by
      rintro rfl
      exact absurd spells (by decide)
    rw [Head.readHeadFrom_eq]
    exact (line_refuses_of_end nonempty noFeed fits spells).bind _

/-! ## The body a connection ends in -/

/-- A head that asks for a body: it names a coding, or a length other than
none. -/
def Asks (head : List String) : Prop :=
  header head "transfer-encoding" ≠ none ∨
    ∃ value, header head "content-length" = some value ∧
      Body.contentLength value ≠ some 0

theorem unchunkFrom_refuses_nil (before : List UInt8) :
    Refuses (Body.unchunkFrom before : Reading NetError _) [] := by
  rw [Body.unchunkFrom_eq]
  refine Refuses.bind ?_ _
  exact Read.line_reads_none.bind_refuses (Fallible.refuses_fail _ _)

theorem readExact_nothing
    {length : Nat}
    (positive : length ≠ 0) :
    Refuses (Reader.readExact length) [] :=
  Reader.readExact_refuses (Nat.pos_of_ne_zero positive)

/-- A body is asked of nothing in vain. -/
theorem read_refuses_nil
    {head : List String}
    (asks : Asks head)
    (toEnd : Bool) :
    Refuses (Body.read head toEnd) [] := by
  cases coded : header head "transfer-encoding" with
  | some value =>
      by_cases chunked : Text.lowercase (Text.trim value) = "chunked"
      · rw [Message.read_of_chunked coded chunked]
        exact unchunkFrom_refuses_nil []
      · rw [Body.read, coded]
        simp only [if_neg chunked]
        exact Fallible.refuses_fail _ _
  | none =>
      rcases asks with names | ⟨value, states, asked⟩
      · exact absurd coded names
      · rw [Body.read, coded, states]
        simp only
        split
        · exact Fallible.refuses_fail _ _
        next length measured =>
          have positive : length ≠ 0 := by
            rintro rfl
            exact asked measured
          cases fits : Body.within length with
          | error failure => exact (Fallible.refuses_lift failure []).bind _
          | ok within =>
              refine (Fallible.reads_lift () []).bind_refuses ?_
              exact ((readExact_nothing positive).mapError _).bind _

/-- A body that is not asked for is read of nothing. -/
theorem read_reads_nil
    {head : List String}
    (asksNot : ¬Asks head)
    (toEnd : Bool) :
    Reads (Body.read head toEnd) [] ([], []) [] := by
  rw [Asks, not_or, not_not] at asksNot
  obtain ⟨uncoded, unasked⟩ := asksNot
  cases states : header head "content-length" with
  | some value =>
      have none : Body.contentLength value = some 0 :=
        not_not.mp fun asked => unasked ⟨value, states, asked⟩
      have none' : Body.contentLength value = some ([] : List UInt8).length :=
        none
      exact Message.read_reads_of_length uncoded states none' (Nat.zero_le _)
        toEnd []
  | none =>
      rw [Body.read, uncoded, states]
      cases toEnd with
      | true =>
          have all : Reads (Read.toEnd maxBody) [] [] [] :=
            Read.toEnd_reads (Nat.zero_le _)
          exact all.bind (Fallible.reads_pure ([], []) [])
      | false => exact Fallible.reads_pure ([], []) []

theorem read_refuses_nil_iff
    (head : List String)
    (toEnd : Bool) :
    Refuses (Body.read head toEnd) [] ↔ Asks head :=
  ⟨fun refuses => not_not.mp fun asksNot =>
      (read_reads_nil asksNot toEnd).not_refuses refuses,
    fun asks => read_refuses_nil asks toEnd⟩

/-! ## The chunk a connection ends in -/

/-- The text a connection ended in opens the line it came from. -/
theorem isPrefix_of_spelled
    {whole : String}
    {part : List UInt8}
    (opens : part <+: Text.octets whole ++ [13])
    (noFeed : 10 ∉ part)
    {text : String}
    (spells : spelled part = some text) :
    text.toList <+: whole.toList := by
  have shorter : trimEol part <+: part := by
    rw [Read.trimEol_of_not_mem noFeed]
    split
    · exact List.dropLast_prefix part
    · exact List.prefix_refl part
  have within : trimEol part <+: Text.octets whole := by
    rcases Nat.lt_or_ge (Text.octets whole).length part.length with exceeds | fits
    · have same : part = Text.octets whole ++ [13] := by
        refine opens.eq_of_length_le ?_
        rw [List.length_append, List.length_singleton]
        exact exceeds
      rw [Read.trimEol_of_not_mem noFeed, same, List.getLast?_concat, if_pos rfl,
        List.dropLast_concat]
    · exact shorter.trans (List.prefix_of_prefix_length_le opens
        (List.prefix_append _ _) fits)
  rw [← Text.octets_of_fromUtf8 spells, Text.octets_eq,
    Text.octets_eq] at within
  exact Utf8.isPrefix_of_encode within

/-- A chunk's line cut short does not say that the last chunk has come. -/
theorem chunkSize_ne_zero
    {size : Nat}
    (positive : size ≠ 0)
    {text : String}
    (opens : text.toList <+: (Text.toHex size).toList) :
    Body.chunkSize text ≠ some 0 := by
  have digits : ∀ digit ∈ text.toList,
      Text.isWhitespace digit = false ∧ digit ≠ ';' := fun digit member =>
    have spec := Text.toHex_spec (opens.subset member)
    ⟨spec.2.1, spec.2.2.1⟩
  have all : text.toList.takeWhile (· ≠ ';') = text.toList :=
    List.takeWhile_eq_self_iff.mpr fun digit member =>
      decide_eq_true (digits digit member).2
  have trimmed : Text.trim text = text :=
    Text.trim_of_forall fun digit member => (digits digit member).1
  rw [Body.chunkSize, Text.before, all, String.ofList_toList, trimmed]
  split
  next states =>
    rw [Text.allHexDigits, decide_eq_true_iff] at states
    obtain ⟨digit, rest, spelled, nonzero⟩ := Text.toDigits_eq_cons positive
    rw [Text.toList_toHex, spelled] at opens
    rw [Text.parseHex]
    cases shown : text.toList with
    | nil => exact absurd (String.toList_eq_nil_iff.mp shown) states.1
    | cons first others =>
        rw [shown] at opens
        obtain ⟨rfl, _⟩ := List.cons_prefix_cons.mp opens
        have value := Text.hexadecimal_cons_ne_zero nonzero others
        split
        · exact fun same => value (Option.some.inj same)
        · exact fun none => by cases none
  · exact fun none => by cases none

theorem sized_refuses
    {length size : Nat}
    {bytes : List UInt8}
    (short : bytes.length < size + 2) :
    Refuses (Body.sized length size) bytes := by
  rw [Body.sized]
  cases Body.within (length + size) with
  | error failure => exact (Fallible.refuses_lift failure bytes).bind _
  | ok within =>
      refine (Fallible.reads_lift within bytes).bind_refuses ?_
      rcases Nat.lt_or_ge bytes.length size with few | enough
      · exact ((Reader.readExact_refuses few).mapError _).bind _
      · refine ((Reader.readExact_reads enough).mapError _).bind_refuses ?_
        have left : (bytes.drop size).length < 2 := by
          rw [List.length_drop]
          omega
        exact ((Reader.readExact_refuses left).mapError _).bind _

theorem chunkAfter_refuses
    {length : Nat}
    {text : String}
    (notLast : Body.chunkSize text ≠ some 0) :
    Refuses (Body.chunkAfter length (some text)) [] := by
  cases states : Body.chunkSize text with
  | none =>
      rw [Body.chunkAfter_of_broken states]
      exact Fallible.refuses_fail _ _
  | some size =>
      have positive : size ≠ 0 := by
        rintro rfl
        exact notLast states
      rw [Body.chunkAfter_of_size states, if_neg positive]
      exact sized_refuses (by rw [List.length_nil]; omega)

/-- A body that goes as one chunk is refused where the connection ends before
the last chunk is said to have come. -/
theorem unchunk_refuses_of_chunk
    {body : List UInt8}
    (fits : body.length ≤ maxBody)
    {part : List UInt8}
    (opens : part <+: Body.oneChunk body) :
    Refuses Body.unchunk part := by
  by_cases whole : part = Body.oneChunk body
  · have ends := (Body.unchunk_oneChunk fits []).2 (unchunkFrom_refuses_nil body)
    rwa [List.append_nil, ← whole] at ends
  · have cut : Cut part (Body.oneChunk body) := ⟨opens, whole⟩
    have present : body ≠ [] := by
      rintro rfl
      exact Cuts.not_cut_nil part cut
    have positive : body.length ≠ 0 := fun zero =>
      present (List.eq_nil_of_length_eq_zero zero)
    rw [Body.oneChunk, if_neg present, List.append_assoc] at cut
    have sized := Body.sized_toHex fits
    have unchunk : Body.unchunk =
        Body.chunk ([] : List UInt8).length >>= Body.afterChunk [] :=
      Body.unchunkFrom_eq []
    rw [unchunk]
    refine Refuses.bind ?_ _
    rcases cut.append_cases with inLine | ⟨later, rfl, inside⟩
    · obtain ⟨opens, noFeed, short⟩ := part_of_cut (Body.whole_toHex fits) inLine
      by_cases nothing : part = []
      · rw [nothing]
        exact Read.line_reads_none.bind_refuses (Fallible.refuses_fail _ _)
      · cases spells : spelled part with
        | none => exact (line_refuses_of_end nothing noFeed short spells).bind _
        | some text =>
            refine (line_reads_of_end nothing noFeed short
              spells).bind_refuses ?_
            exact chunkAfter_refuses (chunkSize_ne_zero positive
              (isPrefix_of_spelled opens noFeed spells))
    · refine (Read.line_reads sized.oneLine sized.fits later).bind_refuses ?_
      rw [Body.chunkAfter_of_size sized.states, if_neg positive]
      have short := inside.length_lt
      rw [List.length_append] at short
      exact sized_refuses short

/-! ## Where a trailer breaks -/

/-- What came of the blank line is no line. -/
theorem blank_of_cut
    {part : List UInt8}
    (cut : Cut part [13, 10]) :
    10 ∉ part ∧ part.length ≤ maxLine ∧ spelled part = some "" := by
  rcases cut.pair_cases with rfl | rfl
  · exact ⟨by decide, by decide, by decide⟩
  · exact ⟨by decide, by decide, by decide⟩

/-- The connection ends inside a character of one of the lines. -/
def Breaks (lines : List String) (came : List UInt8) : Prop :=
  ∃ before text after part, lines = before ++ text :: after ∧
    Cut part (lineOctets text) ∧ came = before.flatMap lineOctets ++ part ∧
      spelled part = none

theorem refuses_of_breaks
    {lines : List String}
    (whole : ∀ text ∈ lines, Whole text)
    (few : lines.length ≤ Head.maxHeaders)
    {came : List UInt8}
    (breaks : Breaks lines came) :
    Refuses readHead came := by
  obtain ⟨before, text, after, part, rfl, cut, rfl, spells⟩ := breaks
  obtain ⟨earlier, later⟩ := List.forall_mem_append.mp whole
  obtain ⟨_, noFeed, fits⟩ := part_of_cut (later text List.mem_cons_self) cut
  rw [List.length_append, List.length_cons] at few
  exact (readHead_of_end earlier noFeed fits (by omega)
    fun _ _ _ => by omega).2 spells

theorem breaks_or_reads
    {lines : List String}
    (whole : ∀ text ∈ lines, Whole text)
    (few : lines.length ≤ Head.maxHeaders)
    {came : List UInt8}
    (cut : Cut came (lines.flatMap lineOctets ++ [13, 10])) :
    Breaks lines came ∨ ∃ read, Reads readHead came read [] := by
  rcases cut.append_cases with inside | ⟨later, rfl, last⟩
  · obtain ⟨before, text, after, part, split, inLine, rfl⟩ :=
      inside.flatMap_cases
    have earlier : ∀ other ∈ before, Whole other := fun other member =>
      whole other (split ▸ List.mem_append_left _ member)
    have wholeText : Whole text :=
      whole text (split ▸ List.mem_append_right _ List.mem_cons_self)
    obtain ⟨_, noFeed, fits⟩ := part_of_cut wholeText inLine
    rw [split, List.length_append, List.length_cons] at few
    cases spells : spelled part with
    | none => exact Or.inl ⟨before, text, after, part, split, inLine, rfl, spells⟩
    | some ended =>
        exact Or.inr ⟨_, (readHead_of_end earlier noFeed fits (by omega)
          fun _ _ _ => by omega).1 ended spells⟩
  · obtain ⟨noFeed, fits, spells⟩ := blank_of_cut last
    refine Or.inr ⟨_, (readHead_of_end whole noFeed fits few ?_).1 "" spells⟩
    intro text spelledAs nonempty
    rw [spells] at spelledAs
    exact absurd (Option.some.inj spelledAs).symm nonempty

end Http
end XmipNet

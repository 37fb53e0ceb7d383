import XmipNet.Http
import XmipNet.Read

/-!
# A head as the line-oriented protocols write it

Lines, then a blank line. The fields of a head are its lines taken apart at
their first colon; a field that is trimmed and holds no colon in its name and no
line ending is read as it was written.
-/

namespace XmipNet
namespace Head

open Fallible (Reads Refuses Decided fail)
open Read (line maxLine)

/-- The largest number of header lines read. -/
def maxHeaders : Nat := 200

/-- The lines before a blank one after those already read, `room` more of them
at most; a connection that closes first ends them too. -/
def readHeadFrom (room : Nat) (lines : List String) :
    Reading NetError (List String) := do
  match ← line with
  | none => pure lines
  | some text =>
      if text = "" then
        pure lines
      else
        match room with
        | 0 => fail (.new "more header lines than Xmip will read")
        | room + 1 => readHeadFrom room (lines ++ [text])

/-- The lines before the blank line that ends a head. -/
def readHead : Reading NetError (List String) :=
  readHeadFrom maxHeaders []

/-- One header's value in a head, the first line left out. -/
def header (lines : List String) (name : String) : Option String :=
  (lines.drop 1).findSome? fun line =>
    (Text.splitOnce line ':').bind fun (key, value) =>
      if Text.lowercase (Text.trim key) = Text.lowercase name then
        some (Text.trim value)
      else
        none

/-- Header lines as names and values; one without a colon is passed over. -/
def fields (lines : List String) : List Pair :=
  (lines.filterMap fun line => Text.splitOnce line ':').map fun (name, value) =>
    (Text.trim name, Text.trim value)

/-- `fields` appended to `head` as they are written. -/
def writeFields (head : String) (fields : List Pair) : String :=
  fields.foldl
    (fun head (name, value) => head ++ name ++ ": " ++ value ++ "\r\n") head

/-! ## Lines -/

/-- A line and its ending. -/
def lineOctets (line : String) : List UInt8 :=
  Text.octets line ++ [13, 10]

/-- A line that is written and read as it is: not blank, one line, and within
the longest. -/
structure Whole (line : String) : Prop where
  nonempty : line ≠ ""
  oneLine : '\n' ∉ line.toList
  fits : (Text.octets line).length + 2 ≤ maxLine

/-- What reading a head does with one more line. -/
def afterLine (room : Nat) (lines : List String) :
    Option String → Reading NetError (List String)
  | none => pure lines
  | some text =>
      if text = "" then
        pure lines
      else
        match room with
        | 0 => fail (.new "more header lines than Xmip will read")
        | room + 1 => readHeadFrom room (lines ++ [text])

theorem readHeadFrom_eq (room : Nat) (lines : List String) :
    readHeadFrom room lines = line >>= afterLine room lines := by
  rw [readHeadFrom.eq_def]
  rfl

theorem afterLine_blank (room : Nat) (lines : List String) :
    afterLine room lines (some "") = pure lines := by
  cases room <;> simp only [afterLine, if_true]

theorem afterLine_full
    {text : String}
    (nonempty : text ≠ "")
    (lines : List String) :
    afterLine 0 lines (some text) =
      fail (.new "more header lines than Xmip will read") :=
  if_neg nonempty

theorem afterLine_more
    {text : String}
    (nonempty : text ≠ "")
    (room : Nat)
    (lines : List String) :
    afterLine (room + 1) lines (some text) =
      readHeadFrom room (lines ++ [text]) :=
  if_neg nonempty

theorem decided_afterLine_zero (lines : List String) (read : Option String) :
    Decided (afterLine 0 lines read) := by
  cases read with
  | none => exact Fallible.decided_pure lines
  | some text =>
      by_cases blank : text = ""
      · rw [blank, afterLine_blank]
        exact Fallible.decided_pure lines
      · rw [afterLine_full blank]
        exact Fallible.decided_fail _

theorem decided_afterLine
    {room : Nat}
    (decided : ∀ lines, Decided (readHeadFrom room lines))
    (lines : List String)
    (read : Option String) :
    Decided (afterLine (room + 1) lines read) := by
  cases read with
  | none => exact Fallible.decided_pure lines
  | some text =>
      by_cases blank : text = ""
      · rw [blank, afterLine_blank]
        exact Fallible.decided_pure lines
      · rw [afterLine_more blank]
        exact decided _

theorem decided_readHeadFrom (room : Nat) (lines : List String) :
    Decided (readHeadFrom room lines) := by
  induction room generalizing lines with
  | zero =>
      rw [readHeadFrom_eq]
      exact Read.decided_line.bind (decided_afterLine_zero lines)
  | succ room inductionHypothesis =>
      rw [readHeadFrom_eq]
      exact Read.decided_line.bind
        (decided_afterLine inductionHypothesis lines)

theorem decided_readHead : Decided readHead :=
  decided_readHeadFrom maxHeaders []

theorem decided_afterLine_any
    (room : Nat)
    (lines : List String)
    (read : Option String) :
    Decided (afterLine room lines read) := by
  cases room with
  | zero => exact decided_afterLine_zero lines read
  | succ room => exact decided_afterLine (decided_readHeadFrom room) lines read

/-- A whole line and what the head goes on with. -/
theorem readHeadFrom_reads_line
    {text : String}
    (whole : Whole text)
    {room : Nat}
    {lines result : List String}
    {bytes rest : List UInt8}
    (goes : Reads (readHeadFrom room (lines ++ [text])) bytes result rest) :
    Reads (readHeadFrom (room + 1) lines) (lineOctets text ++ bytes)
      result rest := by
  rw [readHeadFrom_eq]
  refine (Read.line_reads whole.oneLine whole.fits bytes).bind ?_
  rw [afterLine_more whole.nonempty]
  exact goes

/-- Lines and a blank one are read as those lines. -/
theorem readHeadFrom_reads
    {lines : List String}
    (whole : ∀ line ∈ lines, Whole line)
    {room : Nat}
    (fits : lines.length ≤ room)
    (earlier : List String)
    (rest : List UInt8) :
    Reads (readHeadFrom room earlier)
      (lines.flatMap lineOctets ++ ([13, 10] ++ rest)) (earlier ++ lines)
      rest := by
  induction lines generalizing room earlier with
  | nil =>
      rw [readHeadFrom_eq, List.append_nil, List.flatMap_nil, List.nil_append]
      have oneLine : '\n' ∉ "".toList := List.not_mem_nil
      have blank := Read.line_reads oneLine (by decide) rest
      refine blank.bind ?_
      rw [afterLine_blank]
      exact Fallible.reads_pure earlier rest
  | cons text lines inductionHypothesis =>
      obtain ⟨first, others⟩ := List.forall_mem_cons.mp whole
      cases room with
      | zero => exact absurd fits (Nat.not_succ_le_zero _)
      | succ room =>
          have goes := inductionHypothesis others (Nat.le_of_succ_le_succ fits)
            (earlier ++ [text])
          rw [List.append_assoc, List.singleton_append] at goes
          rw [List.flatMap_cons, List.append_assoc]
          exact readHeadFrom_reads_line first goes

theorem readHead_reads
    {lines : List String}
    (whole : ∀ line ∈ lines, Whole line)
    (fits : lines.length ≤ maxHeaders)
    (rest : List UInt8) :
    Reads readHead (lines.flatMap lineOctets ++ ([13, 10] ++ rest)) lines rest :=
  readHeadFrom_reads whole fits [] rest

/-- A head that is read has no line over the longest. -/
theorem fits_of_readHeadFrom
    {lines : List String}
    (each : ∀ text ∈ lines, text ≠ "" ∧ '\n' ∉ text.toList)
    {room : Nat}
    (few : lines.length ≤ room)
    {earlier result : List String}
    {bytes rest : List UInt8}
    (reads : Reads (readHeadFrom room earlier)
      (lines.flatMap lineOctets ++ bytes) result rest) :
    ∀ text ∈ lines, Whole text := by
  induction lines generalizing room earlier with
  | nil => exact List.forall_mem_nil _
  | cons text lines inductionHypothesis =>
      obtain ⟨⟨nonempty, oneLine⟩, others⟩ := List.forall_mem_cons.mp each
      cases room with
      | zero => exact absurd few (Nat.not_succ_le_zero _)
      | succ room =>
          rw [List.flatMap_cons, List.append_assoc, lineOctets,
            readHeadFrom_eq] at reads
          rcases Nat.lt_or_ge maxLine ((Text.octets text).length + 2) with
            exceeds | fits
          · have stops := Read.line_refuses oneLine exceeds
              (lines.flatMap lineOctets ++ bytes)
            exact absurd (stops.bind _) reads.not_refuses
          · obtain ⟨read, middle, first, second⟩ :=
              (Read.decided_line.reads_bind_iff
                (decided_afterLine_any (room + 1) earlier)).mp reads
            obtain ⟨rfl, rfl⟩ :=
              first.unique (Read.line_reads oneLine fits _)
            rw [afterLine_more nonempty] at second
            exact List.forall_mem_cons.mpr ⟨⟨nonempty, oneLine, fits⟩,
              inductionHypothesis others (Nat.le_of_succ_le_succ few) second⟩

/-- The lines of a head that is read are not blank and one line each, and no
more than there may be. -/
theorem of_readHeadFrom
    {room : Nat}
    {earlier lines : List String}
    {bytes rest : List UInt8}
    (reads : Reads (readHeadFrom room earlier) bytes lines rest) :
    ∃ more, lines = earlier ++ more ∧ more.length ≤ room ∧
      ∀ line ∈ more, line ≠ "" ∧ '\n' ∉ line.toList := by
  have nothing : ∃ more : List String, earlier = earlier ++ more ∧
      more.length ≤ room ∧ ∀ line ∈ more, line ≠ "" ∧ '\n' ∉ line.toList :=
    ⟨[], (List.append_nil earlier).symm, Nat.zero_le _,
      fun _ absent => absurd absent List.not_mem_nil⟩
  induction room generalizing earlier bytes with
  | zero =>
      rw [readHeadFrom_eq, Read.decided_line.reads_bind_iff
        (decided_afterLine_any 0 earlier)] at reads
      obtain ⟨read, middle, _, second⟩ := reads
      cases read with
      | none =>
          obtain ⟨rfl, _⟩ := second.unique (Fallible.reads_pure earlier middle)
          exact nothing
      | some text =>
          by_cases blank : text = ""
          · rw [blank, afterLine_blank] at second
            obtain ⟨rfl, _⟩ := second.unique (Fallible.reads_pure earlier middle)
            exact nothing
          · rw [afterLine_full blank] at second
            exact absurd (Fallible.refuses_fail _ middle) second.not_refuses
  | succ room inductionHypothesis =>
      rw [readHeadFrom_eq, Read.decided_line.reads_bind_iff
        (decided_afterLine_any (room + 1) earlier)] at reads
      obtain ⟨read, middle, first, second⟩ := reads
      cases read with
      | none =>
          obtain ⟨rfl, _⟩ := second.unique (Fallible.reads_pure earlier middle)
          exact nothing
      | some text =>
          by_cases blank : text = ""
          · rw [blank, afterLine_blank] at second
            obtain ⟨rfl, _⟩ := second.unique (Fallible.reads_pure earlier middle)
            exact nothing
          · rw [afterLine_more blank] at second
            obtain ⟨more, rfl, count, each⟩ := inductionHypothesis second
              ⟨[], (List.append_nil _).symm, Nat.zero_le _,
                fun _ absent => absurd absent List.not_mem_nil⟩
            refine ⟨text :: more, ?_, ?_, ?_⟩
            · rw [List.append_assoc, List.singleton_append]
            · rw [List.length_cons]
              exact Nat.succ_le_succ count
            · exact List.forall_mem_cons.mpr
                ⟨⟨blank, Read.oneLine_of_line first⟩, each⟩

theorem of_readHead
    {lines : List String}
    {bytes rest : List UInt8}
    (reads : Reads readHead bytes lines rest) :
    lines.length ≤ maxHeaders ∧
      ∀ line ∈ lines, line ≠ "" ∧ '\n' ∉ line.toList := by
  obtain ⟨more, same, count, each⟩ := of_readHeadFrom reads
  rw [List.nil_append] at same
  rw [same]
  exact ⟨count, each⟩

/-! ## Fields -/

/-- A field as its line. -/
def fieldLine (field : Pair) : String :=
  field.1 ++ ": " ++ field.2

/-- A field that is read as it is written: trimmed, on one line, its name
without a colon. -/
structure Plain (field : Pair) : Prop where
  name : Text.trim field.1 = field.1
  value : Text.trim field.2 = field.2
  noColon : ':' ∉ field.1.toList
  nameLine : '\n' ∉ field.1.toList
  valueLine : '\n' ∉ field.2.toList

theorem octets_fieldLine (field : Pair) :
    Text.octets (fieldLine field) =
      Text.octets field.1 ++ Text.octets ": " ++ Text.octets field.2 := by
  rw [fieldLine, Text.octets_append, Text.octets_append]

theorem writeFields_eq (head : String) (written : List Pair) :
    Text.octets (writeFields head written) =
      Text.octets head ++ (written.map fieldLine).flatMap lineOctets := by
  induction written generalizing head with
  | nil => exact (List.append_nil _).symm
  | cons field rest inductionHypothesis =>
      have ending : Text.octets "\r\n" = [13, 10] := rfl
      rw [writeFields, List.foldl_cons, ← writeFields, inductionHypothesis,
        List.map_cons, List.flatMap_cons, lineOctets, octets_fieldLine]
      simp only [Text.octets_append, List.append_assoc, ending]

theorem fieldLine_ne_empty (field : Pair) : fieldLine field ≠ "" := by
  intro empty
  have octets := octets_fieldLine field
  rw [empty] at octets
  exact absurd octets.symm (List.append_ne_nil_of_left_ne_nil
    (List.append_ne_nil_of_right_ne_nil _ (by decide)) _)

theorem lineFeed_mem_fieldLine_iff (field : Pair) :
    '\n' ∈ (fieldLine field).toList ↔
      '\n' ∈ field.1.toList ∨ '\n' ∈ field.2.toList := by
  have other : '\n' ∉ ": ".toList := by decide
  rw [fieldLine, String.toList_append, String.toList_append, List.mem_append,
    List.mem_append]
  constructor
  · rintro ((named | colon) | valued)
    · exact Or.inl named
    · exact absurd colon other
    · exact Or.inr valued
  · rintro (named | valued)
    · exact Or.inl (Or.inl named)
    · exact Or.inr valued

theorem oneLine_fieldLine
    {field : Pair}
    (plain : Plain field) :
    '\n' ∉ (fieldLine field).toList := by
  rw [lineFeed_mem_fieldLine_iff, not_or]
  exact ⟨plain.nameLine, plain.valueLine⟩

theorem splitOnce_fieldLine
    {field : Pair}
    (plain : Plain field) :
    Text.splitOnce (fieldLine field) ':' = some (field.1, " " ++ field.2) := by
  have line : fieldLine field =
      field.1 ++ String.singleton ':' ++ (" " ++ field.2) := by
    have colon : ": " = String.singleton ':' ++ " " := rfl
    rw [fieldLine, colon, String.append_assoc, String.append_assoc,
      String.append_assoc]
  rw [line, Text.splitOnce_append plain.noColon]

/-- Fields written as lines are read as those fields. -/
theorem fields_map_fieldLine
    {written : List Pair}
    (plain : ∀ field ∈ written, Plain field) :
    fields (written.map fieldLine) = written := by
  induction written with
  | nil => rfl
  | cons field rest inductionHypothesis =>
      obtain ⟨first, others⟩ := List.forall_mem_cons.mp plain
      have tail := inductionHypothesis others
      rw [fields] at tail ⊢
      rw [List.map_cons, List.filterMap_cons, splitOnce_fieldLine first]
      simp only [List.map_cons, tail, first.name, Text.trim_space_append,
        first.value]

theorem fields_append (first second : List String) :
    fields (first ++ second) = fields first ++ fields second := by
  rw [fields, fields, fields, List.filterMap_append, List.map_append]

/-- The name a field is read under: what it has before a colon of its own,
trimmed. -/
def readName (field : Pair) : String :=
  Text.trim (Text.before field.1 ':')

/-- A line is a field whatever its field holds. -/
theorem splitOnce_fieldLine_of_any (field : Pair) :
    ∃ value, Text.splitOnce (fieldLine field) ':' =
      some (Text.before field.1 ':', value) := by
  have characters : (fieldLine field).toList =
      field.1.toList ++ ':' :: ' ' :: field.2.toList := by
    rw [fieldLine, String.toList_append, String.toList_append,
      List.append_assoc]
    rfl
  have present : ':' ∈ (fieldLine field).toList := by
    rw [characters]
    exact List.mem_append_right _ List.mem_cons_self
  rw [Text.splitOnce, if_pos present, characters,
    Text.takeWhile_ne_append_cons]
  exact ⟨_, rfl⟩

/-- Fields whose names and values hold anything are read as as many, each under
the name it is read under. -/
theorem map_fst_fields (written : List Pair) :
    (fields (written.map fieldLine)).map Prod.fst = written.map readName := by
  induction written with
  | nil =>
      rw [fields, List.map_nil, List.filterMap_nil, List.map_nil, List.map_nil,
        List.map_nil]
  | cons field rest inductionHypothesis =>
      obtain ⟨value, splits⟩ := splitOnce_fieldLine_of_any field
      rw [fields] at inductionHypothesis ⊢
      rw [List.map_cons, List.filterMap_cons, splits]
      simp only [List.map_cons, inductionHypothesis]
      rfl

/-- Every field that is read could have been written. -/
theorem plain_of_mem_fields
    {lines : List String}
    (oneLine : ∀ line ∈ lines, '\n' ∉ line.toList)
    {field : Pair}
    (member : field ∈ fields lines) :
    Plain field := by
  rw [fields, List.mem_map] at member
  obtain ⟨⟨key, value⟩, split, rfl⟩ := member
  obtain ⟨line, present, once⟩ := List.mem_filterMap.mp split
  rw [Text.splitOnce] at once
  split at once
  next has =>
    simp only [Option.some.injEq, Prod.mk.injEq] at once
    obtain ⟨rfl, rfl⟩ := once
    have inLine := oneLine line present
    refine ⟨Text.trim_trim _, Text.trim_trim _, ?_, ?_, ?_⟩
    · intro member
      have kept := Text.mem_of_mem_trim member
      rw [String.toList_ofList] at kept
      have other := List.mem_takeWhile_imp kept
      exact absurd other (by decide)
    · intro member
      have kept := Text.mem_of_mem_trim member
      rw [String.toList_ofList] at kept
      exact inLine ((List.takeWhile_prefix _).subset kept)
    · intro member
      have kept := Text.mem_of_mem_trim member
      rw [String.toList_ofList] at kept
      exact inLine ((List.dropWhile_suffix _).subset (List.mem_of_mem_drop kept))
  · cases once

theorem length_fields_le (lines : List String) :
    (fields lines).length ≤ lines.length := by
  rw [fields, List.length_map]
  exact List.length_filterMap_le _ _

/-- A header looked up in a head is the one found among its fields. -/
theorem header_eq_find (lines : List String) (name : String) :
    header lines name = Http.find (fields (lines.drop 1)) name := by
  rw [header, Http.find, fields]
  generalize lines.drop 1 = rest
  induction rest with
  | nil => rfl
  | cons line rest inductionHypothesis =>
      rw [List.findSome?_cons]
      cases once : Text.splitOnce line ':' with
      | none =>
          rw [List.filterMap_cons, once]
          exact inductionHypothesis
      | some pair =>
          obtain ⟨key, value⟩ := pair
          rw [List.filterMap_cons, once]
          simp only [List.map_cons, List.find?_cons, Option.bind_some]
          by_cases same : Text.lowercase (Text.trim key) = Text.lowercase name
          · simp only [if_pos same, decide_eq_true same, Option.map_some]
          · simp only [if_neg same, decide_eq_false same]
            exact inductionHypothesis

end Head
end XmipNet

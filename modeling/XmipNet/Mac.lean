import XmipNet.Foundation.Joining
import XmipNet.NetError
import XmipNet.Words
import Mathlib.Data.List.Forall2

/-!
# A hardware address

An address is its octets in hexadecimal: read with colons or hyphens between
them, with points between two and two, or with nothing between them, in either
case, and written in one way. What is read is told exactly, and what is written
is read back.
-/

namespace XmipNet

/-- The hexadecimal codec the library is given. -/
structure Hex where
  encode : List UInt8 → String
  decode : String → Option (List UInt8)

namespace Hex

open Text (hexValue)

/-- These two digits, each in either case, hold an octet. -/
structure Holds (high low : Char) (octet : UInt8) : Prop where
  first : high.isHexDigit = true
  second : low.isHexDigit = true
  value : octet.toNat = 16 * hexValue high + hexValue low

/-- These characters spell these octets, two digits for each. -/
inductive Spelt : List Char → List UInt8 → Prop
  | nil : Spelt [] []
  | cons {high low : Char} {octet : UInt8} {rest : List Char}
      {octets : List UInt8}
      (holds : Holds high low octet)
      (others : Spelt rest octets) :
      Spelt (high :: low :: rest) (octet :: octets)

/-- The two small digits an octet is written in. -/
def pair (octet : UInt8) : List Char :=
  [Nat.digitChar (octet.toNat / 16), Nat.digitChar (octet.toNat % 16)]

/-- What the codec is documented to do: an octet is written in two small digits,
and what is read are pairs of digits in either case. -/
structure Lawful (hex : Hex) : Prop where
  encode_octet : ∀ octet, hex.encode [octet] = String.ofList (pair octet)
  decode_iff : ∀ text octets,
    hex.decode text = some octets ↔ Spelt text.toList octets

theorem small_of_mem_pair
    {octet : UInt8}
    {digit : Char}
    (member : digit ∈ pair octet) :
    digit ∈ Text.hexDigits := by
  have below := octet.toNat_lt
  rw [pair, List.mem_cons, List.mem_singleton] at member
  rcases member with rfl | rfl
  · exact List.mem_map_of_mem (List.mem_range.mpr (by omega))
  · exact List.mem_map_of_mem (List.mem_range.mpr (by omega))

theorem spelt_pair (octet : UInt8) : Spelt (pair octet) [octet] := by
  have below := octet.toNat_lt
  have digit {value : Nat} (small : value < 16) :
      (Nat.digitChar value).isHexDigit = true :=
    (Text.hexDigits_spec _ (List.mem_map_of_mem (List.mem_range.mpr small))).1
  refine .cons ⟨digit (by omega), digit (by omega), ?_⟩ .nil
  rw [Text.hexValue_digitChar _ (by omega), Text.hexValue_digitChar _ (by omega)]
  omega

theorem Spelt.isHexDigit
    {characters : List Char}
    {octets : List UInt8}
    (spelt : Spelt characters octets) :
    ∀ digit ∈ characters, digit.isHexDigit = true := by
  induction spelt with
  | nil => exact fun digit member => absurd member List.not_mem_nil
  | cons holds others inductionHypothesis =>
      exact List.forall_mem_cons.mpr ⟨holds.first,
        List.forall_mem_cons.mpr ⟨holds.second, inductionHypothesis⟩⟩

theorem Spelt.length
    {characters : List Char}
    {octets : List UInt8}
    (spelt : Spelt characters octets) :
    characters.length = 2 * octets.length := by
  induction spelt with
  | nil => rfl
  | cons holds others inductionHypothesis =>
      rw [List.length_cons, List.length_cons, List.length_cons,
        inductionHypothesis]
      omega

/-- Pairs of digits spell one sequence of octets. -/
theorem Spelt.unique
    {characters : List Char}
    {octets others : List UInt8}
    (spelt : Spelt characters octets)
    (also : Spelt characters others) :
    octets = others := by
  induction spelt generalizing others with
  | nil => cases also; rfl
  | cons holds rest inductionHypothesis =>
      cases also with
      | cons held more =>
          have same := UInt8.toNat_inj.mp (holds.value.trans held.value.symm)
          rw [same, inductionHypothesis more]

/-- Digits are as many octets as they are characters. -/
theorem Spelt.length_octets
    {text : String}
    {octets : List UInt8}
    (spelt : Spelt text.toList octets) :
    (Text.octets text).length = 2 * octets.length := by
  rw [Text.octets_eq, Utf8.length_encode_of_ascii, spelt.length]
  intro digit member
  have bounds := Text.isHexDigit_bounds (spelt.isHexDigit digit member)
  omega

end Hex

namespace Mac

open Hex (Lawful Spelt pair)
open Joining (Joined)

/-- An address as it is written: small digits, colons. -/
def notationOf (hex : Hex) (bytes : List UInt8) : String :=
  ":".intercalate (bytes.map fun byte => hex.encode [byte])

/-- The failure of a text that is no address. -/
def refused (text : String) : NetError :=
  .new s!"{Text.debug text} is not a hardware address"

/-- What stands between two octets. -/
def between (character : Char) : Bool :=
  character = ':' ∨ character = '-'

/-- What stands between two octets and the next two. -/
def dots (character : Char) : Bool :=
  character = '.'

/-- The groups of a text that is trimmed, and how long each must be. -/
def groupsOf (text : String) : List String × Nat :=
  if text.toList.any dots then
    ((text.toList.splitOnP dots).map String.ofList, 4)
  else if text.toList.any between then
    ((text.toList.splitOnP between).map String.ofList, 2)
  else
    ([text], (Text.octets text).length)

/-- The octets of groups that are each `width` long. -/
def decodeAll (hex : Hex) (text : String) (width : Nat) :
    List String → Except NetError (List UInt8)
  | [] => .ok []
  | group :: rest =>
      if (Text.octets group).length ≠ width then
        .error (refused text)
      else
        match hex.decode group with
        | none => .error (refused text)
        | some octets =>
            match decodeAll hex text width rest with
            | .error failed => .error failed
            | .ok others => .ok (octets ++ others)

/-- The octets that `text` names. -/
def parse (hex : Hex) (text : String) : Except NetError (List UInt8) :=
  let trimmed := Text.trim text
  let grouped := groupsOf trimmed
  if trimmed = "" then
    .error (refused trimmed)
  else
    decodeAll hex trimmed grouped.2 grouped.1

theorem decodeAll_eq_error
    {hex : Hex}
    {text : String}
    {width : Nat}
    {groups : List String}
    {failed : NetError}
    (fails : decodeAll hex text width groups = .error failed) :
    failed = refused text := by
  induction groups with
  | nil => cases fails
  | cons group groups inductionHypothesis =>
      rw [decodeAll] at fails
      split at fails
      · exact (Except.error.inj fails).symm
      · split at fails
        · exact (Except.error.inj fails).symm
        · split at fails
          next others =>
            rw [Except.error.inj fails] at others
            exact inductionHypothesis others
          · cases fails

/-- A text that is not read is refused by what is left of it. -/
theorem parse_eq_error
    {hex : Hex}
    {text : String}
    {failed : NetError}
    (fails : parse hex text = .error failed) :
    failed = refused (Text.trim text) := by
  simp only [parse] at fails
  by_cases empty : Text.trim text = ""
  · rw [if_pos empty] at fails
    exact (Except.error.inj fails).symm
  · rw [if_neg empty] at fails
    exact decodeAll_eq_error fails

/-! ## What is read -/

/-- Groups of `width` octets each, a mark between each two. -/
def Grouped
    (width : Nat)
    (marks : Char → Bool)
    (characters : List Char)
    (octets : List UInt8) : Prop :=
  ∃ parts chunks, Joined marks characters parts ∧
    List.Forall₂ Spelt parts chunks ∧
      (∀ chunk ∈ chunks, chunk.length = width) ∧ chunks.flatten = octets

/-- A text that names octets: their digits alone, one octet a group between
colons and hyphens, or two a group between points. -/
inductive Spelling (characters : List Char) (octets : List UInt8) : Prop
  | bare (nonempty : octets ≠ []) (digits : Spelt characters octets)
  | paired (groups : Grouped 1 between characters octets)
  | dotted (groups : Grouped 2 dots characters octets)

section Lawful

variable {hex : Hex} (lawful : Lawful hex)

include lawful

theorem decodeAll_eq_ok_iff
    {text : String}
    {width : Nat}
    {groups : List String}
    {octets : List UInt8} :
    decodeAll hex text width groups = .ok octets ↔
      ∃ chunks, List.Forall₂ Spelt (groups.map String.toList) chunks ∧
        (∀ chunk ∈ chunks, 2 * chunk.length = width) ∧
          chunks.flatten = octets := by
  induction groups generalizing octets with
  | nil =>
      constructor
      · rintro ⟨⟩
        exact ⟨[], .nil, fun chunk member => absurd member List.not_mem_nil, rfl⟩
      · rintro ⟨chunks, spelt, _, rfl⟩
        cases spelt
        rfl
  | cons group groups inductionHypothesis =>
      constructor
      · intro reads
        rw [decodeAll] at reads
        split at reads
        · cases reads
        next long =>
          split at reads
          · cases reads
          next first decoded =>
            split at reads
            · cases reads
            next others rest =>
              cases reads
              have spelt := (lawful.decode_iff group first).mp decoded
              obtain ⟨chunks, more, lengths, rfl⟩ :=
                inductionHypothesis.mp rest
              refine ⟨first :: chunks, .cons spelt more,
                List.forall_mem_cons.mpr ⟨?_, lengths⟩, rfl⟩
              rw [← spelt.length_octets]
              exact not_not.mp long
      · rintro ⟨chunks, spelt, lengths, rfl⟩
        cases spelt with
        | @cons _ first _ chunks spelt more =>
            obtain ⟨length, others⟩ := List.forall_mem_cons.mp lengths
            have decoded := (lawful.decode_iff group first).mpr spelt
            have long : ¬(Text.octets group).length ≠ width := by
              rw [spelt.length_octets]
              exact not_not.mpr length
            have rest := inductionHypothesis.mpr ⟨chunks, more, others, rfl⟩
            simp only [decodeAll, if_neg long, decoded, rest,
              List.flatten_cons]

/-- What a text is read as, by how it is taken apart. -/
theorem parse_eq_ok_iff
    {text : String}
    {octets : List UInt8} :
    parse hex text = .ok octets ↔
      Text.trim text ≠ "" ∧ ∃ chunks,
        List.Forall₂ Spelt ((groupsOf (Text.trim text)).1.map String.toList)
          chunks ∧
        (∀ chunk ∈ chunks, 2 * chunk.length = (groupsOf (Text.trim text)).2) ∧
          chunks.flatten = octets := by
  simp only [parse]
  by_cases empty : Text.trim text = ""
  · rw [if_pos empty]
    exact ⟨fun reads => (by cases reads), fun reads => absurd empty reads.1⟩
  · rw [if_neg empty, decodeAll_eq_ok_iff lawful]
    exact ⟨fun reads => ⟨empty, reads⟩, fun reads => reads.2⟩

end Lawful

/-- Parts that are spelled hold digits. -/
theorem isHexDigit_of_spelt
    {parts : List (List Char)}
    {chunks : List (List UInt8)}
    (spelt : List.Forall₂ Spelt parts chunks) :
    ∀ part ∈ parts, ∀ digit ∈ part, digit.isHexDigit = true := by
  induction spelt with
  | nil => exact fun part member => absurd member List.not_mem_nil
  | cons first others inductionHypothesis =>
      exact List.forall_mem_cons.mpr ⟨first.isHexDigit, inductionHypothesis⟩

theorem not_between_of_isHexDigit
    {digit : Char}
    (hexadecimal : digit.isHexDigit = true) :
    between digit = false := by
  have bounds := Text.isHexDigit_bounds hexadecimal
  refine decide_eq_false ?_
  rintro (rfl | rfl) <;> revert bounds <;> decide

theorem not_dots_of_isHexDigit
    {digit : Char}
    (hexadecimal : digit.isHexDigit = true) :
    dots digit = false := by
  have bounds := Text.isHexDigit_bounds hexadecimal
  refine decide_eq_false ?_
  rintro rfl
  revert bounds
  decide

/-- A text in groups holds digits and marks. -/
theorem Grouped.mem
    {width : Nat}
    {marks : Char → Bool}
    {characters : List Char}
    {octets : List UInt8}
    (grouped : Grouped width marks characters octets) :
    ∀ character ∈ characters,
      marks character = true ∨ character.isHexDigit = true := by
  obtain ⟨parts, chunks, joined, spelt, _, _⟩ := grouped
  intro character member
  rcases joined.mem member with mark | ⟨part, among, inside⟩
  · exact Or.inl mark
  · exact Or.inr (isHexDigit_of_spelt spelt part among character inside)

/-- A text in groups without marks is the digits of one group. -/
theorem Grouped.bare
    {width : Nat}
    {marks : Char → Bool}
    {characters : List Char}
    {octets : List UInt8}
    (grouped : Grouped width marks characters octets)
    (unmarked : characters.any marks = false) :
    Spelt characters octets ∧ octets.length = width := by
  obtain ⟨parts, chunks, joined, spelt, lengths, rfl⟩ := grouped
  have one := joined.eq_singleton fun item member => by
    rw [List.any_eq_false] at unmarked
    exact Bool.eq_false_iff.mpr (unmarked item member)
  subst one
  cases spelt with
  | cons first others =>
      cases others
      rw [List.flatten_cons, List.flatten_nil, List.append_nil]
      exact ⟨first, lengths _ List.mem_cons_self⟩

section Reading

variable {hex : Hex} (lawful : Lawful hex)

include lawful

/-- A text of groups whose marks are the ones it is cut at. -/
theorem parse_grouped
    {text : String}
    {octets : List UInt8}
    {width : Nat}
    {marks : Char → Bool}
    (some : Text.trim text ≠ "")
    (groups : groupsOf (Text.trim text) =
      (((Text.trim text).toList.splitOnP marks).map String.ofList, 2 * width)) :
    parse hex text = .ok octets ↔
      Grouped width marks (Text.trim text).toList octets := by
  have same : (((Text.trim text).toList.splitOnP marks).map
      String.ofList).map String.toList = (Text.trim text).toList.splitOnP marks := by
    rw [List.map_map]
    exact List.map_id'' (fun _ => String.toList_ofList) _
  rw [parse_eq_ok_iff lawful, groups, same]
  constructor
  · rintro ⟨_, chunks, spelt, lengths, whole⟩
    exact ⟨_, chunks, Joining.joined_iff.mpr rfl, spelt,
      fun chunk member => Nat.eq_of_mul_eq_mul_left (by decide)
        (lengths chunk member), whole⟩
  · rintro ⟨parts, chunks, joined, spelt, lengths, whole⟩
    rw [joined.splitOnP_eq]
    exact ⟨some, chunks, spelt, fun chunk member => by rw [lengths chunk member],
      whole⟩

/-- A text without marks is read as digits alone. -/
theorem parse_bare
    {text : String}
    {octets : List UInt8}
    (some : Text.trim text ≠ "")
    (groups : groupsOf (Text.trim text) =
      ([Text.trim text], (Text.octets (Text.trim text)).length)) :
    parse hex text = .ok octets ↔ Spelt (Text.trim text).toList octets := by
  rw [parse_eq_ok_iff lawful, groups]
  constructor
  · rintro ⟨_, chunks, spelt, _, rfl⟩
    obtain ⟨first, others, digits, none, rfl⟩ :=
      List.forall₂_cons_left_iff.mp spelt
    rw [List.forall₂_nil_left_iff.mp none, List.flatten_cons, List.flatten_nil,
      List.append_nil]
    exact digits
  · intro spelt
    refine ⟨some, [octets], .cons spelt .nil, ?_, List.append_nil octets⟩
    rw [List.forall_mem_singleton]
    exact spelt.length_octets.symm

omit lawful in
theorem Spelling.ne_empty
    {text : String}
    {octets : List UInt8}
    (spelling : Spelling text.toList octets) :
    text ≠ "" := by
  rintro rfl
  have grouped {width : Nat} {marks : Char → Bool}
      (groups : Grouped width marks [] octets) (positive : 0 < width) :
      False := by
    obtain ⟨spelt, length⟩ := groups.bare rfl
    cases spelt
    rw [List.length_nil] at length
    omega
  cases spelling with
  | bare nonempty digits =>
      cases digits
      exact nonempty rfl
  | paired groups => exact grouped groups (by decide)
  | dotted groups => exact grouped groups (by decide)

/-- A text is read as the octets it spells. -/
theorem parse_eq_ok_iff_spelling
    {text : String}
    {octets : List UInt8} :
    parse hex text = .ok octets ↔
      Spelling (Text.trim text).toList octets := by
  by_cases empty : Text.trim text = ""
  · rw [parse_eq_ok_iff lawful]
    exact ⟨fun reads => absurd empty reads.1,
      fun spelling => absurd empty spelling.ne_empty⟩
  cases pointed : (Text.trim text).toList.any dots with
  | true =>
      have groups : groupsOf (Text.trim text) =
          (((Text.trim text).toList.splitOnP dots).map String.ofList, 2 * 2) :=
        if_pos pointed
      rw [parse_grouped lawful empty groups]
      refine ⟨.dotted, fun spelling => ?_⟩
      obtain ⟨character, member, point⟩ := List.any_eq_true.mp pointed
      have dot : character = '.' := decide_eq_true_iff.mp point
      cases spelling with
      | bare nonempty digits =>
          have digit := digits.isHexDigit character member
          rw [not_dots_of_isHexDigit digit] at point
          cases point
      | paired groups =>
          rw [dot] at member
          rcases groups.mem '.' member with mark | digit
          · exact absurd mark (by decide)
          · exact absurd digit (by decide)
      | dotted groups => exact groups
  | false =>
      cases marked : (Text.trim text).toList.any between with
      | true =>
          have unpointed : ¬(Text.trim text).toList.any dots = true := by
            rw [pointed]
            exact Bool.false_ne_true
          have groups : groupsOf (Text.trim text) =
              (((Text.trim text).toList.splitOnP between).map String.ofList,
                2 * 1) :=
            (if_neg unpointed).trans (if_pos marked)
          rw [parse_grouped lawful empty groups]
          refine ⟨.paired, fun spelling => ?_⟩
          obtain ⟨character, member, mark⟩ := List.any_eq_true.mp marked
          have digits (spelt : Spelt (Text.trim text).toList octets) : False := by
            have digit := spelt.isHexDigit character member
            rw [not_between_of_isHexDigit digit] at mark
            cases mark
          cases spelling with
          | bare nonempty spelt => exact absurd spelt digits
          | paired groups => exact groups
          | dotted groups => exact absurd (groups.bare pointed).1 digits
      | false =>
          have groups : groupsOf (Text.trim text) =
              ([Text.trim text], (Text.octets (Text.trim text)).length) := by
            rw [groupsOf, pointed, marked]
            rfl
          rw [parse_bare lawful empty groups]
          constructor
          · intro digits
            refine .bare (fun none => empty ?_) digits
            rw [none] at digits
            cases length : (Text.trim text).toList with
            | nil => exact String.toList_eq_nil_iff.mp length
            | cons first rest =>
                rw [length] at digits
                cases digits
          · intro spelling
            cases spelling with
            | bare nonempty digits => exact digits
            | paired groups => exact (groups.bare marked).1
            | dotted groups => exact (groups.bare pointed).1

theorem toList_notationOf (octets : List UInt8) :
    (notationOf hex octets).toList = [':'].intercalate (octets.map pair) := by
  rw [notationOf, String.toList_intercalate, List.map_map]
  refine congrArg _ (List.map_congr_left fun octet _ => ?_)
  rw [Function.comp_apply, lawful.encode_octet, String.toList_ofList]

/-- What is written is octets with colons between them. -/
theorem grouped_notationOf
    {octets : List UInt8}
    (some : octets ≠ []) :
    Grouped 1 between (notationOf hex octets).toList octets := by
  refine ⟨octets.map pair, octets.map fun octet => [octet], ?_, ?_, ?_, ?_⟩
  · rw [toList_notationOf lawful]
    refine Joining.joined_intercalate rfl (by rwa [ne_eq, List.map_eq_nil_iff]) ?_
    intro part member digit among
    obtain ⟨octet, _, rfl⟩ := List.mem_map.mp member
    exact not_between_of_isHexDigit
      (Text.hexDigits_spec digit (Hex.small_of_mem_pair among)).1
  · rw [List.forall₂_map_left_iff, List.forall₂_map_right_iff, List.forall₂_same]
    exact fun octet _ => Hex.spelt_pair octet
  · intro chunk member
    obtain ⟨octet, _, rfl⟩ := List.mem_map.mp member
    rfl
  · exact List.flatMap_singleton' octets

end Reading

end Mac

/-! ## A codec that does what is documented -/

namespace Hex

/-- The octet of two digits. -/
def octetOf (high low : Char) : Option UInt8 :=
  if high.isHexDigit ∧ low.isHexDigit then
    some (.ofNat (16 * Text.hexValue high + Text.hexValue low))
  else
    none

/-- The octets of pairs of digits. -/
def octetsOf : List Char → Option (List UInt8)
  | [] => some []
  | [_] => none
  | high :: low :: rest =>
      match octetOf high low, octetsOf rest with
      | some octet, some octets => some (octet :: octets)
      | _, _ => none

/-- Small digits are written and digits of either case are read. -/
def usual : Hex where
  encode bytes := String.ofList (bytes.flatMap pair)
  decode text := octetsOf text.toList

theorem octetOf_eq_some_iff {high low : Char} {octet : UInt8} :
    octetOf high low = some octet ↔ Holds high low octet := by
  rw [octetOf]
  split
  next digits =>
    have small {digit : Char} (hexadecimal : digit.isHexDigit = true) :
        Text.hexValue digit < 16 := by
      have bounds := Text.isHexDigit_bounds hexadecimal
      rw [Text.hexValue]
      split
      next decimal =>
        have below := (Text.isDigit_iff digit).mp decimal
        omega
      · split <;> omega
    have first := small digits.1
    have second := small digits.2
    have value : (UInt8.ofNat (16 * Text.hexValue high +
        Text.hexValue low)).toNat =
        16 * Text.hexValue high + Text.hexValue low :=
      UInt8.toNat_ofNat_of_lt (by rw [UInt8.size]; omega)
    rw [Option.some_inj]
    constructor
    · rintro rfl
      exact ⟨digits.1, digits.2, value⟩
    · intro holds
      exact UInt8.toNat_inj.mp (value.trans holds.value.symm)
  next others =>
    refine ⟨fun none => (by cases none), fun holds => ?_⟩
    exact absurd ⟨holds.first, holds.second⟩ others

theorem octetsOf_eq_some_iff :
    ∀ {characters : List Char} {octets : List UInt8},
      octetsOf characters = some octets ↔ Spelt characters octets
  | [], octets => by
      constructor
      · rintro ⟨⟩
        exact .nil
      · rintro ⟨⟩
        rfl
  | [digit], octets =>
      ⟨fun none => (by cases none), fun spelt => (by cases spelt)⟩
  | high :: low :: rest, octets => by
      rw [octetsOf]
      constructor
      · intro reads
        split at reads
        next octet others first more =>
          cases reads
          exact .cons (octetOf_eq_some_iff.mp first)
            (octetsOf_eq_some_iff.mp more)
        · cases reads
      · intro spelt
        cases spelt with
        | cons holds others =>
            rw [octetOf_eq_some_iff.mpr holds, octetsOf_eq_some_iff.mpr others]

theorem lawful_usual : Lawful usual where
  encode_octet _ := congrArg String.ofList (List.append_nil _)
  decode_iff _ _ := octetsOf_eq_some_iff

end Hex

namespace Mac

end Mac
end XmipNet

import XmipNet.Foundation.Trimming
import XmipNet.Foundation.Utf8
import XmipNet.Text

/-!
# Words and numbers in a text

What the line-oriented readers ask of a text: the spaces taken off its ends, its
words, what comes before and after a character, and the numbers it spells. Each
comes with what it gives for the texts the writers write.
-/

namespace XmipNet
namespace Text

/-- The characters Unicode counts as white space. -/
def isWhitespace (character : Char) : Bool :=
  let code := character.toNat
  (9 ≤ code ∧ code ≤ 13) ∨ code = 0x20 ∨ code = 0x85 ∨ code = 0xA0 ∨
    code = 0x1680 ∨ (0x2000 ≤ code ∧ code ≤ 0x200A) ∨ code = 0x2028 ∨
    code = 0x2029 ∨ code = 0x202F ∨ code = 0x205F ∨ code = 0x3000

/-- `text` without the white space at its ends. -/
def trim (text : String) : String :=
  String.ofList (Trimming.trimmed isWhitespace text.toList)

/-- The words of `text`, white space between them. -/
def splitWhitespace (text : String) : List String :=
  ((text.toList.splitOnP isWhitespace).filter (· ≠ [])).map String.ofList

/-- What follows `start` in `text`, where it opens with it. -/
def stripPrefix (text start : String) : Option String :=
  if start.toList.isPrefixOf text.toList then
    some (String.ofList (text.toList.drop start.toList.length))
  else
    none

/-- What `text` has before its first `character`. -/
def before (text : String) (character : Char) : String :=
  String.ofList (text.toList.takeWhile (· ≠ character))

/-- Whether `text` is digits and nothing else. -/
def allDigits (text : String) : Bool :=
  text ≠ "" ∧ text.toList.all Char.isDigit

/-- Whether `text` is hexadecimal digits and nothing else. -/
def allHexDigits (text : String) : Bool :=
  text ≠ "" ∧ text.toList.all Char.isHexDigit

/-- The number a hexadecimal digit stands for. -/
def hexValue (digit : Char) : Nat :=
  if digit.isDigit then digit.toNat - 48
  else if 97 ≤ digit.toNat then digit.toNat - 87
  else digit.toNat - 55

/-- The number that hexadecimal digits hold. -/
def hexadecimal (digits : List Char) : Nat :=
  digits.foldl (fun value digit => value * 16 + hexValue digit) 0

/-- The number of `bits` bits that hexadecimal digits spell. -/
def parseHex (bits : Nat) (digits : String) : Option Nat :=
  if hexadecimal digits.toList < 2 ^ bits then
    some (hexadecimal digits.toList)
  else
    none

/-- `number` in hexadecimal digits. -/
def toHex (number : Nat) : String :=
  String.ofList (Nat.toDigits 16 number)

/-- What a check of each character shows of them all. -/
theorem forall_mem_of_all
    {characters : List Char}
    {property : Char → Prop}
    [DecidablePred property]
    (all : characters.all (fun character => property character) = true) :
    ∀ character ∈ characters, property character :=
  fun character member =>
    of_decide_eq_true (List.all_eq_true.mp all character member)

/-! ## Octets -/

theorem octets_eq (text : String) :
    octets text = Utf8.encode text.toList := by
  rw [← String.ofList_toList (s := text), octets_ofList, String.toList_ofList]
  rfl

/-- A text holds a line ending where its octets do. -/
theorem lineFeed_mem_octets_iff (text : String) :
    10 ∈ octets text ↔ '\n' ∈ text.toList := by
  rw [octets_eq]
  exact Utf8.mem_encode_iff rfl (by decide) text.toList

/-- A text holds a return where its octets do. -/
theorem return_mem_octets_iff (text : String) :
    13 ∈ octets text ↔ '\r' ∈ text.toList := by
  rw [octets_eq]
  exact Utf8.mem_encode_iff rfl (by decide) text.toList

theorem octets_eq_nil_iff (text : String) : octets text = [] ↔ text = "" := by
  constructor
  · intro empty
    exact octets_injective (empty.trans rfl)
  · rintro rfl
    rfl

/-! ## Capitals -/

theorem toNat_toLower (character : Char) :
    character.toLower.toNat =
      if 65 ≤ character.toNat ∧ character.toNat ≤ 90 then character.toNat + 32
      else character.toNat := by
  unfold Char.toLower
  split
  next capital =>
    have bounds : 65 ≤ character.toNat ∧ character.toNat ≤ 90 := capital
    have step : ('a'.val - 'A'.val).toNat = 32 := rfl
    have room : 90 + 32 < 2 ^ 32 := by decide
    have moved : (character.val + ('a'.val - 'A'.val)).toNat =
        character.toNat + 32 := by
      rw [UInt32.toNat_add, step]
      exact Nat.mod_eq_of_lt (Nat.lt_of_le_of_lt
        (Nat.add_le_add_right bounds.2 32) room)
    rw [if_pos bounds]
    exact moved
  next other =>
    exact (if_neg other).symm

theorem not_capital_of_mem_lowercase
    {text : String}
    {character : Char}
    (member : character ∈ (lowercase text).toList) :
    ¬(65 ≤ character.toNat ∧ character.toNat ≤ 90) := by
  rw [lowercase, String.toList_ofList, List.mem_map] at member
  obtain ⟨other, _, rfl⟩ := member
  rw [toNat_toLower]
  split <;> omega

/-- Small letters stay as they are. -/
@[simp] theorem lowercase_lowercase (text : String) :
    lowercase (lowercase text) = lowercase text := by
  have fixed : (lowercase text).toList.map Char.toLower =
      (lowercase text).toList.map id :=
    List.map_congr_left fun character member =>
      dif_neg (not_capital_of_mem_lowercase member)
  rw [lowercase, fixed, List.map_id, String.ofList_toList]

theorem lowercase_eq_empty_iff (text : String) :
    lowercase text = "" ↔ text = "" := by
  rw [lowercase, ← String.toList_eq_nil_iff, String.toList_ofList,
    List.map_eq_nil_iff, String.toList_eq_nil_iff]

theorem colon_mem_lowercase_iff (text : String) :
    ':' ∈ (lowercase text).toList ↔ ':' ∈ text.toList := by
  rw [lowercase, String.toList_ofList, List.mem_map]
  constructor
  · rintro ⟨character, member, small⟩
    have number := toNat_toLower character
    have colon : (':' : Char).toNat = 58 := rfl
    rw [small, colon] at number
    split at number
    · omega
    · rwa [← Char.toNat_inj.mp (number.symm.trans colon.symm)]
  · intro member
    exact ⟨':', member, rfl⟩

/-- A text of small letters has no capital among its octets. -/
theorem not_capital_of_mem_octets_lowercase
    {text : String}
    {octet : UInt8}
    (member : octet ∈ octets (lowercase text)) :
    ¬(65 ≤ octet.toNat ∧ octet.toNat ≤ 90) := by
  intro capital
  rw [octets_eq] at member
  obtain ⟨character, present, same⟩ :=
    Utf8.exists_of_mem_encode (by omega) member
  rw [← same] at capital
  exact not_capital_of_mem_lowercase present capital

/-! ## Trimming and splitting -/

theorem toList_trim (text : String) :
    (trim text).toList = Trimming.trimmed isWhitespace text.toList := by
  rw [trim, String.toList_ofList]

@[simp] theorem trim_trim (text : String) : trim (trim text) = trim text := by
  rw [trim, toList_trim, Trimming.trimmed_trimmed]
  rfl

theorem trim_space_append (text : String) : trim (" " ++ text) = trim text := by
  rw [trim, String.toList_append]
  exact congrArg String.ofList (Trimming.trimmed_cons_of_drops rfl text.toList)

theorem mem_of_mem_trim
    {text : String}
    {character : Char}
    (member : character ∈ (trim text).toList) :
    character ∈ text.toList := by
  rw [toList_trim] at member
  exact Trimming.mem_of_mem_trimmed member

/-- A text without white space is its own only word and needs no trimming. -/
theorem trim_of_forall
    {text : String}
    (kept : ∀ character ∈ text.toList, isWhitespace character = false) :
    trim text = text := by
  rw [trim, Trimming.trimmed_of_forall kept, String.ofList_toList]

/-- What comes before and after the first of a character. -/
theorem splitOnce_append
    {first : String}
    {character : Char}
    (absent : character ∉ first.toList)
    (rest : String) :
    splitOnce (first ++ String.singleton character ++ rest) character =
      some (first, rest) := by
  have characters : (first ++ String.singleton character ++ rest).toList =
      first.toList ++ character :: rest.toList := by
    rw [String.toList_append, String.toList_append, String.toList_singleton,
      List.append_assoc, List.singleton_append]
  have others : ∀ other ∈ first.toList, decide (other ≠ character) = true := by
    intro other member
    refine decide_eq_true fun same => absent ?_
    rwa [← same]
  have stops : ¬(fun other => decide (other ≠ character)) character = true := by
    rw [decide_eq_true_iff]
    exact not_not.mpr rfl
  simp only [splitOnce, characters]
  rw [if_pos (List.mem_append_right _ List.mem_cons_self),
    List.takeWhile_append_of_pos others, List.dropWhile_append_of_pos others,
    List.takeWhile_cons_of_neg (p := fun other => decide (other ≠ character))
      stops,
    List.dropWhile_cons_of_neg (p := fun other => decide (other ≠ character))
      stops,
    List.append_nil, String.ofList_toList, List.drop_one, List.tail_cons,
    String.ofList_toList]

theorem takeWhile_ne_append_cons
    (first : List Char)
    (character : Char)
    (rest : List Char) :
    (first ++ character :: rest).takeWhile (· ≠ character) =
      first.takeWhile (· ≠ character) := by
  induction first with
  | nil =>
      have stops : decide (character ≠ character) = false :=
        decide_eq_false (not_not.mpr rfl)
      rw [List.nil_append, List.takeWhile_cons, stops]
      rfl
  | cons other first inductionHypothesis =>
      rw [List.cons_append, List.takeWhile_cons, List.takeWhile_cons,
        inductionHypothesis]

theorem splitOnce_eq_none
    {text : String}
    {character : Char}
    (absent : character ∉ text.toList) :
    splitOnce text character = none := by
  rw [splitOnce, if_neg absent]

theorem stripPrefix_append (start rest : String) :
    stripPrefix (start ++ rest) start = some rest := by
  have opens : start.toList.isPrefixOf (start ++ rest).toList = true := by
    rw [String.toList_append, List.isPrefixOf_iff_prefix]
    exact List.prefix_append _ _
  rw [stripPrefix, if_pos opens, String.toList_append, List.drop_left,
    String.ofList_toList]

theorem isWhitespace_space : isWhitespace ' ' = true := by
  decide

/-- A text whose white space is one space after its first word splits there. -/
theorem splitWhitespace_append
    {word : String}
    (nonempty : word ≠ "")
    (kept : ∀ character ∈ word.toList, isWhitespace character = false)
    (rest : String) :
    splitWhitespace (word ++ " " ++ rest) = word :: splitWhitespace rest := by
  have characters : (word ++ " " ++ rest).toList =
      word.toList ++ ' ' :: rest.toList := by
    rw [String.toList_append, String.toList_append, List.append_assoc]
    rfl
  have present : decide (word.toList ≠ []) = true := by
    rw [decide_eq_true_iff, ne_eq, String.toList_eq_nil_iff]
    exact nonempty
  rw [splitWhitespace, characters,
    List.splitOnP_append_cons_of_forall_mem kept ' ' isWhitespace_space,
    List.filter_cons_of_pos (p := fun characters => decide (characters ≠ []))
      present,
    List.map_cons, String.ofList_toList]
  rfl

theorem splitWhitespace_of_forall
    {word : String}
    (nonempty : word ≠ "")
    (kept : ∀ character ∈ word.toList, isWhitespace character = false) :
    splitWhitespace word = [word] := by
  have present : decide (word.toList ≠ []) = true := by
    rw [decide_eq_true_iff, ne_eq, String.toList_eq_nil_iff]
    exact nonempty
  rw [splitWhitespace, List.splitOnP_eq_singleton kept,
    List.filter_cons_of_pos (p := fun characters => decide (characters ≠ []))
      present,
    List.filter_nil, List.map_singleton, String.ofList_toList]

/-! ## Numbers -/

theorem isDigit_iff (character : Char) :
    character.isDigit = true ↔
      48 ≤ character.toNat ∧ character.toNat ≤ 57 := by
  rw [Char.isDigit, Bool.and_eq_true, decide_eq_true_iff, decide_eq_true_iff,
    ge_iff_le, UInt32.le_iff_toNat_le, UInt32.le_iff_toNat_le]
  exact Iff.rfl

theorem decimal_toDigits (number : Nat) :
    decimal (Nat.toDigits 10 number) = number := by
  have spelled := Nat.ofDigitChars_ten_toDigits (n := number)
  rw [Nat.ofDigitChars_eq_foldl] at spelled
  rw [decimal]
  refine Eq.trans ?_ spelled
  congr 1
  funext value digit
  rw [Nat.mul_comm]
  rfl

theorem toList_toString (number : Nat) :
    (toString number).toList = Nat.toDigits 10 number := by
  rw [Nat.toString_eq_ofList_toDigits, String.toList_ofList]

theorem isDigit_of_mem_toString
    {number : Nat}
    {character : Char}
    (member : character ∈ (toString number).toList) :
    character.isDigit = true := by
  rw [toList_toString] at member
  exact Nat.isDigit_of_mem_toDigits (by decide) (by decide) member

theorem allDigits_toString (number : Nat) :
    allDigits (toString number) = true := by
  rw [allDigits, decide_eq_true_iff]
  refine ⟨?_, List.all_eq_true.mpr fun _ => isDigit_of_mem_toString⟩
  intro empty
  have digits := toList_toString number
  rw [empty] at digits
  exact Nat.toDigits_ne_nil digits.symm

/-- A number is read back from its decimal digits. -/
theorem parseUnsigned_toString
    {bits number : Nat}
    (fits : number < 2 ^ bits) :
    parseUnsigned bits (toString number) = some number := by
  have digits := toList_toString number
  have all := allDigits_toString number
  rw [allDigits, decide_eq_true_iff, digits] at all
  simp only [parseUnsigned, digits]
  split
  next rest split =>
    rw [split] at all
    exact absurd (List.all_eq_true.mp all.2 '+' List.mem_cons_self) (by decide)
  next =>
    rw [decimal_toDigits, if_pos ⟨Nat.toDigits_ne_nil, all.2, fits⟩]

/-- A number is read from digits, or from a plus sign and digits. -/
theorem parseUnsigned_eq_some_iff {bits number : Nat} {text : String} :
    parseUnsigned bits text = some number ↔
      ∃ digits, (text = digits ∨ text = "+" ++ digits) ∧
        allDigits digits = true ∧ decimal digits.toList = number ∧
          number < 2 ^ bits := by
  have reads : ∀ characters : List Char,
      (if characters ≠ [] ∧ characters.all Char.isDigit ∧
          decimal characters < 2 ^ bits then
        some (decimal characters)
      else
        none) = some number ↔
      allDigits (String.ofList characters) = true ∧
        decimal characters = number ∧ number < 2 ^ bits := by
    intro characters
    have filled : String.ofList characters ≠ "" ↔ characters ≠ [] := by
      rw [ne_eq, ← String.toList_eq_nil_iff, String.toList_ofList]
    rw [allDigits, decide_eq_true_iff, String.toList_ofList, filled,
      Option.ite_none_right_eq_some]
    constructor
    · rintro ⟨⟨nonempty, all, small⟩, same⟩
      obtain rfl := Option.some.inj same
      exact ⟨⟨nonempty, all⟩, rfl, small⟩
    · rintro ⟨⟨nonempty, all⟩, rfl, small⟩
      exact ⟨⟨nonempty, all, small⟩, rfl⟩
  simp only [parseUnsigned]
  split
  next rest signed =>
    rw [reads]
    have whole : text = "+" ++ String.ofList rest := by
      rw [← String.toList_inj, signed, String.toList_append]
      exact congrArg ('+' :: ·) String.toList_ofList.symm
    constructor
    · intro holds
      refine ⟨String.ofList rest, Or.inr whole, holds.1, ?_, holds.2.2⟩
      rw [String.toList_ofList]
      exact holds.2.1
    · rintro ⟨digits, rfl | same, all, value, small⟩
      · rw [allDigits, decide_eq_true_iff, signed] at all
        exact absurd (List.all_eq_true.mp all.2 '+' List.mem_cons_self)
          (by decide)
      · rw [whole] at same
        rw [String.append_right_inj] at same
        rw [same]
        refine ⟨all, ?_, small⟩
        rwa [← same, String.toList_ofList] at value
  next characters unsigned =>
    rw [reads, String.ofList_toList]
    constructor
    · intro holds
      exact ⟨text, Or.inl rfl, holds⟩
    · rintro ⟨digits, rfl | rfl, all, value, small⟩
      · exact ⟨all, value, small⟩
      · refine absurd ?_ (unsigned digits.toList)
        rw [String.toList_append]
        rfl

/-- Digits alone that are read as a number are that number. -/
theorem decimal_of_parseUnsigned
    {bits number : Nat}
    {text : String}
    (digits : allDigits text = true)
    (reads : parseUnsigned bits text = some number) :
    decimal text.toList = number := by
  obtain ⟨written, rfl | rfl, _, same, _⟩ := parseUnsigned_eq_some_iff.mp reads
  · exact same
  · rw [allDigits, decide_eq_true_eq, String.toList_append] at digits
    have sign := List.all_eq_true.mp digits.2 '+'
      (List.mem_append_left _ (by decide))
    cases sign

theorem ascii_of_isDigit
    {character : Char}
    (digit : character.isDigit = true) :
    character.toNat < 128 := by
  have bounds := (isDigit_iff character).mp digit
  omega

theorem length_octets_toString (number : Nat) :
    (octets (toString number)).length = (Nat.toDigits 10 number).length := by
  rw [octets_eq, Utf8.length_encode_of_ascii fun character member =>
    ascii_of_isDigit (isDigit_of_mem_toString member), toList_toString]

/-- A number takes three octets exactly from 100 to 999. -/
theorem length_octets_toString_eq_three_iff (number : Nat) :
    (octets (toString number)).length = 3 ↔ 100 ≤ number ∧ number ≤ 999 := by
  have three := Nat.length_toDigits_le_iff (n := number) (k := 3)
    (b := 10) (by decide) (by decide)
  have two := Nat.length_toDigits_le_iff (n := number) (k := 2)
    (b := 10) (by decide) (by decide)
  rw [length_octets_toString]
  omega

theorem isHexDigit_bounds
    {digit : Char}
    (hexadecimal : digit.isHexDigit = true) :
    48 ≤ digit.toNat ∧ digit.toNat ≤ 57 ∨ 97 ≤ digit.toNat ∧ digit.toNat ≤ 102 ∨
      65 ≤ digit.toNat ∧ digit.toNat ≤ 70 := by
  rw [Char.isHexDigit, Bool.or_eq_true, Bool.or_eq_true, isDigit_iff,
    Bool.and_eq_true, Bool.and_eq_true] at hexadecimal
  simp only [decide_eq_true_iff, ge_iff_le, UInt32.le_iff_toNat_le]
    at hexadecimal
  rcases hexadecimal with (decimal | small) | capital
  · exact Or.inl decimal
  · exact Or.inr (Or.inl small)
  · exact Or.inr (Or.inr capital)

/-- The digits hexadecimal numbers are written in. -/
def hexDigits : List Char :=
  (List.range 16).map Nat.digitChar

theorem mem_hexDigits_of_mem_toDigits
    {number : Nat}
    {character : Char}
    (member : character ∈ Nat.toDigits 16 number) :
    character ∈ hexDigits := by
  induction number using Nat.strongRecOn with
  | ind number inductionHypothesis =>
      have digit : ∀ value < 16, Nat.digitChar value ∈ hexDigits := fun value small =>
        List.mem_map_of_mem (List.mem_range.mpr small)
      by_cases small : number < 16
      · rw [Nat.toDigits_of_lt_base small, List.mem_singleton] at member
        rw [member]
        exact digit number small
      · rw [Nat.toDigits_of_base_le (by decide) (not_lt.mp small),
          List.mem_append, List.mem_singleton] at member
        rcases member with earlier | rfl
        · exact inductionHypothesis (number / 16) (by omega) earlier
        · exact digit _ (Nat.mod_lt _ (by decide))

theorem hexDigits_spec :
    ∀ digit ∈ hexDigits, digit.isHexDigit = true ∧
      isWhitespace digit = false ∧ digit ≠ ';' ∧ digit ≠ '\n' ∧
        digit.toNat < 128 :=
  forall_mem_of_all (by decide)

theorem hexValue_digitChar : ∀ value < 16, hexValue (Nat.digitChar value) = value := by
  decide

theorem hexadecimal_append_singleton (digits : List Char) (digit : Char) :
    hexadecimal (digits ++ [digit]) =
      hexadecimal digits * 16 + hexValue digit := by
  rw [hexadecimal, List.foldl_append]
  rfl

theorem hexadecimal_toDigits (number : Nat) :
    hexadecimal (Nat.toDigits 16 number) = number := by
  induction number using Nat.strongRecOn with
  | ind number inductionHypothesis =>
      by_cases small : number < 16
      · rw [Nat.toDigits_of_lt_base small]
        exact (Nat.zero_add _).trans (hexValue_digitChar number small)
      · rw [Nat.toDigits_of_base_le (by decide) (not_lt.mp small),
          hexadecimal_append_singleton,
          inductionHypothesis (number / 16) (by omega),
          hexValue_digitChar _ (Nat.mod_lt _ (by decide))]
        omega

/-- The first digit of a number other than zero is not zero. -/
theorem toDigits_eq_cons
    {number : Nat}
    (positive : number ≠ 0) :
    ∃ digit rest, Nat.toDigits 16 number = digit :: rest ∧
      hexValue digit ≠ 0 := by
  induction number using Nat.strongRecOn with
  | ind number inductionHypothesis =>
      by_cases small : number < 16
      · refine ⟨_, [], Nat.toDigits_of_lt_base small, ?_⟩
        rw [hexValue_digitChar number small]
        exact positive
      · obtain ⟨digit, rest, digits, nonzero⟩ :=
          inductionHypothesis (number / 16) (by omega) (by omega)
        refine ⟨digit, rest ++ [(number % 16).digitChar], ?_, nonzero⟩
        rw [Nat.toDigits_of_base_le (by decide) (not_lt.mp small), digits,
          List.cons_append]

theorem hexadecimal_cons_ne_zero
    {digit : Char}
    (nonzero : hexValue digit ≠ 0)
    (rest : List Char) :
    hexadecimal (digit :: rest) ≠ 0 := by
  have grows : ∀ (rest : List Char) (value : Nat), value ≠ 0 →
      rest.foldl (fun value digit => value * 16 + hexValue digit) value ≠ 0 := by
    intro rest
    induction rest with
    | nil => exact fun _ => id
    | cons digit rest inductionHypothesis =>
        intro value positive
        rw [List.foldl_cons]
        exact inductionHypothesis _ (by omega)
  rw [hexadecimal, List.foldl_cons]
  exact grows rest _ (by omega)

theorem toList_toHex (number : Nat) :
    (toHex number).toList = Nat.toDigits 16 number := by
  rw [toHex, String.toList_ofList]

theorem toHex_ne_empty (number : Nat) : toHex number ≠ "" := by
  intro empty
  have digits := toList_toHex number
  rw [empty] at digits
  exact Nat.toDigits_ne_nil digits.symm

theorem toHex_spec
    {number : Nat}
    {character : Char}
    (member : character ∈ (toHex number).toList) :
    character.isHexDigit = true ∧ isWhitespace character = false ∧
      character ≠ ';' ∧ character ≠ '\n' ∧ character.toNat < 128 := by
  rw [toList_toHex] at member
  exact hexDigits_spec character (mem_hexDigits_of_mem_toDigits member)

theorem allHexDigits_toHex (number : Nat) : allHexDigits (toHex number) = true := by
  rw [allHexDigits, decide_eq_true_iff]
  exact ⟨toHex_ne_empty number,
    List.all_eq_true.mpr fun _ member => (toHex_spec member).1⟩

/-- A number is read back from its hexadecimal digits. -/
theorem parseHex_toHex
    {bits number : Nat}
    (fits : number < 2 ^ bits) :
    parseHex bits (toHex number) = some number := by
  rw [parseHex, toList_toHex, hexadecimal_toDigits, if_pos fits]

theorem length_octets_toHex (number : Nat) :
    (octets (toHex number)).length = (Nat.toDigits 16 number).length := by
  rw [octets_eq, Utf8.length_encode_of_ascii fun character member =>
    (toHex_spec member).2.2.2.2, toList_toHex]

end Text
end XmipNet

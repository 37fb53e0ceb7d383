import XmipNet.Foundation.Splitting
import XmipNet.NetError
import XmipNet.Words

/-!
# Texts taken apart

A text is sliced at a place counted in octets, which panics where no character
ends there or the text is shorter; and it is split at the first or the last of a
character, or where another text first begins. Put together again, the parts are
the text.
-/

namespace XmipNet

/-- Why reading a text ended without a value: it panicked, or it refused the
text. -/
inductive Halt
  | panicked
  | refused (error : NetError)
  deriving DecidableEq, Repr

namespace Halt

variable {α : Type}

/-- An outcome whose refusal is no value; a panic goes on. -/
def ok : Except Halt α → Except Halt (Option α)
  | .ok value => .ok (some value)
  | .error (.refused _) => .ok none
  | .error .panicked => .error .panicked

/-- A refusal told otherwise; a panic goes on. -/
def mapRefused (tell : NetError → NetError) :
    Except Halt α → Except Halt α
  | .ok value => .ok value
  | .error (.refused error) => .error (.refused (tell error))
  | .error .panicked => .error .panicked

end Halt

namespace Text

/-- The octets a text takes. -/
def size (text : String) : Nat :=
  (octets text).length

/-- A number less another, which panics where it is not as much. -/
def minus (whole part : Nat) : Except Halt Nat :=
  if part ≤ whole then .ok (whole - part) else .error .panicked

/-- Characters before and after their first `place` octets, where one ends
there. -/
def cutOctets : List Char → Nat → Option (List Char × List Char)
  | characters, 0 => some ([], characters)
  | [], _ + 1 => none
  | character :: rest, place + 1 =>
      if character.utf8Size ≤ place + 1 then
        (cutOctets rest (place + 1 - character.utf8Size)).map fun parts =>
          (character :: parts.1, parts.2)
      else
        none

/-- The first `place` octets of `text`. -/
def sliceTo (text : String) (place : Nat) : Except Halt String :=
  match cutOctets text.toList place with
  | some (first, _) => .ok (String.ofList first)
  | none => .error .panicked

/-- `text` past its first `place` octets. -/
def sliceFrom (text : String) (place : Nat) : Except Halt String :=
  match cutOctets text.toList place with
  | some (_, rest) => .ok (String.ofList rest)
  | none => .error .panicked

/-- `text` before and after its last `character`, where it has one. -/
def rsplitOnce (text : String) (character : Char) : Option (String × String) :=
  let reversed := text.toList.reverse
  if character ∈ reversed then
    some (
      String.ofList ((reversed.dropWhile (· ≠ character)).drop 1).reverse,
      String.ofList (reversed.takeWhile (· ≠ character)).reverse)
  else
    none

/-- `text` before and after the first place where `pattern` is. -/
def splitOnceAt (text pattern : String) : Option (String × String) :=
  (Splitting.cutAt pattern.toList text.toList).map fun parts =>
    (String.ofList parts.1, String.ofList parts.2)

/-- Whether `pattern` is in `text`. -/
def contains (text pattern : String) : Bool :=
  (Splitting.cutAt pattern.toList text.toList).isSome

/-- The parts of `text` between each `character`. -/
def split (text : String) (character : Char) : List String :=
  (text.toList.splitOn character).map String.ofList

/-! ## Slices -/

theorem size_append (first second : String) :
    size (first ++ second) = size first + size second := by
  rw [size, octets_append, List.length_append, size, size]

theorem minus_eq_ok
    {whole part : Nat}
    (enough : part ≤ whole) :
    minus whole part = .ok (whole - part) :=
  if_pos enough

theorem cutOctets_encode (first rest : List Char) :
    cutOctets (first ++ rest) (Utf8.encode first).length =
      some (first, rest) := by
  induction first with
  | nil => rw [Utf8.encode_nil, List.length_nil, List.nil_append, cutOctets]
  | cons character first inductionHypothesis =>
      have positive := Char.utf8Size_pos character
      obtain ⟨place, same⟩ : ∃ place, character.utf8Size +
          (Utf8.encode first).length = place + 1 :=
        Nat.exists_eq_succ_of_ne_zero (by omega)
      have fits : character.utf8Size ≤ place + 1 := by omega
      have left : place + 1 - character.utf8Size =
          (Utf8.encode first).length := by omega
      rw [Utf8.encode_cons, List.length_append, String.length_utf8EncodeChar,
        same, List.cons_append, cutOctets, if_pos fits, left,
        inductionHypothesis]
      rfl

theorem cutOctets_append (first rest : String) :
    cutOctets (first ++ rest).toList (size first) =
      some (first.toList, rest.toList) := by
  rw [String.toList_append, size, octets_eq]
  exact cutOctets_encode first.toList rest.toList

/-- A text sliced where a part of it ends gives that part. -/
theorem sliceTo_append (first rest : String) :
    sliceTo (first ++ rest) (size first) = .ok first := by
  rw [sliceTo, cutOctets_append]
  exact congrArg Except.ok String.ofList_toList

theorem sliceFrom_append (first rest : String) :
    sliceFrom (first ++ rest) (size first) = .ok rest := by
  rw [sliceFrom, cutOctets_append]
  exact congrArg Except.ok String.ofList_toList

/-! ## Splits -/

theorem toList_append_singleton_append
    (first : String)
    (character : Char)
    (rest : String) :
    (first ++ String.singleton character ++ rest).toList =
      first.toList ++ character :: rest.toList := by
  rw [String.toList_append, String.toList_append, String.toList_singleton,
    List.append_assoc, List.singleton_append]

/-- What is before and after the first of a character. -/
theorem splitOnce_eq_some_iff
    {text first rest : String}
    {character : Char} :
    splitOnce text character = some (first, rest) ↔
      text = first ++ String.singleton character ++ rest ∧
        character ∉ first.toList := by
  constructor
  · intro splits
    rw [splitOnce] at splits
    split at splits
    next present =>
      simp only [Option.some.injEq, Prod.mk.injEq] at splits
      obtain ⟨rfl, rfl⟩ := splits
      constructor
      · rw [← String.toList_inj, toList_append_singleton_append,
          String.toList_ofList, String.toList_ofList]
        exact (Splitting.takeWhile_append_dropWhile present).symm
      · rw [String.toList_ofList]
        exact Splitting.not_mem_takeWhile character text.toList
    · cases splits
  · rintro ⟨rfl, absent⟩
    exact splitOnce_append absent rest

theorem splitOnce_eq_none_iff {text : String} {character : Char} :
    splitOnce text character = none ↔ character ∉ text.toList := by
  constructor
  · intro none present
    rw [splitOnce, if_pos present] at none
    cases none
  · exact splitOnce_eq_none

/-- What is before and after the last of a character. -/
theorem rsplitOnce_eq_some_iff
    {text first rest : String}
    {character : Char} :
    rsplitOnce text character = some (first, rest) ↔
      text = first ++ String.singleton character ++ rest ∧
        character ∉ rest.toList := by
  constructor
  · intro splits
    rw [rsplitOnce] at splits
    split at splits
    next present =>
      simp only [Option.some.injEq, Prod.mk.injEq] at splits
      obtain ⟨rfl, rfl⟩ := splits
      constructor
      · have whole := congrArg List.reverse
          (Splitting.takeWhile_append_dropWhile present)
        rw [List.reverse_reverse, List.reverse_append, List.reverse_cons,
          List.append_assoc, List.singleton_append] at whole
        rw [← String.toList_inj, toList_append_singleton_append,
          String.toList_ofList, String.toList_ofList]
        exact whole.symm
      · rw [String.toList_ofList, List.mem_reverse]
        exact Splitting.not_mem_takeWhile character text.toList.reverse
    · cases splits
  · rintro ⟨rfl, absent⟩
    have reversed : (first ++ String.singleton character ++ rest).toList.reverse
        = rest.toList.reverse ++ character :: first.toList.reverse := by
      rw [toList_append_singleton_append, List.reverse_append,
        List.reverse_cons, List.append_assoc, List.singleton_append]
    have missing : character ∉ rest.toList.reverse := by
      rwa [List.mem_reverse]
    have present : character ∈
        rest.toList.reverse ++ character :: first.toList.reverse :=
      List.mem_append_right _ List.mem_cons_self
    obtain ⟨earlier, later⟩ := (Splitting.append_cons_inj
      (Splitting.not_mem_takeWhile character _) missing).mp
      (Splitting.takeWhile_append_dropWhile present)
    simp only [rsplitOnce, reversed]
    rw [if_pos present, earlier, later, List.reverse_reverse,
      List.reverse_reverse, String.ofList_toList, String.ofList_toList]

theorem rsplitOnce_eq_none_iff {text : String} {character : Char} :
    rsplitOnce text character = none ↔ character ∉ text.toList := by
  constructor
  · intro none present
    rw [rsplitOnce, if_pos (List.mem_reverse.mpr present)] at none
    cases none
  · intro absent
    rw [rsplitOnce, if_neg (mt List.mem_reverse.mp absent)]

/-! ## How a text opens -/

theorem opensWith_append
    {first : String}
    (nonempty : first ≠ "")
    (rest : String)
    (character : Char) :
    opensWith (first ++ rest) character = opensWith first character := by
  obtain ⟨head, tail, same⟩ := List.exists_cons_of_ne_nil
    (mt String.toList_eq_nil_iff.mp nonempty)
  rw [opensWith, opensWith, String.toList_append, same, List.cons_append,
    List.head?_cons, List.head?_cons]

theorem opensWith_singleton_append (character : Char) (rest : String) :
    opensWith (String.singleton character ++ rest) character = true := by
  rw [opensWith, String.toList_append, String.toList_singleton,
    List.singleton_append, List.head?_cons]
  exact decide_eq_true rfl

/-- A text that opens with a character is it and the rest. -/
theorem exists_of_opensWith
    {text : String}
    {character : Char}
    (opens : opensWith text character = true) :
    ∃ rest, text = String.singleton character ++ rest := by
  rw [opensWith, decide_eq_true_iff, List.head?_eq_some_iff] at opens
  obtain ⟨tail, same⟩ := opens
  refine ⟨String.ofList tail, ?_⟩
  rw [← String.toList_inj, String.toList_append, String.toList_singleton,
    String.toList_ofList, List.singleton_append, same]

theorem mem_of_opensWith
    {text : String}
    {character : Char}
    (opens : opensWith text character = true) :
    character ∈ text.toList := by
  rw [opensWith, decide_eq_true_iff] at opens
  exact List.mem_of_mem_head? opens

theorem stripPrefix_eq_some_iff {text start rest : String} :
    stripPrefix text start = some rest ↔ text = start ++ rest := by
  constructor
  · intro strips
    rw [stripPrefix] at strips
    split at strips
    next opens =>
      obtain ⟨tail, same⟩ := List.isPrefixOf_iff_prefix.mp opens
      obtain rfl := Option.some.inj strips
      rw [← String.toList_inj, String.toList_append, String.toList_ofList,
        ← same, List.drop_left]
    · cases strips
  · rintro rfl
    exact stripPrefix_append start rest

theorem stripPrefix_eq_none
    {text : String}
    {character : Char}
    (closed : opensWith text character = false) :
    stripPrefix text (String.singleton character) = none := by
  cases strips : stripPrefix text (String.singleton character) with
  | none => rfl
  | some rest =>
      rw [stripPrefix_eq_some_iff.mp strips,
        opensWith_singleton_append] at closed
      cases closed

/-- What is before and after the first place where a text is. -/
theorem of_splitOnceAt
    {text pattern first rest : String}
    (splits : splitOnceAt text pattern = some (first, rest)) :
    text = first ++ pattern ++ rest := by
  rw [splitOnceAt] at splits
  obtain ⟨parts, cuts, same⟩ := Option.map_eq_some_iff.mp splits
  obtain ⟨rfl, rfl⟩ := Prod.mk.inj same
  rw [← String.toList_inj, String.toList_append, String.toList_append,
    String.toList_ofList, String.toList_ofList]
  exact Splitting.of_cutAt cuts

theorem contains_eq_isSome (text pattern : String) :
    contains text pattern = (splitOnceAt text pattern).isSome := by
  rw [splitOnceAt, Option.isSome_map]
  rfl

/-- A text is split where a part that does not hold the pattern's first
character ends. -/
theorem splitOnceAt_append
    {first : String}
    {character : Char}
    (absent : character ∉ first.toList)
    (tail rest : String) :
    splitOnceAt (first ++ (String.singleton character ++ tail) ++ rest)
        (String.singleton character ++ tail) =
      some (first, rest) := by
  have pattern : (String.singleton character ++ tail).toList =
      character :: tail.toList := by
    rw [String.toList_append, String.toList_singleton, List.singleton_append]
  have whole : (first ++ (String.singleton character ++ tail) ++ rest).toList =
      first.toList ++ character :: tail.toList ++ rest.toList := by
    rw [← pattern, String.toList_append, String.toList_append]
  rw [splitOnceAt, whole, pattern, Splitting.cutAt_append_of_not_mem absent,
    Option.map_some, String.ofList_toList, String.ofList_toList]

end Text
end XmipNet

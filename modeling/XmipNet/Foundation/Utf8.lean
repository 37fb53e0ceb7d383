import Mathlib.Data.List.Basic
import Mathlib.Tactic.Common

/-!
# The octets of characters

UTF-8 writes a character below 128 as the octet of that number and every other
character in octets from 128 on, so an octet below 128 among the octets of some
characters stands for the character of its own number and nothing else.
-/

namespace XmipNet
namespace Utf8

/-- The octets of some characters. -/
def encode (characters : List Char) : List UInt8 :=
  characters.flatMap String.utf8EncodeChar

@[simp] theorem encode_nil : encode [] = [] := rfl

theorem encode_cons (character : Char) (rest : List Char) :
    encode (character :: rest) =
      String.utf8EncodeChar character ++ encode rest :=
  List.flatMap_cons

theorem encodeChar_ascii
    {character : Char}
    (ascii : character.toNat < 128) :
    String.utf8EncodeChar character = [UInt8.ofNat character.toNat] := by
  unfold String.utf8EncodeChar
  rw [if_pos (by rw [← Char.toNat]; omega)]
  rfl

theorem le_toNat_ofNat
    {number : Nat}
    (high : 128 ≤ number)
    (fits : number < 256) :
    128 ≤ (UInt8.ofNat number).toNat := by
  rwa [UInt8.toNat_ofNat_of_lt' fits]

theorem le_of_mem_encodeChar
    {character : Char}
    (wide : 128 ≤ character.toNat)
    {octet : UInt8}
    (member : octet ∈ String.utf8EncodeChar character) :
    128 ≤ octet.toNat := by
  unfold String.utf8EncodeChar at member
  rw [if_neg (by rw [← Char.toNat]; omega)] at member
  split at member
  · simp only [List.mem_cons, List.not_mem_nil, or_false] at member
    rcases member with rfl | rfl <;> exact le_toNat_ofNat (by omega) (by omega)
  · split at member
    · simp only [List.mem_cons, List.not_mem_nil, or_false] at member
      rcases member with rfl | rfl | rfl <;>
        exact le_toNat_ofNat (by omega) (by omega)
    · simp only [List.mem_cons, List.not_mem_nil, or_false] at member
      rcases member with rfl | rfl | rfl | rfl <;>
        exact le_toNat_ofNat (by omega) (by omega)

/-- An octet below 128 is there for a character of its number. -/
theorem exists_of_mem_encode
    {octet : UInt8}
    (ascii : octet.toNat < 128)
    {characters : List Char}
    (member : octet ∈ encode characters) :
    ∃ character ∈ characters, character.toNat = octet.toNat := by
  obtain ⟨character, present, written⟩ := List.mem_flatMap.mp member
  by_cases wide : 128 ≤ character.toNat
  · exact absurd (le_of_mem_encodeChar wide written) (Nat.not_le.mpr ascii)
  · rw [encodeChar_ascii (Nat.not_le.mp wide), List.mem_singleton] at written
    have fits : character.toNat < UInt8.size :=
      Nat.lt_trans (Nat.not_le.mp wide) (by decide)
    refine ⟨character, present, ?_⟩
    rw [written, UInt8.toNat_ofNat_of_lt' fits]

/-- An octet below 128 stands for the character of its number. -/
theorem mem_encode_iff
    {octet : UInt8}
    {character : Char}
    (same : octet.toNat = character.toNat)
    (ascii : octet.toNat < 128)
    (characters : List Char) :
    octet ∈ encode characters ↔ character ∈ characters := by
  constructor
  · intro member
    obtain ⟨other, present, number⟩ := exists_of_mem_encode ascii member
    rwa [← Char.toNat_inj.mp (number.trans same)]
  · intro member
    refine List.mem_flatMap.mpr ⟨character, member, ?_⟩
    rw [encodeChar_ascii (same ▸ ascii), ← same, UInt8.ofNat_toNat,
      List.mem_singleton]

/-- Characters below 128 take an octet each. -/
theorem length_encode_of_ascii
    {characters : List Char}
    (ascii : ∀ character ∈ characters, character.toNat < 128) :
    (encode characters).length = characters.length := by
  induction characters with
  | nil => rfl
  | cons character rest inductionHypothesis =>
      obtain ⟨first, others⟩ := List.forall_mem_cons.mp ascii
      rw [encode_cons, encodeChar_ascii first, List.length_append,
        inductionHypothesis others, List.length_singleton, List.length_cons,
        Nat.add_comm]

/-- The octets of a character tell it from every other. -/
theorem encodeChar_append_inj
    {character other : Char}
    {rest later : List UInt8}
    (same : String.utf8EncodeChar character ++ rest =
      String.utf8EncodeChar other ++ later) :
    character = other ∧ rest = later := by
  have decodes : ∀ (character : Char) (rest : List UInt8),
      (String.utf8EncodeChar character ++ rest).toByteArray.utf8DecodeChar? 0 =
        some character := by
    intro character rest
    rw [List.toByteArray_append]
    exact ByteArray.utf8DecodeChar?_utf8EncodeChar_append
  have equal : character = other := by
    have first := decodes character rest
    rw [same, decodes] at first
    exact (Option.some.inj first).symm
  subst equal
  exact ⟨rfl, List.append_cancel_left same⟩

/-- Where the octets of some characters open those of others, so do the
characters. -/
theorem isPrefix_of_encode
    {characters others : List Char}
    (opens : encode characters <+: encode others) :
    characters <+: others := by
  induction characters generalizing others with
  | nil => exact List.nil_prefix
  | cons character rest inductionHypothesis =>
      obtain ⟨left, whole⟩ := opens
      rw [encode_cons, List.append_assoc] at whole
      cases others with
      | nil =>
          have length := congrArg List.length whole
          have positive := String.length_utf8EncodeChar character
          have size := Char.utf8Size_pos character
          rw [encode_nil, List.length_nil, List.length_append] at length
          omega
      | cons other others =>
          rw [encode_cons] at whole
          obtain ⟨rfl, later⟩ := encodeChar_append_inj whole
          exact (List.prefix_cons_inj character).mpr
            (inductionHypothesis ⟨left, later⟩)

/-- Characters are taken apart where their octets are, at an octet below
128. -/
theorem exists_of_encode_eq
    {octet : UInt8}
    (ascii : octet.toNat < 128)
    {characters : List Char}
    {first rest : List UInt8}
    (same : encode characters = first ++ octet :: rest) :
    ∃ earlier later, encode earlier = first ∧ encode later = rest := by
  induction characters generalizing first with
  | nil =>
      have nonempty : first ++ octet :: rest ≠ [] :=
        List.append_ne_nil_of_right_ne_nil first (List.cons_ne_nil octet rest)
      exact absurd same.symm nonempty
  | cons character characters inductionHypothesis =>
      rw [encode_cons] at same
      by_cases wide : 128 ≤ character.toNat
      · rcases List.append_eq_append_iff.mp same with
          ⟨more, whole, left⟩ | ⟨more, whole, left⟩
        · obtain ⟨earlier, later, before, after⟩ := inductionHypothesis left
          refine ⟨character :: earlier, later, ?_, after⟩
          rw [encode_cons, before, whole]
        · cases more with
          | nil =>
              rw [List.append_nil] at whole
              have next : encode characters = [] ++ octet :: rest := left.symm
              obtain ⟨earlier, later, before, after⟩ := inductionHypothesis next
              refine ⟨character :: earlier, later, ?_, after⟩
              rw [encode_cons, before, whole, List.append_nil]
          | cons head more =>
              rw [List.cons_append, List.cons.injEq] at left
              have member : octet ∈ String.utf8EncodeChar character := by
                rw [whole, left.1]
                exact List.mem_append_right _ List.mem_cons_self
              exact absurd (le_of_mem_encodeChar wide member)
                (Nat.not_le.mpr ascii)
      · rw [encodeChar_ascii (Nat.not_le.mp wide), List.singleton_append] at same
        cases first with
        | nil =>
            rw [List.nil_append, List.cons.injEq] at same
            exact ⟨[], characters, rfl, same.2⟩
        | cons head first =>
            rw [List.cons_append, List.cons.injEq] at same
            obtain ⟨earlier, later, before, after⟩ := inductionHypothesis same.2
            refine ⟨character :: earlier, later, ?_, after⟩
            rw [encode_cons, before, encodeChar_ascii (Nat.not_le.mp wide),
              List.singleton_append, same.1]

end Utf8
end XmipNet

import XmipNet.Foundation.Bits
import XmipNet.Foundation.PrefixTrie

/-!
# The Huffman code of HPACK

RFC 7541 Appendix B: for each octet, and for the end-of-string symbol at 256,
the code aligned to its least significant bit and its length in bits. No code
begins another, which is checked pair by pair on the table.
-/

namespace XmipNet
namespace Http2
namespace Hpack

/-- `(code, bits)` for symbols 0 to 255 and `eos`, in symbol order. -/
def codes : List (Nat × Nat) := [
    (0x1ff8, 13), (0x7fffd8, 23), (0xfffffe2, 28), (0xfffffe3, 28),
    (0xfffffe4, 28), (0xfffffe5, 28), (0xfffffe6, 28), (0xfffffe7, 28),
    (0xfffffe8, 28), (0xffffea, 24), (0x3ffffffc, 30), (0xfffffe9, 28),
    (0xfffffea, 28), (0x3ffffffd, 30), (0xfffffeb, 28), (0xfffffec, 28),
    (0xfffffed, 28), (0xfffffee, 28), (0xfffffef, 28), (0xffffff0, 28),
    (0xffffff1, 28), (0xffffff2, 28), (0x3ffffffe, 30), (0xffffff3, 28),
    (0xffffff4, 28), (0xffffff5, 28), (0xffffff6, 28), (0xffffff7, 28),
    (0xffffff8, 28), (0xffffff9, 28), (0xffffffa, 28), (0xffffffb, 28),
    (0x14, 6), (0x3f8, 10), (0x3f9, 10), (0xffa, 12), (0x1ff9, 13), (0x15, 6),
    (0xf8, 8), (0x7fa, 11), (0x3fa, 10), (0x3fb, 10), (0xf9, 8), (0x7fb, 11),
    (0xfa, 8), (0x16, 6), (0x17, 6), (0x18, 6), (0x0, 5), (0x1, 5), (0x2, 5),
    (0x19, 6), (0x1a, 6), (0x1b, 6), (0x1c, 6), (0x1d, 6), (0x1e, 6),
    (0x1f, 6), (0x5c, 7), (0xfb, 8), (0x7ffc, 15), (0x20, 6), (0xffb, 12),
    (0x3fc, 10), (0x1ffa, 13), (0x21, 6), (0x5d, 7), (0x5e, 7), (0x5f, 7),
    (0x60, 7), (0x61, 7), (0x62, 7), (0x63, 7), (0x64, 7), (0x65, 7),
    (0x66, 7), (0x67, 7), (0x68, 7), (0x69, 7), (0x6a, 7), (0x6b, 7),
    (0x6c, 7), (0x6d, 7), (0x6e, 7), (0x6f, 7), (0x70, 7), (0x71, 7),
    (0x72, 7), (0xfc, 8), (0x73, 7), (0xfd, 8), (0x1ffb, 13), (0x7fff0, 19),
    (0x1ffc, 13), (0x3ffc, 14), (0x22, 6), (0x7ffd, 15), (0x3, 5), (0x23, 6),
    (0x4, 5), (0x24, 6), (0x5, 5), (0x25, 6), (0x26, 6), (0x27, 6), (0x6, 5),
    (0x74, 7), (0x75, 7), (0x28, 6), (0x29, 6), (0x2a, 6), (0x7, 5),
    (0x2b, 6), (0x76, 7), (0x2c, 6), (0x8, 5), (0x9, 5), (0x2d, 6), (0x77, 7),
    (0x78, 7), (0x79, 7), (0x7a, 7), (0x7b, 7), (0x7ffe, 15), (0x7fc, 11),
    (0x3ffd, 14), (0x1ffd, 13), (0xffffffc, 28), (0xfffe6, 20),
    (0x3fffd2, 22), (0xfffe7, 20), (0xfffe8, 20), (0x3fffd3, 22),
    (0x3fffd4, 22), (0x3fffd5, 22), (0x7fffd9, 23), (0x3fffd6, 22),
    (0x7fffda, 23), (0x7fffdb, 23), (0x7fffdc, 23), (0x7fffdd, 23),
    (0x7fffde, 23), (0xffffeb, 24), (0x7fffdf, 23), (0xffffec, 24),
    (0xffffed, 24), (0x3fffd7, 22), (0x7fffe0, 23), (0xffffee, 24),
    (0x7fffe1, 23), (0x7fffe2, 23), (0x7fffe3, 23), (0x7fffe4, 23),
    (0x1fffdc, 21), (0x3fffd8, 22), (0x7fffe5, 23), (0x3fffd9, 22),
    (0x7fffe6, 23), (0x7fffe7, 23), (0xffffef, 24), (0x3fffda, 22),
    (0x1fffdd, 21), (0xfffe9, 20), (0x3fffdb, 22), (0x3fffdc, 22),
    (0x7fffe8, 23), (0x7fffe9, 23), (0x1fffde, 21), (0x7fffea, 23),
    (0x3fffdd, 22), (0x3fffde, 22), (0xfffff0, 24), (0x1fffdf, 21),
    (0x3fffdf, 22), (0x7fffeb, 23), (0x7fffec, 23), (0x1fffe0, 21),
    (0x1fffe1, 21), (0x3fffe0, 22), (0x1fffe2, 21), (0x7fffed, 23),
    (0x3fffe1, 22), (0x7fffee, 23), (0x7fffef, 23), (0xfffea, 20),
    (0x3fffe2, 22), (0x3fffe3, 22), (0x3fffe4, 22), (0x7ffff0, 23),
    (0x3fffe5, 22), (0x3fffe6, 22), (0x7ffff1, 23), (0x3ffffe0, 26),
    (0x3ffffe1, 26), (0xfffeb, 20), (0x7fff1, 19), (0x3fffe7, 22),
    (0x7ffff2, 23), (0x3fffe8, 22), (0x1ffffec, 25), (0x3ffffe2, 26),
    (0x3ffffe3, 26), (0x3ffffe4, 26), (0x7ffffde, 27), (0x7ffffdf, 27),
    (0x3ffffe5, 26), (0xfffff1, 24), (0x1ffffed, 25), (0x7fff2, 19),
    (0x1fffe3, 21), (0x3ffffe6, 26), (0x7ffffe0, 27), (0x7ffffe1, 27),
    (0x3ffffe7, 26), (0x7ffffe2, 27), (0xfffff2, 24), (0x1fffe4, 21),
    (0x1fffe5, 21), (0x3ffffe8, 26), (0x3ffffe9, 26), (0xffffffd, 28),
    (0x7ffffe3, 27), (0x7ffffe4, 27), (0x7ffffe5, 27), (0xfffec, 20),
    (0xfffff3, 24), (0xfffed, 20), (0x1fffe6, 21), (0x3fffe9, 22),
    (0x1fffe7, 21), (0x1fffe8, 21), (0x7ffff3, 23), (0x3fffea, 22),
    (0x3fffeb, 22), (0x1ffffee, 25), (0x1ffffef, 25), (0xfffff4, 24),
    (0xfffff5, 24), (0x3ffffea, 26), (0x7ffff4, 23), (0x3ffffeb, 26),
    (0x7ffffe6, 27), (0x3ffffec, 26), (0x3ffffed, 26), (0x7ffffe7, 27),
    (0x7ffffe8, 27), (0x7ffffe9, 27), (0x7ffffea, 27), (0x7ffffeb, 27),
    (0xffffffe, 28), (0x7ffffec, 27), (0x7ffffed, 27), (0x7ffffee, 27),
    (0x7ffffef, 27), (0x7fffff0, 27), (0x3ffffee, 26), (0x3fffffff, 30)]
/-- The end-of-string symbol, which never appears in a decoded string. -/
def eos : Nat := 256

theorem length_codes : codes.length = 257 := by
  decide +kernel

/-- Every code fits its length, and lengths run from five to thirty bits. -/
theorem codes_bounded :
    ∀ code ∈ codes, code.1 < 2 ^ code.2 ∧ 5 ≤ code.2 ∧ code.2 ≤ 30 := by
  decide +kernel

namespace Code

/-- Two codes of which the shorter begins the longer. -/
def clash (left right : Nat × Nat) : Bool :=
  Nat.beq (Nat.shiftRight left.1 (Nat.sub left.2 right.2))
    (Nat.shiftRight right.1 (Nat.sub right.2 left.2))

/-- Whether `code` clashes with none of a list. -/
def apartFrom (code : Nat × Nat) : List (Nat × Nat) → Bool
  | [] => true
  | other :: rest =>
      match clash code other with
      | true => false
      | false => apartFrom code rest

/-- Whether no two codes of a list clash. -/
def pairwiseApart : List (Nat × Nat) → Bool
  | [] => true
  | code :: rest =>
      match apartFrom code rest with
      | true => pairwiseApart rest
      | false => false

theorem codes_pairwiseApart : pairwiseApart codes = true := by
  decide +kernel

theorem clash_comm (left right : Nat × Nat) :
    clash left right = clash right left := by
  apply Bool.eq_iff_iff.mpr
  rw [clash, clash, Nat.beq_eq, Nat.beq_eq]
  exact eq_comm

theorem clash_eq_false_of_apartFrom
    {code : Nat × Nat}
    {others : List (Nat × Nat)}
    (apart : apartFrom code others = true)
    {other : Nat × Nat}
    (member : other ∈ others) :
    clash code other = false := by
  induction others with
  | nil => cases member
  | cons first rest inductionHypothesis =>
      cases clashes : clash code first with
      | true => simp [apartFrom, clashes] at apart
      | false =>
          rw [apartFrom, clashes] at apart
          rcases List.mem_cons.mp member with rfl | member
          · exact clashes
          · exact inductionHypothesis apart member

theorem pairwise_of_pairwiseApart
    {list : List (Nat × Nat)}
    (apart : pairwiseApart list = true) :
    list.Pairwise fun left right => clash left right = false := by
  induction list with
  | nil => exact .nil
  | cons code rest inductionHypothesis =>
      cases first : apartFrom code rest with
      | false => simp [pairwiseApart, first] at apart
      | true =>
          rw [pairwiseApart, first] at apart
          exact .cons
            (fun other member => clash_eq_false_of_apartFrom first member)
            (inductionHypothesis apart)

/-- The bits of one code begin those of another only where the two clash. -/
theorem clash_of_isPrefix
    {left right : Nat × Nat}
    (leftFits : left.1 < 2 ^ left.2)
    (rightFits : right.1 < 2 ^ right.2)
    (begins : Bits.low left.1 left.2 <+: Bits.low right.1 right.2) :
    clash left right = true := by
  have lengths : left.2 ≤ right.2 := by
    simpa using begins.length_le
  have shorter : left.1 >>> (left.2 - right.2) = left.1 := by
    rw [Nat.sub_eq_zero_of_le lengths, Nat.shiftRight_zero]
  have split := Bits.low_append right.1 left.2 (right.2 - left.2)
  rw [Nat.add_sub_cancel' lengths] at split
  have starts : Bits.low left.1 left.2 =
      Bits.low (right.1 >>> (right.2 - left.2)) left.2 := by
    rw [← split] at begins
    have sameStart := List.prefix_of_prefix_length_le begins
      (List.prefix_append _ _) (by simp)
    exact sameStart.eq_of_length (by simp)
  have equal := Bits.low_injective leftFits
    (Bits.shiftRight_lt rightFits lengths) starts
  exact Nat.beq_eq.mpr (shorter.trans equal)

end Code

/-- The words the tree is built from: each code's bits, and its symbol. -/
def words : List (List Bool × Nat) :=
  codes.zipIdx.map fun coded => (Bits.low coded.1.1 coded.1.2, coded.2)

theorem words_nonempty : ∀ word ∈ words, word.1 ≠ [] := by
  intro word member
  obtain ⟨coded, codedMember, rfl⟩ := List.mem_map.mp member
  have bounded := codes_bounded coded.1
    (List.fst_mem_of_mem_zipIdx codedMember)
  apply List.ne_nil_of_length_pos
  rw [Bits.length_low]
  omega

/-- No word of the code begins another. -/
theorem words_prefixFree : PrefixTrie.PrefixFree words := by
  apply List.pairwise_map.mpr
  have apart : codes.zipIdx.Pairwise fun left right =>
      Code.clash left.1 right.1 = false := by
    have pairs := Code.pairwise_of_pairwiseApart Code.codes_pairwiseApart
    rw [← List.zipIdx_map_fst 0 codes] at pairs
    exact List.pairwise_map.mp pairs
  refine List.Pairwise.imp_of_mem ?_ apart
  intro left right leftMember rightMember noClash
  have leftBounded := codes_bounded left.1
    (List.fst_mem_of_mem_zipIdx leftMember)
  have rightBounded := codes_bounded right.1
    (List.fst_mem_of_mem_zipIdx rightMember)
  constructor
  · intro begins
    rw [Code.clash_of_isPrefix leftBounded.1 rightBounded.1 begins] at noClash
    cases noClash
  · intro begins
    have clashes :=
      Code.clash_of_isPrefix rightBounded.1 leftBounded.1 begins
    rw [Code.clash_comm, noClash] at clashes
    cases clashes

/-- The word of the symbol at a place of the table. -/
theorem word_mem
    {symbol : Nat}
    {coded : Nat × Nat}
    (found : codes[symbol]? = some coded) :
    (Bits.low coded.1 coded.2, symbol) ∈ words := by
  apply List.mem_map.mpr
  refine ⟨(coded, symbol), ?_, rfl⟩
  exact List.mem_zipIdx_iff_getElem?.mpr found

/-- The code is complete: every string of thirty bits opens with a word. -/
theorem words_cover :
    PrefixTrie.covers 30 (words.map Prod.fst) = true := by
  decide +kernel

/-- A word of the code is the code of its symbol. -/
theorem coded_of_word_mem
    {path : List Bool}
    {symbol : Nat}
    (member : (path, symbol) ∈ words) :
    ∃ coded, codes[symbol]? = some coded ∧ path = Bits.low coded.1 coded.2 := by
  obtain ⟨⟨coded, place⟩, found, same⟩ := List.mem_map.mp member
  cases same
  exact ⟨coded, List.mem_zipIdx_iff_getElem?.mp found, rfl⟩

end Hpack
end Http2
end XmipNet

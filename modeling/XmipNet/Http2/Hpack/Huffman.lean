import XmipNet.Http2.Error
import XmipNet.Http2.Hpack.Code
import Mathlib.Data.List.Induction

/-!
# The Huffman coding of HPACK strings

RFC 7541 section 5.2: a string packed most significant bit first and padded
with the high bits of `eos`, and unpacked by walking the code's tree. Packing is
described by the bits it has written; unpacking what was packed gives the string
back, and the packed length is the one announced without packing.
-/

namespace XmipNet
namespace Http2
namespace Hpack
namespace Huffman

open PrefixTrie

/-- The code of an octet, and its length in bits. -/
def codeOf (octet : UInt8) : Nat × Nat :=
  codes.get ⟨octet.toNat, by
    have bounded := octet.toNat_lt
    rw [length_codes]
    omega⟩

/-- The octets `input` takes once encoded, without encoding it. -/
def encodedLen (input : List UInt8) : Nat :=
  ((input.map fun octet => (codeOf octet).2).sum + 7) / 8

/-- The low eight bits of a word, as an octet. -/
def lowOctet (bits : Nat) : UInt8 :=
  UInt8.ofNat (bits &&& 0xff)

/-- What packing has so far: the word codes are shifted through, how many of its
low bits are not written yet, and the octets written. -/
structure Packing where
  pending : Nat
  held : Nat
  out : List UInt8

/-- Write whole octets off the top of the held bits. -/
def Packing.flush (packing : Packing) : Packing :=
  if 8 ≤ packing.held then
    Packing.flush
      { packing with
        held := packing.held - 8
        out := packing.out ++
          [lowOctet (packing.pending >>> (packing.held - 8))] }
  else
    packing
termination_by packing.held
decreasing_by omega

/-- Shift one octet's code in, and write what became whole. -/
def Packing.add (packing : Packing) (octet : UInt8) : Packing :=
  let coded := codeOf octet
  Packing.flush
    { packing with
      pending := (packing.pending <<< coded.2) % 2 ^ 64 ||| coded.1
      held := packing.held + coded.2 }

/-- The octets appended for `input`, encoded: the last one is padded with the
most significant bits of `eos`, all ones. -/
def encode (input : List UInt8) : List UInt8 :=
  let packed := input.foldl Packing.add { pending := 0, held := 0, out := [] }
  if 0 < packed.held then
    let pad := 8 - packed.held
    packed.out ++
      [lowOctet ((packed.pending <<< pad) % 2 ^ 64 ||| (1 <<< pad - 1))]
  else
    packed.out

/-- The code as a table of nodes, each with its branch for a 0 and for a 1. -/
def tree : Nodes Nat :=
  build words

/-- Where unpacking stands: its node, how deep it is, whether every bit since
the last symbol was a one, and the octets found. -/
structure Walk where
  node : Nat
  depth : Nat
  allOnes : Bool
  out : List UInt8
  deriving DecidableEq

/-- Follow one bit. -/
def Walk.follow (nodes : Nodes Nat) (walk : Walk) (bit : Bool) :
    Except Violation Walk :=
  match branch nodes walk.node bit with
  | .node next =>
      .ok { walk with
        node := next
        depth := walk.depth + 1
        allOnes := walk.allOnes && bit }
  | .leaf symbol =>
      if symbol = eos then
        .error (.compression "a Huffman string holds EOS")
      else
        .ok { node := 0, depth := 0, allOnes := true,
              out := walk.out ++ [UInt8.ofNat symbol] }
  | .none => .error (.compression "not a Huffman code")

/-- The bits of an octet, most significant first. -/
def octetBits (octet : UInt8) : List Bool :=
  Bits.low octet.toNat 8

/-- `input`, decoded. -/
def decode (input : List UInt8) : Except Violation (List UInt8) := do
  let walk ← (input.flatMap octetBits).foldlM (Walk.follow tree)
    { node := 0, depth := 0, allOnes := true, out := [] }
  if 7 < walk.depth ∨ walk.allOnes = false then
    .error (.compression
      "a Huffman string padded with other than the high bits of EOS")
  else
    .ok walk.out

/-! ## What packing writes -/

/-- The bits of an octet's code. -/
def wordOf (octet : UInt8) : List Bool :=
  Bits.low (codeOf octet).1 (codeOf octet).2

theorem codeOf_bounded (octet : UInt8) :
    (codeOf octet).1 < 2 ^ (codeOf octet).2 ∧
      5 ≤ (codeOf octet).2 ∧ (codeOf octet).2 ≤ 30 :=
  codes_bounded _ (List.get_mem _ _)

theorem octetBits_lowOctet (bits : Nat) :
    octetBits (lowOctet bits) = Bits.low bits 8 := by
  have number : (lowOctet bits).toNat = bits % 2 ^ 8 := by
    rw [lowOctet, UInt8.toNat_ofNat']
    exact (congrArg (· % 2 ^ 8)
      (Nat.and_two_pow_sub_one_eq_mod bits 8)).trans (Nat.mod_mod _ _)
  rw [octetBits, number, Bits.low_mod bits (by decide)]

/-- The bits written and the bits still held. -/
def Packing.bits (packing : Packing) : List Bool :=
  packing.out.flatMap octetBits ++ Bits.low packing.pending packing.held

theorem Packing.flush_spec (packing : Packing) :
    packing.flush.bits = packing.bits ∧ packing.flush.held < 8 := by
  fun_induction Packing.flush packing with
  | case1 packing whole inductionHypothesis =>
      refine ⟨?_, inductionHypothesis.2⟩
      have split := Bits.low_append packing.pending 8 (packing.held - 8)
      rw [Nat.add_sub_cancel' whole] at split
      rw [inductionHypothesis.1]
      simp only [Packing.bits, List.flatMap_append, List.flatMap_cons,
        List.flatMap_nil, List.append_nil, octetBits_lowOctet,
        List.append_assoc, split]
  | case2 packing short => exact ⟨rfl, by omega⟩

/-- One octet adds its code's bits. -/
theorem Packing.add_spec
    {packing : Packing}
    (held : packing.held < 8)
    (octet : UInt8) :
    (packing.add octet).bits = packing.bits ++ wordOf octet ∧
      (packing.add octet).held < 8 := by
  obtain ⟨fits, _, short⟩ := codeOf_bounded octet
  have word : (codeOf octet).1 < 2 ^ 64 :=
    Nat.lt_of_lt_of_le fits (Nat.pow_le_pow_right (by decide) (by omega))
  have shifted :
      (packing.pending <<< (codeOf octet).2) % 2 ^ 64 ||| (codeOf octet).1 =
        (packing.pending <<< (codeOf octet).2 ||| (codeOf octet).1) %
          2 ^ 64 := by
    rw [Nat.or_mod_two_pow, Nat.mod_eq_of_lt word]
  unfold Packing.add
  obtain ⟨bits, small⟩ := Packing.flush_spec
    { packing with
      pending := (packing.pending <<< (codeOf octet).2) % 2 ^ 64 |||
        (codeOf octet).1
      held := packing.held + (codeOf octet).2 }
  refine ⟨bits.trans ?_, small⟩
  simp only [Packing.bits, shifted]
  rw [Bits.low_mod _ (by omega), Bits.low_shiftLeft_or _ _ fits,
    ← List.append_assoc]
  rfl

theorem Packing.foldl_add_spec
    (input : List UInt8)
    {packing : Packing}
    (held : packing.held < 8) :
    (input.foldl Packing.add packing).bits =
        packing.bits ++ input.flatMap wordOf ∧
      (input.foldl Packing.add packing).held < 8 := by
  induction input generalizing packing with
  | nil => simpa using held
  | cons octet rest inductionHypothesis =>
      obtain ⟨bits, small⟩ := Packing.add_spec held octet
      obtain ⟨restBits, restSmall⟩ := inductionHypothesis small
      refine ⟨?_, restSmall⟩
      rw [List.foldl_cons, restBits, bits, List.flatMap_cons,
        List.append_assoc]

/-- Encoding writes the codes of the octets in order and fewer than eight ones
after them. -/
theorem encode_bits (input : List UInt8) :
    ∃ pad < 8, (encode input).flatMap octetBits =
      input.flatMap wordOf ++ List.replicate pad true := by
  have empty : ({ pending := 0, held := 0, out := [] } : Packing).held < 8 := by
    decide
  obtain ⟨bits, small⟩ := Packing.foldl_add_spec input empty
  rw [encode]
  generalize input.foldl Packing.add { pending := 0, held := 0, out := [] } =
    packed at bits small
  have written : packed.out.flatMap octetBits ++
      Bits.low packed.pending packed.held = input.flatMap wordOf := bits
  by_cases partly : 0 < packed.held
  · refine ⟨8 - packed.held, by omega, ?_⟩
    have ones : 1 <<< (8 - packed.held) - 1 = 2 ^ (8 - packed.held) - 1 := by
      rw [Nat.shiftLeft_eq, Nat.one_mul]
    have fits : 2 ^ (8 - packed.held) - 1 < 2 ^ (8 - packed.held) :=
      Nat.sub_lt (Nat.two_pow_pos _) (by decide)
    have word : 2 ^ (8 - packed.held) - 1 < 2 ^ 64 :=
      Nat.lt_of_lt_of_le fits (Nat.pow_le_pow_right (by decide) (by omega))
    have padded : Bits.low
        ((packed.pending <<< (8 - packed.held)) % 2 ^ 64 |||
          (2 ^ (8 - packed.held) - 1)) 8 =
        Bits.low packed.pending packed.held ++
          List.replicate (8 - packed.held) true := by
      rw [← Nat.mod_eq_of_lt word, ← Nat.or_mod_two_pow,
        Bits.low_mod _ (by decide),
        show 8 = packed.held + (8 - packed.held) by omega,
        Nat.add_sub_cancel_left, Bits.low_shiftLeft_or _ _ fits,
        Bits.low_two_pow_sub_one (Nat.le_refl _)]
    simp only [if_pos partly, ones, List.flatMap_append, List.flatMap_cons,
      List.flatMap_nil, List.append_nil, octetBits_lowOctet, padded]
    rw [← List.append_assoc, written]
  · refine ⟨0, by decide, ?_⟩
    rw [show packed.held = 0 by omega] at written
    simp only [if_neg partly, List.replicate_zero]
    simpa [Bits.low] using written

theorem length_flatMap_octetBits (octets : List UInt8) :
    (octets.flatMap octetBits).length = 8 * octets.length := by
  induction octets with
  | nil => rfl
  | cons octet rest inductionHypothesis =>
      rw [List.flatMap_cons, List.length_append, inductionHypothesis,
        octetBits, Bits.length_low, List.length_cons]
      omega

theorem length_flatMap_wordOf (input : List UInt8) :
    (input.flatMap wordOf).length =
      (input.map fun octet => (codeOf octet).2).sum := by
  simp [List.length_flatMap, wordOf]

/-- The length announced is the length written. -/
theorem length_encode (input : List UInt8) :
    (encode input).length = encodedLen input := by
  obtain ⟨pad, small, bits⟩ := encode_bits input
  have lengths := congrArg List.length bits
  rw [length_flatMap_octetBits, List.length_append, List.length_replicate,
    length_flatMap_wordOf] at lengths
  rw [encodedLen]
  omega

/-! ## Unpacking what was packed -/

/-- The walk at the root with `out` found. -/
def Walk.atRoot (out : List UInt8) : Walk :=
  { node := 0, depth := 0, allOnes := true, out }

section Table

variable {nodes : Nodes Nat}

theorem Walk.follow_node
    {walk : Walk}
    {bit : Bool}
    {next : Nat}
    (follows : branch nodes walk.node bit = .node next) :
    walk.follow nodes bit = .ok { walk with
      node := next
      depth := walk.depth + 1
      allOnes := walk.allOnes && bit } := by
  rw [Walk.follow, follows]

theorem Walk.follow_leaf
    {walk : Walk}
    {bit : Bool}
    {symbol : Nat}
    (follows : branch nodes walk.node bit = .leaf symbol)
    (octet : symbol ≠ eos) :
    walk.follow nodes bit =
      .ok (Walk.atRoot (walk.out ++ [UInt8.ofNat symbol])) := by
  rw [Walk.follow, follows]
  exact if_neg octet

theorem foldlM_follow_append
    {first rest : List Bool}
    {start reached : Walk}
    (follows : first.foldlM (Walk.follow nodes) start = .ok reached) :
    (first ++ rest).foldlM (Walk.follow nodes) start =
      rest.foldlM (Walk.follow nodes) reached := by
  rw [List.foldlM_append, follows]
  rfl

theorem foldlM_follow_append_of_error
    {first rest : List Bool}
    {start : Walk}
    {violation : Violation}
    (fails : first.foldlM (Walk.follow nodes) start = .error violation) :
    (first ++ rest).foldlM (Walk.follow nodes) start = .error violation := by
  rw [List.foldlM_append, fails]
  rfl

theorem foldlM_follow_nil (walk : Walk) :
    [].foldlM (Walk.follow nodes) walk = .ok walk := rfl

theorem foldlM_follow_singleton (walk : Walk) (bit : Bool) :
    [bit].foldlM (Walk.follow nodes) walk = walk.follow nodes bit := by
  rw [List.foldlM_cons]
  cases walk.follow nodes bit <;> rfl

/-- Following a path from the root reaches its node. -/
theorem foldlM_follow_of_reaches
    {path : List Bool}
    {node : Nat}
    (reaches : Reaches nodes path node)
    (out : List UInt8) :
    path.foldlM (Walk.follow nodes) (Walk.atRoot out) =
      .ok { node, depth := path.length, allOnes := path.all id, out } := by
  induction reaches with
  | root => rfl
  | step before follows inductionHypothesis =>
      rw [foldlM_follow_append inductionHypothesis, foldlM_follow_singleton,
        Walk.follow_node follows, List.length_append, List.all_append]
      simp only [List.length_singleton, List.all_cons, List.all_nil, id,
        Bool.and_true]

/-- Following the path to an octet's leaf finds the octet and returns to the
root. -/
theorem foldlM_follow_of_hasLeaf
    {path : List Bool}
    {symbol : Nat}
    (leaf : HasLeaf nodes path symbol)
    (octet : symbol ≠ eos)
    (out : List UInt8) :
    path.foldlM (Walk.follow nodes) (Walk.atRoot out) =
      .ok (Walk.atRoot (out ++ [UInt8.ofNat symbol])) := by
  obtain ⟨start, node, bit, rfl, reaches, follows⟩ := leaf
  rw [foldlM_follow_append (foldlM_follow_of_reaches reaches out),
    foldlM_follow_singleton, Walk.follow_leaf follows octet]

/-- Where every octet's word has its leaf, following the words of a string
finds the string. -/
theorem foldlM_follow_words
    (leaves : ∀ octet : UInt8, HasLeaf nodes (wordOf octet) octet.toNat)
    (input : List UInt8)
    (rest : List Bool)
    (out : List UInt8) :
    (input.flatMap wordOf ++ rest).foldlM (Walk.follow nodes)
        (Walk.atRoot out) =
      rest.foldlM (Walk.follow nodes) (Walk.atRoot (out ++ input)) := by
  induction input generalizing out with
  | nil => simp
  | cons octet input inductionHypothesis =>
      have octetSymbol : octet.toNat ≠ eos := by
        have bounded := octet.toNat_lt
        rw [eos]
        omega
      rw [List.flatMap_cons, List.append_assoc,
        foldlM_follow_append
          (foldlM_follow_of_hasLeaf (leaves octet) octetSymbol out),
        UInt8.ofNat_toNat, inductionHypothesis, List.append_assoc,
        List.singleton_append]

/-- Fewer ones than the word of all ones has lead to a node. -/
theorem reaches_ones
    {length symbol : Nat}
    (leaf : HasLeaf nodes (List.replicate (length + 1) true) symbol)
    {count : Nat}
    (short : count ≤ length) :
    ∃ node, Reaches nodes (List.replicate count true) node := by
  obtain ⟨start, node, bit, spelled, reaches, _⟩ := leaf
  rw [List.replicate_succ'] at spelled
  have split : start =
      List.replicate count true ++ List.replicate (length - count) true := by
    rw [← (List.append_inj' spelled rfl).1, List.replicate_append_replicate,
      Nat.add_sub_cancel' short]
  exact reaches.of_append split

end Table

/-- Every word of the code has its leaf in the tree. -/
theorem tree_hasLeaf
    {word : List Bool × Nat}
    (member : word ∈ words) :
    HasLeaf tree word.1 word.2 :=
  build_hasLeaf words_nonempty words_prefixFree member

theorem tree_hasLeaf_wordOf (octet : UInt8) :
    HasLeaf tree (wordOf octet) octet.toNat := by
  have bounded := octet.toNat_lt
  have member : (wordOf octet, octet.toNat) ∈ words :=
    word_mem (List.getElem?_eq_getElem (by rw [length_codes]; omega))
  exact tree_hasLeaf member

theorem tree_hasLeaf_eos :
    HasLeaf tree (List.replicate 30 true) eos := by
  have found : codes[eos]? = some (0x3fffffff, 30) := by decide +kernel
  have ones : Bits.low 0x3fffffff 30 = List.replicate 30 true :=
    Bits.low_two_pow_sub_one (Nat.le_refl 30)
  exact ones ▸ tree_hasLeaf (word_mem found)

/-- Every octet string is read back from its encoding. -/
theorem decode_encode (input : List UInt8) :
    decode (encode input) = .ok input := by
  obtain ⟨pad, small, bits⟩ := encode_bits input
  obtain ⟨node, reaches⟩ := reaches_ones tree_hasLeaf_eos
    (by omega : pad ≤ 29)
  have walked : ((encode input).flatMap octetBits).foldlM (Walk.follow tree)
      { node := 0, depth := 0, allOnes := true, out := [] } =
        .ok { node, depth := pad, allOnes := true, out := input } := by
    rw [bits]
    refine (foldlM_follow_words tree_hasLeaf_wordOf input _ []).trans ?_
    rw [foldlM_follow_of_reaches reaches]
    simp
  rw [decode, walked]
  simp only [bind, Except.bind]
  rw [if_neg (by simp; omega)]

/-! ## Everything unpacked was packed -/

/-- Where a walk stands: past the words of what it found, at the node the bits
since spell. -/
structure Walk.Stands (walk : Walk) (input : List UInt8) (path : List Bool) :
    Prop where
  out : walk.out = input
  reaches : Reaches tree path walk.node
  depth : walk.depth = path.length
  allOnes : walk.allOnes = path.all id

theorem Walk.stands_atRoot (out : List UInt8) :
    (Walk.atRoot out).Stands out [] :=
  ⟨rfl, .root, rfl, rfl⟩

/-- A leaf of the tree other than the end's is the word of an octet. -/
theorem wordOf_of_hasLeaf
    {path : List Bool}
    {symbol : Nat}
    (leaf : HasLeaf tree path symbol)
    (octet : symbol ≠ eos) :
    wordOf (UInt8.ofNat symbol) = path := by
  obtain ⟨coded, found, rfl⟩ :=
    coded_of_word_mem (mem_of_build_hasLeaf words_nonempty leaf)
  have within := (List.getElem?_eq_some_iff.mp found).1
  rw [length_codes] at within
  have small : symbol < 256 := by
    rw [eos] at octet
    omega
  have number : (UInt8.ofNat symbol).toNat = symbol :=
    UInt8.toNat_ofNat_of_lt' small
  have same : codeOf (UInt8.ofNat symbol) = coded := by
    rw [codeOf, List.get_eq_getElem]
    simp only [number]
    exact (List.getElem?_eq_some_iff.mp found).2
  rw [wordOf, same]

/-- Following one bit more, a walk that goes on stands past it, and one that
fails has met the end-of-string symbol: the tree has no branch missing. -/
theorem Walk.Stands.follow
    {walk : Walk}
    {input : List UInt8}
    {path : List Bool}
    (stands : walk.Stands input path)
    (bit : Bool) :
    (∃ next input' path', walk.follow tree bit = .ok next ∧
      next.Stands input' path' ∧
        input'.flatMap wordOf ++ path' =
          input.flatMap wordOf ++ (path ++ [bit])) ∨
      walk.follow tree bit =
        .error (.compression "a Huffman string holds EOS") := by
  cases follows : branch tree walk.node bit with
  | none =>
      exact absurd follows (branch_ne_none_of_covers words_nonempty
        words_prefixFree words_cover stands.reaches bit)
  | node next =>
      refine Or.inl ⟨_, input, path ++ [bit], Walk.follow_node follows,
        ⟨stands.out, stands.reaches.step follows, ?_, ?_⟩, rfl⟩
      · rw [List.length_append, stands.depth]
        rfl
      · rw [List.all_append, stands.allOnes]
        simp only [List.all_cons, List.all_nil, id, Bool.and_true]
  | leaf symbol =>
      by_cases octet : symbol = eos
      · right
        rw [Walk.follow, follows]
        exact if_pos octet
      · have leaf : HasLeaf tree (path ++ [bit]) symbol :=
          ⟨path, walk.node, bit, rfl, stands.reaches, follows⟩
        refine Or.inl ⟨_, input ++ [UInt8.ofNat symbol], [],
          Walk.follow_leaf follows octet, ?_, ?_⟩
        · rw [stands.out]
          exact Walk.stands_atRoot _
        · rw [List.flatMap_append, List.flatMap_singleton,
            wordOf_of_hasLeaf leaf octet, List.append_nil]

/-- A walk over any bits stands past the words of what it found, or it met the
end-of-string symbol. -/
theorem foldlM_follow_stands (bits : List Bool) :
    (∃ walk input path,
      bits.foldlM (Walk.follow tree) (Walk.atRoot []) = .ok walk ∧
        walk.Stands input path ∧ bits = input.flatMap wordOf ++ path) ∨
      bits.foldlM (Walk.follow tree) (Walk.atRoot []) =
        .error (.compression "a Huffman string holds EOS") := by
  induction bits using List.reverseRecOn with
  | nil =>
      exact Or.inl ⟨_, [], [], foldlM_follow_nil _, Walk.stands_atRoot [], rfl⟩
  | append_singleton bits bit inductionHypothesis =>
      rcases inductionHypothesis with
        ⟨walk, input, path, walked, stands, spelled⟩ | fails
      · rw [foldlM_follow_append walked, foldlM_follow_singleton]
        rcases stands.follow bit with
          ⟨next, more, rest, follows, standing, whole⟩ | fails
        · refine Or.inl ⟨next, more, rest, follows, standing, ?_⟩
          rw [spelled, List.append_assoc]
          exact whole.symm
        · exact Or.inr fails
      · exact Or.inr (foldlM_follow_append_of_error fails)

/-- Octets are given by their bits. -/
theorem flatMap_octetBits_injective :
    Function.Injective fun octets : List UInt8 => octets.flatMap octetBits := by
  intro left right same
  simp only at same
  induction left generalizing right with
  | nil =>
      have lengths := congrArg List.length same
      rw [length_flatMap_octetBits, length_flatMap_octetBits,
        List.length_nil] at lengths
      exact (List.eq_nil_of_length_eq_zero (by omega)).symm
  | cons first rest inductionHypothesis =>
      cases right with
      | nil =>
          have lengths := congrArg List.length same
          rw [length_flatMap_octetBits, length_flatMap_octetBits] at lengths
          simp at lengths
      | cons other others =>
          rw [List.flatMap_cons, List.flatMap_cons] at same
          obtain ⟨bits, tails⟩ := List.append_inj same (by simp [octetBits])
          rw [inductionHypothesis tails]
          congr 1
          exact UInt8.toNat_inj.mp
            (Bits.low_injective first.toNat_lt other.toNat_lt bits)

theorem replicate_of_all
    {path : List Bool}
    (ones : path.all id = true) :
    path = List.replicate path.length true := by
  rw [List.eq_replicate_iff]
  exact ⟨rfl, fun bit member => List.all_eq_true.mp ones bit member⟩

/-- What is read from some octets has those octets as its encoding. -/
theorem encode_of_decode
    {coded input : List UInt8}
    (reads : decode coded = .ok input) :
    encode input = coded := by
  rcases foldlM_follow_stands (coded.flatMap octetBits) with
    ⟨walk, found, path, walked, stands, spelled⟩ | fails
  · rw [Walk.atRoot] at walked
    rw [decode, walked] at reads
    simp only [bind, Except.bind] at reads
    split at reads
    · cases reads
    next good =>
      rw [not_or, Nat.not_lt, Bool.not_eq_false] at good
      cases reads
      obtain ⟨pad, small, bits⟩ := encode_bits walk.out
      have short : path.length ≤ 7 := stands.depth ▸ good.1
      have ones := replicate_of_all (stands.allOnes ▸ good.2)
      have written := congrArg List.length bits
      have given := congrArg List.length spelled
      rw [length_flatMap_octetBits, List.length_append] at written given
      rw [List.length_replicate, stands.out] at written
      have same : pad = path.length := by omega
      apply flatMap_octetBits_injective
      simp only
      rw [bits, spelled, stands.out, same, ← ones]
  · rw [Walk.atRoot] at fails
    rw [decode, fails] at reads
    cases reads

/-- Reading and encoding are each other's inverse: some octets are read as a
string exactly where they are its encoding, which is as long as announced, and
the walk never finds a branch that leads nowhere. -/
theorem decode_eq_ok_iff :
    (∀ input coded, decode coded = .ok input ↔ encode input = coded) ∧
      (∀ input, (encode input).length = encodedLen input) ∧
        (∀ coded, decode coded ≠ .error (.compression "not a Huffman code")) ∧
          ∀ (bits : List Bool) walk,
            bits.foldlM (Walk.follow tree) (Walk.atRoot []) = .ok walk →
              ∀ bit, branch tree walk.node bit ≠ .none := by
  refine ⟨fun input coded => ⟨encode_of_decode, ?_⟩, length_encode,
    fun coded reads => ?_, fun bits walk walked bit => ?_⟩
  · rintro rfl
    exact decode_encode input
  · rcases foldlM_follow_stands (coded.flatMap octetBits) with
      ⟨walk, found, path, walked, _⟩ | fails
    · rw [Walk.atRoot] at walked
      rw [decode, walked] at reads
      simp only [bind, Except.bind] at reads
      split at reads
      · exact absurd (Except.error.inj reads) (by decide)
      · cases reads
    · rw [Walk.atRoot] at fails
      rw [decode, fails] at reads
      exact absurd (Except.error.inj reads) (by decide)
  · rcases foldlM_follow_stands bits with ⟨other, _, path, reached, stands, _⟩ |
      fails
    · rw [reached] at walked
      cases walked
      exact branch_ne_none_of_covers words_nonempty words_prefixFree
        words_cover stands.reaches bit
    · rw [fails] at walked
      cases walked

end Huffman
end Hpack
end Http2
end XmipNet

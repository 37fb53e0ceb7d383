import XmipNet.Http2.Hpack.Reading
import XmipNet.Http2.Hpack.Safety

/-!
# How much a block unpacks to

An octet of a block names at most one entry of the table, and an entry holds at
most what the table does less its overhead. A block of copies of the largest
entry reaches that bound, and nothing in the decoder stops it: with the table a
connection announces, the list stays within the largest body for the blocks of
16,513 octets and not for longer ones.
-/

namespace XmipNet
namespace Http2
namespace Hpack

open FittingPrefix

/-- The octets a field's name and value hold. -/
def weight (field : Field) : Nat :=
  (Text.octets field.1).length + (Text.octets field.2).length

/-- The octets the names and values of a list hold together. -/
def unpacked (fields : List Field) : Nat :=
  (fields.map weight).sum

@[simp] theorem unpacked_nil : unpacked [] = 0 := rfl

theorem unpacked_append (first second : List Field) :
    unpacked (first ++ second) = unpacked first + unpacked second := by
  rw [unpacked, List.map_append, List.sum_append]
  rfl

theorem unpacked_singleton (field : Field) :
    unpacked [field] = weight field := by
  rw [unpacked, List.map_singleton, List.sum_singleton]

theorem unpacked_replicate (count : Nat) (field : Field) :
    unpacked (List.replicate count field) = count * weight field := by
  rw [unpacked, List.map_replicate, List.sum_replicate_nat]

/-- The table size a connection announces. -/
def announcedSize : Nat := 4096

/-- The most one entry of a table of that size holds. -/
def largestEntry : Nat := announcedSize - Table.overhead

/-! ## What one octet may name -/

theorem weight_static_le :
    ∀ field ∈ static, weight field ≤ largestEntry := by
  decide +kernel

/-- What an index names is within the largest entry. -/
theorem weight_le_of_get
    {table : Table}
    (sized : table.maxSize ≤ announcedSize)
    {index : Nat}
    {field : Field}
    (found : table.get index = .ok field) :
    weight field ≤ largestEntry := by
  rcases (table.get_eq_ok_iff index field).mp found with ⟨_, _, held⟩ |
    ⟨_, _, held⟩
  · exact weight_static_le field (List.mem_of_getElem? held)
  · have counted : Table.cost field ≤ total Table.cost table.entries :=
      List.single_le_sum (fun _ _ => Nat.zero_le _) _
        (List.mem_map_of_mem (List.mem_of_getElem? held))
    have fits := counted.trans (table.total_entries_le.trans sized)
    rw [Table.cost] at fits
    rw [weight, largestEntry]
    omega

/-- A Huffman string has at most eight octets for every five it takes. -/
theorem length_le_of_huffman
    {coded bytes : List UInt8}
    (reads : Huffman.decode coded = .ok bytes) :
    5 * bytes.length ≤ 8 * coded.length := by
  have written := congrArg List.length (Huffman.encode_of_decode reads)
  rw [Huffman.length_encode, Huffman.encodedLen] at written
  have longer : bytes.length * 5 ≤
      (bytes.map fun octet => (Huffman.codeOf octet).2).sum := by
    have count : (bytes.map fun octet => (Huffman.codeOf octet).2).length =
        bytes.length := List.length_map _
    rw [← count]
    refine List.card_nsmul_le_sum _ 5 ?_
    intro length member
    obtain ⟨octet, _, rfl⟩ := List.mem_map.mp member
    exact (Huffman.codeOf_bounded octet).2.1
  omega

/-- A string holds at most two octets for every one it takes. -/
theorem length_le_of_literal
    {input : List UInt8}
    {text : String}
    {used : Nat}
    (reads : Literal.decode input = .ok (text, used)) :
    (Text.octets text).length ≤ 2 * used := by
  obtain ⟨length, start, _, rfl, _, raw | coded⟩ := Literal.of_decode reads
  · have taken := List.length_take_le length (input.drop start)
    rw [raw] at taken
    omega
  · have taken := List.length_take_le length (input.drop start)
    have packed := length_le_of_huffman coded
    omega

/-- Every octet of a representation adds at most one largest entry. -/
theorem unpacked_le_of_representation
    {decoder after : Decoder}
    (within : decoder.Within announcedSize)
    {fields fieldsAfter : List Field}
    {rest : List UInt8}
    {first : UInt8}
    {used : Nat}
    (reads : decoder.representation fields rest first =
      .ok (fieldsAfter, used, after)) :
    unpacked fieldsAfter ≤ unpacked fields + largestEntry * used := by
  have positive := Decoder.one_le_of_representation reads
  rw [show largestEntry = 4064 from rfl]
  rcases Decoder.of_representation reads with ⟨_, field, _, found, rfl, _⟩ |
    ⟨_, field, literal, rfl, _⟩ | ⟨_, _, _, rfl, _⟩
  · have bounded := weight_le_of_get within.table found
    rw [show largestEntry = 4064 from rfl] at bounded
    rw [unpacked_append, unpacked_singleton]
    omega
  · rw [unpacked_append, unpacked_singleton]
    obtain ⟨_, start, integer, ⟨_, _, _, name, value, rfl⟩ |
      ⟨named, _, found, same, value, rfl⟩⟩ := Decoder.of_literal literal
    · have nameShort := length_le_of_literal name
      have valueShort := length_le_of_literal value
      rw [weight]
      omega
    · have bounded := weight_le_of_get within.table found
      have valueShort := length_le_of_literal value
      have opened := Integer.one_le_of_decode integer
      rw [weight, show largestEntry = 4064 from rfl] at bounded
      rw [weight, same]
      omega
  · omega

/-- A list that is read holds at most one largest entry for every octet of its
block. -/
theorem unpacked_le_of_decodeFrom
    {decoder : Decoder}
    (within : decoder.Within announcedSize)
    {fields read : List Field}
    {rest : List UInt8}
    (reads : (decoder.decodeFrom fields rest).1 = .ok read) :
    unpacked read ≤ unpacked fields + largestEntry * rest.length := by
  fun_induction Decoder.decodeFrom decoder fields rest with
  | case1 decoder fields =>
      cases reads
      exact Nat.le_add_right _ _
  | case2 decoder fields first tail violation fails => cases reads
  | case3 decoder fields first tail fieldsAfter used after turns
      inductionHypothesis =>
      have one := unpacked_le_of_representation within turns
      have more := inductionHypothesis (within.representation turns) reads
      have shorter := Decoder.used_le_of_representation turns
      have split : largestEntry * (first :: tail).length =
          largestEntry * used +
            largestEntry * ((first :: tail).drop used).length := by
        rw [← Nat.mul_add, List.length_drop, Nat.add_sub_cancel' shorter]
      omega

/-! ## A block that reaches it -/

/-- A field named `x` with a value of `length` octets. -/
def filled (length : Nat) : Field :=
  ("x", String.ofList (List.replicate length 'a'))

theorem octets_filled (length : Nat) :
    (Text.octets (filled length).2).length = length := by
  rw [filled, Text.octets_ofList, List.length_flatMap, List.map_replicate,
    List.sum_replicate_nat, show (String.utf8EncodeChar 'a').length = 1 from rfl,
    Nat.mul_one]

theorem weight_filled (length : Nat) :
    weight (filled length) = 1 + length := by
  rw [weight, octets_filled]
  rfl

/-- The block that puts a filled field into the table. -/
def planting (length : Nat) : List UInt8 :=
  ((Encoder.new announcedSize false).encode [filled length]).1

/-- The octet that names the newest entry of the table. -/
def copy : UInt8 := 0xBE

theorem static_ne_x : ∀ field ∈ static, field.1 ≠ "x" := by
  decide +kernel

theorem find_filled (length : Nat) :
    (Table.new announcedSize).find (filled length).1 (filled length).2 =
      none := by
  have named : static.findIdx? (fun field => field.1 = "x") = none := by
    rw [List.findIdx?_eq_none_iff]
    intro field member
    exact decide_eq_false (static_ne_x field member)
  have whole : static.findIdx?
      (fun field => field.1 = "x" ∧ field.2 = (filled length).2) = none := by
    rw [List.findIdx?_eq_none_iff]
    intro field member
    exact decide_eq_false fun same => static_ne_x field member same.1
  simp only [Table.find, show (filled length).1 = "x" from rfl, named, whole,
    Table.entries_new, List.findIdx?_nil, Option.map_none, Option.none_or]

/-- The decoder that has read a filled field the table has room for. -/
theorem fed_planting
    {length : Nat}
    (fits : 1 + length ≤ largestEntry) :
    (Decoder.new announcedSize).fed [planting length] =
      { Decoder.new announcedSize with
        table := (Table.new announcedSize).insert (filled length) } := by
  have finds := find_filled length
  have indexed : Encoder.indexed (Table.new announcedSize) (filled length) =
      false := by
    rw [Encoder.indexed, finds]
  have short := (Literal.announced_le (filled length).2 false)
  rw [octets_filled] at short
  have room : largestEntry ≤ Integer.largest := by decide
  have small : Encoder.AllRead (Encoder.fieldsIntegers
      (Table.new announcedSize) false [filled length]) := by
    rw [Encoder.fieldsIntegers, Encoder.fieldsIntegers, List.append_nil,
      Encoder.integers, finds]
    have named : Literal.announced (filled length).1 false ≤
        Integer.largest := by
      rw [show (filled length).1 = "x" from rfl]
      decide
    refine (Encoder.allRead_cons _ _).mpr ⟨named, ?_⟩
    exact (Encoder.allRead_cons _ _).mpr ⟨by omega, Encoder.allRead_nil⟩
  have read := Decoder.decodeFrom_fields (Decoder.new announcedSize)
    (List.prefix_refl (Table.new announcedSize).entries) (le_refl _) false []
    [filled length]
  rw [if_pos small] at read
  have written : planting length = Encoder.fieldsOctets
      (Table.new announcedSize) false [filled length] := rfl
  rw [Decoder.fed, List.foldl_cons, List.foldl_nil, written, Decoder.decode,
    read, Decoder.follow, Decoder.follow, Decoder.heard, indexed]
  rfl

theorem entries_insert_filled
    {length : Nat}
    (fits : 1 + length ≤ largestEntry) :
    ((Table.new announcedSize).insert (filled length)).entries =
      [filled length] := by
  have cost : Table.cost (filled length) ≤ announcedSize := by
    have weighs := weight_filled length
    rw [weight] at weighs
    rw [largestEntry] at fits
    rw [Table.cost, weighs]
    have room : Table.overhead ≤ announcedSize := by decide
    omega
  rw [Table.entries_insert, Table.maxSize_new, keep, if_pos cost]
  rfl

/-- Copies of the newest entry are read as that many of it. -/
theorem decodeFrom_copies
    {decoder : Decoder}
    {newest : Field}
    {older : List Field}
    (entries : decoder.table.entries = newest :: older)
    (fields : List Field)
    (count : Nat) :
    decoder.decodeFrom fields (List.replicate count copy) =
      (.ok (fields ++ List.replicate count newest), decoder) := by
  have found : decoder.table.get (0 + static.length + 1) = .ok newest :=
    Table.get_dynamic _ (by rw [entries]; rfl)
  induction count generalizing fields with
  | zero =>
      rw [List.replicate_zero, List.replicate_zero, Decoder.decodeFrom,
        List.append_nil]
  | succ count inductionHypothesis =>
      obtain ⟨first, opens, reads⟩ :=
        Decoder.representation_indexed fields found
      have written : Integer.encode (0 + static.length + 1) 7 0x80 = [copy] := by
        decide +kernel
      rw [written] at opens reads
      have read := reads (List.replicate count copy)
      rw [if_pos (by decide)] at read
      have turns := Decoder.decodeFrom_of_ok opens read
      rw [List.replicate_succ]
      refine turns.trans ?_
      rw [inductionHypothesis, List.append_assoc, List.replicate_succ]
      rfl

/-- A block of copies after the planting one is read as that many of the
largest entry. -/
theorem decode_copies
    {length : Nat}
    (fits : 1 + length ≤ largestEntry)
    (count : Nat) :
    (((Decoder.new announcedSize).fed [planting length]).decode
        (List.replicate count copy)).1 =
      .ok (List.replicate count (filled length)) := by
  rw [fed_planting fits, Decoder.decode,
    decodeFrom_copies (entries_insert_filled fits), List.nil_append]

end Hpack
end Http2
end XmipNet

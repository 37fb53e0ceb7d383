import XmipNet.Http2.Hpack.Decoder
import XmipNet.Http2.Hpack.Encoder

/-!
# A decoder on an encoder's block

What one field was written as is read as that field, where the encoder's table
is a beginning of the decoder's and every integer written is small enough to be
read. The decoder's table then follows the encoder's through the whole block.
-/

namespace XmipNet
namespace Http2
namespace Hpack

open FittingPrefix

namespace Encoder

theorem maxSize_afterField
    (table : Table)
    (field : Field) :
    (afterField table field).maxSize = table.maxSize := by
  rw [afterField]
  split
  · rfl
  · exact Table.maxSize_insert _ _

theorem maxSize_foldl_afterField
    (fields : List Field)
    (table : Table) :
    (fields.foldl afterField table).maxSize = table.maxSize := by
  induction fields generalizing table with
  | nil => rfl
  | cons field rest inductionHypothesis =>
      rw [List.foldl_cons, inductionHypothesis, maxSize_afterField]

/-- The integers written for a field: the index it or its name has, and the
lengths of the strings spelled out. -/
def integers (table : Table) (huffman : Bool) (field : Field) : List Nat :=
  match table.find field.1 field.2 with
  | some (.field index) => [index]
  | some (.name index) => [index, Literal.announced field.2 huffman]
  | none => [Literal.announced field.1 huffman,
      Literal.announced field.2 huffman]

/-- The integers written for a list of fields. -/
def fieldsIntegers (table : Table) (huffman : Bool) : List Field → List Nat
  | [] => []
  | field :: rest =>
      integers table huffman field ++
        fieldsIntegers (afterField table field) huffman rest

/-- Every one of these integers is small enough to be read. -/
def AllRead (written : List Nat) : Prop :=
  ∀ value ∈ written, value ≤ Integer.largest

instance (written : List Nat) : Decidable (AllRead written) :=
  inferInstanceAs (Decidable (∀ value ∈ written, value ≤ Integer.largest))

theorem allRead_append
    (first second : List Nat) :
    AllRead (first ++ second) ↔ AllRead first ∧ AllRead second := by
  simp only [AllRead, List.mem_append, or_imp, forall_and]

theorem allRead_cons
    (value : Nat)
    (rest : List Nat) :
    AllRead (value :: rest) ↔ value ≤ Integer.largest ∧ AllRead rest := by
  simp only [AllRead, List.forall_mem_cons]

theorem allRead_nil : AllRead [] :=
  fun _ absent => absurd absent List.not_mem_nil

end Encoder

namespace Decoder

/-- The decoder's table after a field that the encoder wrote with `table`. -/
def heard (held table : Table) (field : Field) : Table :=
  if Encoder.indexed table field then held else held.insert field

/-- The decoder's table after a list of fields that the encoder began writing
with `table`. -/
def follow (held table : Table) : List Field → Table
  | [] => held
  | field :: rest =>
      follow (heard held table field) (Encoder.afterField table field) rest

/-! ## One representation -/

theorem decodeFrom_of_ok
    {decoder after : Decoder}
    {fields fieldsAfter : List Field}
    {octets tail : List UInt8}
    {first : UInt8}
    (opens : octets.head? = some first)
    (reads : decoder.representation fields (octets ++ tail) first =
      .ok (fieldsAfter, octets.length, after)) :
    decoder.decodeFrom fields (octets ++ tail) =
      after.decodeFrom fieldsAfter tail := by
  obtain ⟨rest, rfl⟩ := List.head?_eq_some_iff.mp opens
  rw [List.cons_append] at reads ⊢
  rw [decodeFrom]
  split
  next refused => rw [reads] at refused; cases refused
  next fieldsRead used decoderRead accepted =>
    rw [reads] at accepted
    cases accepted
    rw [← List.cons_append, List.drop_left]

theorem decodeFrom_of_error
    {decoder : Decoder}
    {fields : List Field}
    {octets tail : List UInt8}
    {first : UInt8}
    {violation : Violation}
    (opens : octets.head? = some first)
    (reads : decoder.representation fields (octets ++ tail) first =
      .error violation) :
    decoder.decodeFrom fields (octets ++ tail) = (.error violation, decoder) := by
  obtain ⟨rest, rfl⟩ := List.head?_eq_some_iff.mp opens
  rw [List.cons_append] at reads ⊢
  rw [decodeFrom]
  split
  next refused =>
    rw [reads] at refused
    cases refused
    rfl
  next accepted =>
    rw [reads] at accepted
    cases accepted

/-- The first octet of an integer carries the flags above its prefix. -/
theorem flags_of_encode
    (value : Nat)
    {prefixBits : Nat}
    (inOctet : prefixBits ≤ 8)
    (flags : UInt8)
    (tail : List UInt8) :
    ∃ first, (Integer.encode value prefixBits flags ++ tail).head? = some first ∧
      ∀ (place : Nat) (mask : UInt8), prefixBits ≤ place →
        mask.toNat = 2 ^ place → (first &&& mask = 0 ↔ flags &&& mask = 0) := by
  obtain ⟨octet, rest, written, low⟩ :=
    Integer.head_encode value inOctet flags
  refine ⟨flags ||| octet, by rw [written]; rfl, ?_⟩
  intro place mask above bit
  exact Integer.or_and_eq_zero_iff low above bit

/-- A size update at the start of a block sets the size. -/
theorem decode_announcement
    {decoder : Decoder}
    {size : Nat}
    (within : size ≤ decoder.limit)
    (tail : List UInt8) :
    decoder.decodeFrom [] (Integer.encode size 5 0x20 ++ tail) =
      if size ≤ Integer.largest then
        { decoder with table := decoder.table.resize size }.decodeFrom [] tail
      else
        (.error Integer.tooLarge, decoder) := by
  obtain ⟨first, opens, flags⟩ := flags_of_encode size (by decide : 5 ≤ 8) 0x20 []
  rw [List.append_nil] at opens
  have top : first &&& 0x80 = 0 := (flags 7 0x80 (by decide) rfl).mpr rfl
  have next : first &&& 0x40 = 0 := (flags 6 0x40 (by decide) rfl).mpr rfl
  have third : first &&& 0x20 ≠ 0 := fun clear =>
    absurd ((flags 5 0x20 (by decide) rfl).mp clear) (by decide)
  have clear : (0x20 : UInt8).toNat % 2 ^ 5 = 0 := by decide
  have integer := Integer.decode_encode size (by decide : 5 ≤ 8) clear tail
  have reads : decoder.representation [] (Integer.encode size 5 0x20 ++ tail)
      first = if size ≤ Integer.largest then
        .ok ([], (Integer.encode size 5 0x20).length,
          { decoder with table := decoder.table.resize size })
      else
        .error Integer.tooLarge := by
    rw [representation, if_neg (not_not.mpr top), if_neg (not_not.mpr next),
      if_pos third, integer]
    by_cases small : size ≤ Integer.largest
    · simp [small, bind, Except.bind, not_lt.mpr within]
    · simp [small, bind, Except.bind]
  by_cases small : size ≤ Integer.largest
  · rw [if_pos small] at reads ⊢
    exact decodeFrom_of_ok opens reads
  · rw [if_neg small] at reads ⊢
    exact decodeFrom_of_error opens reads

/-- An index of the whole field is read as the field. -/
theorem representation_indexed
    {decoder : Decoder}
    (fields : List Field)
    {index : Nat}
    {field : Field}
    (found : decoder.table.get index = .ok field) :
    ∃ first, (Integer.encode index 7 0x80).head? = some first ∧
      ∀ tail, decoder.representation fields
          (Integer.encode index 7 0x80 ++ tail) first =
        if index ≤ Integer.largest then
          .ok (fields ++ [field], (Integer.encode index 7 0x80).length, decoder)
        else
          .error Integer.tooLarge := by
  obtain ⟨first, opens, flags⟩ :=
    flags_of_encode index (by decide : 7 ≤ 8) 0x80 []
  rw [List.append_nil] at opens
  refine ⟨first, opens, ?_⟩
  intro tail
  have top : first &&& 0x80 ≠ 0 := fun clear =>
    absurd ((flags 7 0x80 (by decide) rfl).mp clear) (by decide)
  rw [representation, if_pos top,
    Integer.decode_encode _ (by decide : 7 ≤ 8) (by decide) tail]
  by_cases small : index ≤ Integer.largest
  · simp [small, bind, Except.bind, found]
  · simp [small, bind, Except.bind]

/-- A literal that the encoder adds to its table is read as the decoder's
`literal` reads it, and added there too. -/
theorem representation_literal
    (decoder : Decoder)
    (fields : List Field)
    (index : Nat)
    (body : List UInt8) :
    ∃ first, (Integer.encode index 6 0x40 ++ body).head? = some first ∧
      ∀ tail, decoder.representation fields
          (Integer.encode index 6 0x40 ++ body ++ tail) first =
        (decoder.literal (Integer.encode index 6 0x40 ++ body ++ tail) 6).map
          fun read => (fields ++ [read.1], read.2,
            { decoder with table := decoder.table.insert read.1 }) := by
  obtain ⟨first, opens, flags⟩ :=
    flags_of_encode index (by decide : 6 ≤ 8) 0x40 body
  refine ⟨first, opens, ?_⟩
  intro tail
  have top : first &&& 0x80 = 0 := (flags 7 0x80 (by decide) rfl).mpr rfl
  have next : first &&& 0x40 ≠ 0 := fun clear =>
    absurd ((flags 6 0x40 (by decide) rfl).mp clear) (by decide)
  rw [representation, if_neg (not_not.mpr top), if_pos next]
  rfl

/-- A literal whose name is indexed. -/
theorem literal_of_name
    {decoder : Decoder}
    {index : Nat}
    {name other value : String}
    {huffman : Bool}
    (positive : 0 < index)
    (found : decoder.table.get index = .ok (name, other))
    (tail : List UInt8) :
    decoder.literal
        (Integer.encode index 6 0x40 ++ Literal.encode value huffman ++ tail) 6 =
      if Encoder.AllRead [index, Literal.announced value huffman] then
        .ok ((name, value),
          (Integer.encode index 6 0x40 ++ Literal.encode value huffman).length)
      else
        .error Integer.tooLarge := by
  rw [literal, List.append_assoc,
    Integer.decode_encode _ (by decide : 6 ≤ 8) (by decide)]
  simp only [Encoder.allRead_cons, Encoder.allRead_nil, and_true]
  by_cases small : index ≤ Integer.largest
  · simp only [small, if_true, true_and, bind, Except.bind, found,
      Nat.ne_of_gt positive, if_false, List.drop_left, Literal.decode_encode,
      List.length_append]
    by_cases valueSmall : Literal.announced value huffman ≤ Integer.largest
    · simp [valueSmall]
    · simp [valueSmall]
  · simp [small, bind, Except.bind]

/-- A literal whose name is spelled out. -/
theorem literal_of_spelled
    (decoder : Decoder)
    (name value : String)
    (huffman : Bool)
    (tail : List UInt8) :
    decoder.literal
        (Integer.encode 0 6 0x40 ++
          (Literal.encode name huffman ++ Literal.encode value huffman) ++
          tail) 6 =
      if Encoder.AllRead
          [Literal.announced name huffman, Literal.announced value huffman] then
        .ok ((name, value),
          (Integer.encode 0 6 0x40 ++
            (Literal.encode name huffman ++
              Literal.encode value huffman)).length)
      else
        .error Integer.tooLarge := by
  rw [literal, List.append_assoc,
    Integer.decode_encode _ (by decide : 6 ≤ 8) (by decide)]
  simp only [Encoder.allRead_cons, Encoder.allRead_nil, and_true, Nat.zero_le,
    if_true, bind, Except.bind, List.drop_left, List.append_assoc,
    Literal.decode_encode, ← List.drop_drop]
  by_cases nameSmall : Literal.announced name huffman ≤ Integer.largest
  · simp only [nameSmall, if_true, true_and, List.drop_left,
      Literal.decode_encode]
    by_cases valueSmall : Literal.announced value huffman ≤ Integer.largest
    · simp [valueSmall, Nat.add_assoc]
    · simp [valueSmall]
  · simp [nameSmall]

/-- The octets of one field are read as that field, or refused where an
integer among them is too large. -/
theorem decodeFrom_field
    {decoder : Decoder}
    {table : Table}
    (begins : table.entries <+: decoder.table.entries)
    (huffman : Bool)
    (fields : List Field)
    (field : Field)
    (tail : List UInt8) :
    decoder.decodeFrom fields
        (Encoder.fieldOctets table huffman field ++ tail) =
      if Encoder.AllRead (Encoder.integers table huffman field) then
        { decoder with table := heard decoder.table table field }.decodeFrom
          (fields ++ [field]) tail
      else
        (.error Integer.tooLarge, decoder) := by
  obtain ⟨name, value⟩ := field
  cases finds : table.find name value with
  | none =>
      have octets : Encoder.fieldOctets table huffman (name, value) =
          Integer.encode 0 6 0x40 ++
            (Literal.encode name huffman ++ Literal.encode value huffman) := by
        rw [Encoder.fieldOctets, finds]
        rfl
      obtain ⟨first, opens, reads⟩ := representation_literal decoder fields 0
        (Literal.encode name huffman ++ Literal.encode value huffman)
      have read := reads tail
      rw [literal_of_spelled] at read
      simp only [octets, Encoder.integers, heard, Encoder.indexed, finds]
      split
      case isTrue small =>
        rw [if_pos small] at read
        exact decodeFrom_of_ok opens read
      case isFalse large =>
        rw [if_neg large] at read
        exact decodeFrom_of_error opens read
  | some found =>
      have holds := Table.holds_of_find finds
      cases found with
      | field index =>
          obtain ⟨first, opens, reads⟩ := representation_indexed fields
            (Table.get_of_isPrefix begins holds)
          have read := reads tail
          simp only [Encoder.fieldOctets, Encoder.integers, heard,
            Encoder.indexed, finds, if_true, Encoder.allRead_cons,
            Encoder.allRead_nil, and_true]
          split
          case isTrue small =>
            rw [if_pos small] at read
            exact decodeFrom_of_ok opens read
          case isFalse large =>
            rw [if_neg large] at read
            exact decodeFrom_of_error opens read
      | name index =>
          obtain ⟨other, held⟩ := holds
          obtain ⟨first, opens, reads⟩ := representation_literal decoder
            fields index (Literal.encode value huffman)
          have read := reads tail
          rw [literal_of_name (Table.get_bounds held).1
            (Table.get_of_isPrefix begins held)] at read
          simp only [Encoder.fieldOctets, Encoder.integers, heard,
            Encoder.indexed, finds]
          split
          case isTrue small =>
            rw [if_pos small] at read
            exact decodeFrom_of_ok opens read
          case isFalse large =>
            rw [if_neg large] at read
            exact decodeFrom_of_error opens read

/-! ## A whole block -/

theorem maxSize_heard
    (held table : Table)
    (field : Field) :
    (heard held table field).maxSize = held.maxSize := by
  rw [heard]
  split
  · rfl
  · exact Table.maxSize_insert _ _

/-- The encoder's table stays a beginning of the decoder's over a field. -/
theorem isPrefix_heard
    {held table : Table}
    (begins : table.entries <+: held.entries)
    (roomier : table.maxSize ≤ held.maxSize)
    (field : Field) :
    (Encoder.afterField table field).entries <+:
      (heard held table field).entries := by
  rw [Encoder.afterField, heard]
  split
  · exact begins
  · rw [Table.entries_insert, Table.entries_insert]
    exact keep_mono ((List.prefix_cons_inj field).mpr begins) roomier

/-- The fields of a block are read back in order, up to the first integer that
is too large. -/
theorem decodeFrom_fields
    (decoder : Decoder)
    {table : Table}
    (begins : table.entries <+: decoder.table.entries)
    (roomier : table.maxSize ≤ decoder.table.maxSize)
    (huffman : Bool)
    (before fields : List Field) :
    if Encoder.AllRead (Encoder.fieldsIntegers table huffman fields) then
      decoder.decodeFrom before
          (Encoder.fieldsOctets table huffman fields) =
        (.ok (before ++ fields),
          { decoder with table := follow decoder.table table fields })
    else
      (decoder.decodeFrom before
        (Encoder.fieldsOctets table huffman fields)).1 =
          .error Integer.tooLarge := by
  induction fields generalizing decoder table before with
  | nil =>
      rw [Encoder.fieldsIntegers, if_pos Encoder.allRead_nil,
        Encoder.fieldsOctets, decodeFrom, List.append_nil]
      rfl
  | cons field rest inductionHypothesis =>
      have later := inductionHypothesis
        { decoder with table := heard decoder.table table field }
        (isPrefix_heard begins roomier field)
        (by rwa [Encoder.maxSize_afterField, maxSize_heard]) (before ++ [field])
      simp only [Encoder.fieldsOctets, Encoder.fieldsIntegers,
        Encoder.allRead_append, decodeFrom_field begins]
      by_cases small : Encoder.AllRead (Encoder.integers table huffman field)
      · simpa [small, follow] using later
      · simp [small]

/-- A decoder whose table is the encoder's keeps it so. -/
theorem follow_self
    (table : Table)
    (fields : List Field) :
    follow table table fields = fields.foldl Encoder.afterField table := by
  induction fields generalizing table with
  | nil => rfl
  | cons field rest inductionHypothesis =>
      exact inductionHypothesis (Encoder.afterField table field)

/-- The encoder's table stays a beginning of the decoder's over a block. -/
theorem isPrefix_follow
    {held table : Table}
    (begins : table.entries <+: held.entries)
    (roomier : table.maxSize ≤ held.maxSize)
    (fields : List Field) :
    (fields.foldl Encoder.afterField table).entries <+:
      (follow held table fields).entries := by
  induction fields generalizing held table with
  | nil => exact begins
  | cons field rest inductionHypothesis =>
      exact inductionHypothesis (isPrefix_heard begins roomier field)
        (by rwa [Encoder.maxSize_afterField, maxSize_heard])

theorem maxSize_follow
    (held table : Table)
    (fields : List Field) :
    (follow held table fields).maxSize = held.maxSize := by
  induction fields generalizing held table with
  | nil => rfl
  | cons field rest inductionHypothesis =>
      rw [follow, inductionHypothesis, maxSize_heard]

end Decoder
end Hpack
end Http2
end XmipNet

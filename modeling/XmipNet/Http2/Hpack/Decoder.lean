import XmipNet.Http2.Hpack.Literal
import XmipNet.Http2.Hpack.Table

/-!
# The decoding side of HPACK

RFC 7541 section 6: a header block read field by field, indexed or literal, into
the list it carries, keeping the dynamic table the encoder on the other side
keeps. What the fields before a failure did to the table stays done.
-/

namespace XmipNet
namespace Http2
namespace Hpack

/-- One side's decoder: its dynamic table, and the most a size update from the
encoder may set it to. -/
structure Decoder where
  table : Table
  limit : Nat
  deriving DecidableEq

namespace Decoder

/-- A decoder whose table may hold at most `limit` octets. -/
def new (limit : Nat) : Decoder where
  table := .new limit
  limit := limit

/-- A literal field whose name is indexed in a `prefixBits`-bit prefix, or
follows as a string where the index is 0; and the octets it took. -/
def literal (decoder : Decoder) (input : List UInt8) (prefixBits : Nat) :
    Except Violation (Field × Nat) := do
  let (index, start) ← Integer.decode input prefixBits
  if index = 0 then
    let (name, nameUsed) ← Literal.decode (input.drop start)
    let (value, used) ← Literal.decode (input.drop (start + nameUsed))
    .ok ((name, value), start + nameUsed + used)
  else
    let (name, _) ← decoder.table.get index
    let (value, used) ← Literal.decode (input.drop start)
    .ok ((name, value), start + used)

/-- The refusal of a size update past the first field. -/
def lateUpdate : Violation :=
  .compression "a table size update after the first field"

/-- One representation at the start of `rest`, whose first octet is `first`: the
fields so far with the one it adds, the octets it took, and the decoder after
it. -/
def representation
    (decoder : Decoder)
    (fields : List Field)
    (rest : List UInt8)
    (first : UInt8) : Except Violation (List Field × Nat × Decoder) :=
  if first &&& 0x80 ≠ 0 then do
    let (index, used) ← Integer.decode rest 7
    let field ← decoder.table.get index
    .ok (fields ++ [field], used, decoder)
  else if first &&& 0x40 ≠ 0 then do
    let (field, used) ← decoder.literal rest 6
    .ok (fields ++ [field], used,
      { decoder with table := decoder.table.insert field })
  else if first &&& 0x20 ≠ 0 then
    if fields ≠ [] then
      .error lateUpdate
    else do
      let (size, used) ← Integer.decode rest 5
      if decoder.limit < size then
        .error (.compression
          s!"a table size of {size}, over the {decoder.limit} announced")
      else
        .ok (fields, used, { decoder with table := decoder.table.resize size })
  else do
    let (field, used) ← decoder.literal rest 4
    .ok (fields ++ [field], used, decoder)

theorem one_le_of_literal
    {decoder : Decoder}
    {input : List UInt8}
    {prefixBits used : Nat}
    {field : Field}
    (reads : decoder.literal input prefixBits = .ok (field, used)) :
    1 ≤ used := by
  simp only [literal, bind, Except.bind] at reads
  split at reads
  · cases reads
  next pair integer =>
    have first := Integer.one_le_of_decode integer
    split at reads
    · split at reads
      · cases reads
      · split at reads
        · cases reads
        · cases reads
          omega
    · split at reads
      · cases reads
      · split at reads
        · cases reads
        · cases reads
          omega

/-- Every representation takes at least one octet. -/
theorem one_le_of_representation
    {decoder after : Decoder}
    {fields fieldsAfter : List Field}
    {rest : List UInt8}
    {first : UInt8}
    {used : Nat}
    (reads : decoder.representation fields rest first =
      .ok (fieldsAfter, used, after)) :
    1 ≤ used := by
  simp only [representation, bind, Except.bind] at reads
  split at reads
  · split at reads
    · cases reads
    next pair integer =>
      split at reads
      · cases reads
      · cases reads
        exact Integer.one_le_of_decode integer
  · split at reads
    · split at reads
      · cases reads
      next pair literal =>
        cases reads
        exact one_le_of_literal literal
    · split at reads
      · split at reads
        · cases reads
        · split at reads
          · cases reads
          next pair integer =>
            split at reads
            · cases reads
            · cases reads
              exact Integer.one_le_of_decode integer
      · split at reads
        · cases reads
        next pair literal =>
          cases reads
          exact one_le_of_literal literal

/-- The fields of what is left of a block, after those already read. -/
def decodeFrom
    (decoder : Decoder)
    (fields : List Field)
    (rest : List UInt8) : Except Violation (List Field) × Decoder :=
  match rest with
  | [] => (.ok fields, decoder)
  | first :: tail =>
      match _reads : decoder.representation fields (first :: tail) first with
      | .error violation => (.error violation, decoder)
      | .ok (fieldsAfter, used, after) =>
          decodeFrom after fieldsAfter ((first :: tail).drop used)
termination_by rest.length
decreasing_by
  have positive := one_le_of_representation _reads
  rw [List.length_drop, List.length_cons]
  omega

/-- Every field of `block`, in order, and the decoder after it. -/
def decode (decoder : Decoder) (block : List UInt8) :
    Except Violation (List Field) × Decoder :=
  decoder.decodeFrom [] block

end Decoder
end Hpack
end Http2
end XmipNet

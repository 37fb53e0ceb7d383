import XmipNet.Http2.Hpack.Literal
import XmipNet.Http2.Hpack.Table

/-!
# The encoding side of HPACK

RFC 7541 section 6: a header list written as a block, each field indexed where
the table holds it whole, otherwise a literal added to the table, its name
indexed where the table holds that. A size change is announced at the start of
the next block.
-/

namespace XmipNet
namespace Http2
namespace Hpack

/-- One side's encoder: its dynamic table, whether strings are Huffman-coded,
and a size change the next block must announce. -/
structure Encoder where
  table : Table
  huffman : Bool
  pending : Option Nat
  deriving DecidableEq

namespace Encoder

/-- An encoder with a table of `maxSize` octets. -/
def new (maxSize : Nat) (huffman : Bool) : Encoder where
  table := .new maxSize
  huffman := huffman
  pending := none

/-- Hold the table to `maxSize` octets and announce it at the start of the
next block. -/
def resize (encoder : Encoder) (maxSize : Nat) : Encoder :=
  if maxSize ≠ encoder.table.maxSize then
    { encoder with
      table := encoder.table.resize maxSize
      pending := some maxSize }
  else
    encoder

/-- The octets of one field. -/
def fieldOctets (table : Table) (huffman : Bool) (field : Field) :
    List UInt8 :=
  match table.find field.1 field.2 with
  | some (.field index) => Integer.encode index 7 0x80
  | some (.name index) =>
      Integer.encode index 6 0x40 ++ Literal.encode field.2 huffman
  | none =>
      0x40 :: (Literal.encode field.1 huffman ++
        Literal.encode field.2 huffman)

/-- Whether a field is written as an index of the whole field, which leaves the
table as it is. -/
def indexed (table : Table) (field : Field) : Bool :=
  match table.find field.1 field.2 with
  | some (.field _) => true
  | _ => false

/-- The table after one field: a literal is added. -/
def afterField (table : Table) (field : Field) : Table :=
  if indexed table field then table else table.insert field

/-- The octets of a list of fields. -/
def fieldsOctets (table : Table) (huffman : Bool) : List Field → List UInt8
  | [] => []
  | field :: rest =>
      fieldOctets table huffman field ++
        fieldsOctets (afterField table field) huffman rest

/-- The announcement of a pending size change. -/
def announcement : Option Nat → List UInt8
  | some size => Integer.encode size 5 0x20
  | none => []

/-- `fields` as one header block, and the encoder after it. -/
def encode (encoder : Encoder) (fields : List Field) :
    List UInt8 × Encoder :=
  (announcement encoder.pending ++
      fieldsOctets encoder.table encoder.huffman fields,
    { encoder with
      table := fields.foldl afterField encoder.table
      pending := none })

end Encoder
end Hpack
end Http2
end XmipNet

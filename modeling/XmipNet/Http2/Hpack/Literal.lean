import XmipNet.Text
import XmipNet.Http2.Hpack.Huffman
import XmipNet.Http2.Hpack.Integer

/-!
# The string literal of HPACK

RFC 7541 section 5.2: a Huffman flag, the length in a seven-bit prefix, and the
octets, raw or Huffman-coded. A text is read back with the octets it took,
whatever follows it, unless its length passes what an integer may be.
-/

namespace XmipNet
namespace Http2
namespace Hpack
namespace Literal

/-- The octets appended for `text`, Huffman-coded where `huffman` asks for it
and the code is no longer than the octets themselves. -/
def encode (text : String) (huffman : Bool) : List UInt8 :=
  let bytes := Text.octets text
  let coded := Huffman.encodedLen bytes
  if huffman ∧ coded ≤ bytes.length then
    Integer.encode coded 7 0x80 ++ Huffman.encode bytes
  else
    Integer.encode bytes.length 7 0 ++ bytes

/-- The refusal of an input that ends inside a string. -/
def truncated : Violation :=
  .compression "the block ends inside a string"

/-- The refusal of a string that is not text. -/
def notUtf8 : Violation :=
  .compression "a header string that is not UTF-8"

/-- The string at the start of `input`, and the octets it took. -/
def decode (input : List UInt8) : Except Violation (String × Nat) := do
  let coded := (input.head?.map fun octet => octet &&& 0x80 != 0).getD false
  let (length, start) ← Integer.decode input 7
  if start + length ≤ input.length then
    let raw := (input.drop start).take length
    let bytes ← if coded then Huffman.decode raw else .ok raw
    match Text.fromUtf8 bytes with
    | some text => .ok (text, start + length)
    | none => .error notUtf8
  else
    .error truncated

/-- The length announced for `text`. -/
def announced (text : String) (huffman : Bool) : Nat :=
  let bytes := Text.octets text
  if huffman ∧ Huffman.encodedLen bytes ≤ bytes.length then
    Huffman.encodedLen bytes
  else
    bytes.length

theorem announced_le (text : String) (huffman : Bool) :
    announced text huffman ≤ (Text.octets text).length := by
  rw [announced]
  split
  case isTrue coded => exact coded.2
  case isFalse => exact le_refl _

/-- No more is announced for `text` than is written for it. -/
theorem announced_le_length (text : String) (huffman : Bool) :
    announced text huffman ≤ (encode text huffman).length := by
  rw [announced, encode]
  split
  case isTrue =>
    rw [List.length_append, Huffman.length_encode]
    exact Nat.le_add_left _ _
  case isFalse =>
    rw [List.length_append]
    exact Nat.le_add_left _ _

/-- The top bit of the first octet of a length is its flag. -/
theorem head_encode_flag
    {flags : UInt8}
    (flag : flags = 0 ∨ flags = 0x80)
    (value : Nat) :
    ∃ head rest, Integer.encode value 7 flags = head :: rest ∧
      (head &&& 0x80 != 0) = (flags != 0) := by
  obtain ⟨octet, rest, written, low⟩ :=
    Integer.head_encode value (by decide : 7 ≤ 8) flags
  refine ⟨_, rest, written, ?_⟩
  have top : (flags ||| octet) &&& 0x80 = 0 ↔ flags &&& 0x80 = 0 :=
    Integer.or_and_eq_zero_iff low (le_refl 7) rfl
  apply Bool.eq_iff_iff.mpr
  rw [bne_iff_ne, bne_iff_ne, ne_eq, ne_eq, top]
  rcases flag with rfl | rfl <;> decide

/-- A length and that many octets after it are taken apart again. -/
theorem decode_encode_octets
    {flags : UInt8}
    (flag : flags = 0 ∨ flags = 0x80)
    (body tail : List UInt8) :
    decode (Integer.encode body.length 7 flags ++ body ++ tail) =
      if body.length ≤ Integer.largest then do
        let bytes ← if flags != 0 then Huffman.decode body else .ok body
        match Text.fromUtf8 bytes with
        | some text => .ok (text,
            (Integer.encode body.length 7 flags ++ body).length)
        | none => .error notUtf8
      else
        .error Integer.tooLarge := by
  obtain ⟨head, rest, written, top⟩ := head_encode_flag flag body.length
  have clear : flags.toNat % 2 ^ 7 = 0 := by
    rcases flag with rfl | rfl <;> rfl
  have length := Integer.decode_encode body.length (by decide)
    clear (body ++ tail)
  have coded : ((Integer.encode body.length 7 flags ++ (body ++ tail)).head?.map
      fun octet => octet &&& 0x80 != 0).getD false = (flags != 0) := by
    rw [written]
    exact top
  rw [List.append_assoc, decode, coded, length]
  by_cases bounded : body.length ≤ Integer.largest
  · rw [if_pos bounded, if_pos bounded]
    simp only [bind, Except.bind, List.length_append, List.drop_left',
      List.take_left']
    rw [if_pos (by omega)]
  · rw [if_neg bounded, if_neg bounded]
    rfl

/-- A text is read back with the octets it took, or refused where the length
announced for it is past the largest integer. -/
theorem decode_encode
    (text : String)
    (huffman : Bool)
    (tail : List UInt8) :
    decode (encode text huffman ++ tail) =
      if announced text huffman ≤ Integer.largest then
        .ok (text, (encode text huffman).length)
      else
        .error Integer.tooLarge := by
  rw [encode, announced]
  by_cases coded : huffman = true ∧
      Huffman.encodedLen (Text.octets text) ≤ (Text.octets text).length
  · rw [if_pos coded, if_pos coded, ← Huffman.length_encode,
      decode_encode_octets (Or.inr rfl)]
    simp [Huffman.decode_encode, bind, Except.bind]
  · rw [if_neg coded, if_neg coded, decode_encode_octets (Or.inl rfl)]
    simp [bind, Except.bind]

end Literal
end Hpack
end Http2
end XmipNet

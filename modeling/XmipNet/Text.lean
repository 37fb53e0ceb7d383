import Mathlib.Algebra.Order.Ring.Nat
import Mathlib.Data.List.Basic

/-!
# Text as the octets that carry it

A text is a sequence of Unicode characters kept as UTF-8, as the standard
library's string is. This module names its octets, reads octets back as text
where they are UTF-8, and gives the few operations on ASCII that the protocols
use.
-/

namespace XmipNet
namespace Text

/-- The UTF-8 octets of `text`. -/
def octets (text : String) : List UInt8 :=
  text.toByteArray.data.toList

/-- The text that `bytes` are the UTF-8 octets of, where they are. -/
def fromUtf8 (bytes : List UInt8) : Option String :=
  String.fromUTF8? bytes.toByteArray

/-- Whether `text` opens with `character`. -/
def opensWith (text : String) (character : Char) : Bool :=
  text.toList.head? = some character

/-- `text` with its ASCII capitals made small. -/
def lowercase (text : String) : String :=
  String.ofList (text.toList.map Char.toLower)

/-- The number that decimal digits hold. -/
def decimal (digits : List Char) : Nat :=
  digits.foldl (fun value digit => value * 10 + (digit.toNat - 48)) 0

/-- `text` as an unsigned number of `bits` bits: decimal digits, a plus sign
allowed before them. -/
def parseUnsigned (bits : Nat) (text : String) : Option Nat :=
  let digits :=
    match text.toList with
    | '+' :: rest => rest
    | characters => characters
  if digits ≠ [] ∧ digits.all Char.isDigit ∧ decimal digits < 2 ^ bits then
    some (decimal digits)
  else
    none

/-- One character as a quoted text shows it. -/
def escaped (character : Char) : List Char :=
  match character with
  | '"' => ['\\', '"']
  | '\\' => ['\\', '\\']
  | '\t' => ['\\', 't']
  | '\r' => ['\\', 'r']
  | '\n' => ['\\', 'n']
  | '\x00' => ['\\', '0']
  | _ =>
      if character.toNat < 32 ∨ character.toNat = 127 then
        ['\\', 'u', '\x7b'] ++ Nat.toDigits 16 character.toNat ++ ['\x7d']
      else
        [character]

/-- `text` in quotes, as a message shows a text it was given. -/
def debug (text : String) : String :=
  String.ofList ('"' :: (text.toList.flatMap escaped ++ ['"']))

/-- `text` before and after its first `character`, where it has one. -/
def splitOnce (text : String) (character : Char) : Option (String × String) :=
  let characters := text.toList
  if character ∈ characters then
    some (String.ofList (characters.takeWhile (· ≠ character)),
      String.ofList ((characters.dropWhile (· ≠ character)).drop 1))
  else
    none

theorem octets_injective : Function.Injective octets := by
  intro left right equal
  apply String.toByteArray_inj.mp
  apply ByteArray.ext
  exact Array.toList_inj.mp equal

theorem octets_ofList (characters : List Char) :
    octets (String.ofList characters) =
      characters.flatMap String.utf8EncodeChar := by
  rw [octets, String.toByteArray_ofList, List.utf8Encode]
  exact List.toList_data_toByteArray

theorem octets_append (first second : String) :
    octets (first ++ second) = octets first ++ octets second := by
  rw [octets, octets, octets, String.toByteArray_append]
  simp

/-- The octets of a text read back as that text. -/
@[simp] theorem fromUtf8_octets (text : String) :
    fromUtf8 (octets text) = some text := by
  have bytes : (octets text).toByteArray = text.toByteArray := by
    apply ByteArray.ext
    apply Array.toList_inj.mp
    rw [List.toList_data_toByteArray]
    rfl
  rw [fromUtf8, bytes, String.fromUTF8?, dif_pos text.isValidUTF8]
  rfl

/-- A text read from some octets is carried by them. -/
theorem octets_of_fromUtf8
    {bytes : List UInt8}
    {text : String}
    (reads : fromUtf8 bytes = some text) :
    octets text = bytes := by
  rw [fromUtf8, String.fromUTF8?] at reads
  split at reads
  · obtain rfl := Option.some.inj reads
    exact List.toList_data_toByteArray
  · cases reads

end Text
end XmipNet

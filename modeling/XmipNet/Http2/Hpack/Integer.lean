import XmipNet.Http2.Error
import Mathlib.Algebra.Order.Ring.Nat
import Mathlib.Tactic.Ring

/-!
# The integer representation of HPACK

RFC 7541 section 5.1: a value in an N-bit prefix of an octet and, where it does
not fit, the rest in seven-bit groups, least significant first. Reading what was
written gives the value back exactly when it is at most `largest`; a larger one
is refused rather than misread.
-/

namespace XmipNet
namespace Http2
namespace Hpack
namespace Integer

/-- The largest value read. -/
def largest : Nat := 2 ^ 32 - 1

/-- `value` as an octet, or `fallback` where it does not fit one. -/
def octetOr (fallback : UInt8) (value : Nat) : UInt8 :=
  if value < 256 then UInt8.ofNat value else fallback

/-- The rest of a value past its prefix: seven bits to an octet, the top bit
set on every octet but the last. -/
def groups (rest : Nat) : List UInt8 :=
  if 128 ≤ rest then
    (octetOr 0 (rest % 128) ||| 0x80) :: groups (rest / 128)
  else
    [octetOr 0 rest]
termination_by rest
decreasing_by omega

/-- The octets appended for `value` in a `prefixBits`-bit prefix, the first
octet's higher bits taken from `flags`. -/
def encode (value prefixBits : Nat) (flags : UInt8) : List UInt8 :=
  let limit := 2 ^ prefixBits - 1
  if value < limit then
    [flags ||| octetOr 255 value]
  else
    (flags ||| octetOr 255 limit) :: groups (value - limit)

/-- The refusal of an input that ends inside a value. -/
def truncated : Violation :=
  .compression "the block ends inside an integer"

/-- The refusal of a value past `largest`. -/
def tooLarge : Violation :=
  .compression "an integer over 2^32 - 1"

/-- The groups after a full prefix, `value` so far, the next group shifted by
`shift`, `used` octets read. A shift drops what passes the `usizeBits` of the
machine's word; an addition that passes them fails. -/
def continued (usizeBits : Nat) :
    List UInt8 → (value shift used : Nat) → Except Violation (Nat × Nat)
  | [], _, _, _ => .error truncated
  | octet :: rest, value, shift, used =>
      if shift < usizeBits ∧ shift < 32 then
        let group := ((octet &&& 0x7f).toNat <<< shift) % 2 ^ usizeBits
        let value := value + group
        if value < 2 ^ usizeBits ∧ value ≤ largest then
          if octet &&& 0x80 = 0 then
            .ok (value, used + 1)
          else
            continued usizeBits rest value (shift + 7) (used + 1)
        else
          .error tooLarge
      else
        .error tooLarge

/-- The value in a `prefixBits`-bit prefix at the start of `input`, and the
octets it took, on a machine of `usizeBits`-bit words. -/
def decodeOn
    (usizeBits : Nat)
    (input : List UInt8)
    (prefixBits : Nat) : Except Violation (Nat × Nat) :=
  let limit := 2 ^ prefixBits - 1
  match input with
  | [] => .error truncated
  | head :: rest =>
      let first := head.toNat &&& limit
      if first < limit then
        .ok (first, 1)
      else
        continued usizeBits rest limit 0 1

/-- Reading on a machine of 64-bit words. -/
def decode (input : List UInt8) (prefixBits : Nat) :
    Except Violation (Nat × Nat) :=
  decodeOn 64 input prefixBits

/-! ## Octets as numbers -/

theorem toNat_octetOr
    (fallback : UInt8)
    {value : Nat}
    (fits : value < 256) :
    (octetOr fallback value).toNat = value := by
  rw [octetOr, if_pos fits]
  exact UInt8.toNat_ofNat_of_lt' fits

theorem toNat_low (octet : UInt8) :
    (octet &&& 0x7f).toNat = octet.toNat % 128 := by
  rw [UInt8.toNat_and]
  exact Nat.and_two_pow_sub_one_eq_mod octet.toNat 7

theorem high_eq_zero_iff (octet : UInt8) :
    octet &&& 0x80 = 0 ↔ octet.toNat < 128 := by
  have every : ∀ index : Fin 256,
      index.val &&& 128 = 0 ↔ index.val < 128 := by decide +kernel
  rw [← UInt8.toNat_inj, UInt8.toNat_and]
  exact every ⟨octet.toNat, octet.toNat_lt⟩

theorem toNat_or_high
    {octet : UInt8}
    (low : octet.toNat < 128) :
    (octet ||| 0x80).toNat = octet.toNat + 128 := by
  rw [UInt8.toNat_or, Nat.or_comm]
  have sum := Nat.two_pow_add_eq_or_of_lt (i := 7) low 1
  rw [Nat.mul_one] at sum
  exact sum.symm.trans (Nat.add_comm _ _)

/-- Flags that leave the prefix clear do not change what the prefix holds. -/
theorem or_and_limit
    {prefixBits value : Nat}
    {flags octet : UInt8}
    (clear : flags.toNat % 2 ^ prefixBits = 0)
    (holds : octet.toNat = value)
    (bounded : value < 2 ^ prefixBits) :
    (flags ||| octet).toNat &&& (2 ^ prefixBits - 1) = value := by
  rw [UInt8.toNat_or, Nat.and_two_pow_sub_one_eq_mod, Nat.or_mod_two_pow,
    clear, Nat.zero_or, holds, Nat.mod_eq_of_lt bounded]

/-! ## Reading back what was written -/

/-- A shifted group keeps its bits where the word is wide enough for any group
or the group stays under `largest`. -/
theorem shifted_group
    {usizeBits shift low value : Nat}
    (wide : 32 ≤ usizeBits)
    (shiftBounded : shift < 32)
    (small : low < 128)
    (lossless : 39 ≤ usizeBits ∨ value + low * 2 ^ shift ≤ largest) :
    (low <<< shift) % 2 ^ usizeBits = low * 2 ^ shift := by
  rw [Nat.shiftLeft_eq]
  apply Nat.mod_eq_of_lt
  rcases lossless with wider | bounded
  · calc
      low * 2 ^ shift < 2 ^ 7 * 2 ^ 32 :=
        Nat.mul_lt_mul_of_lt_of_le small
          (Nat.pow_le_pow_right two_pos shiftBounded.le) (by decide)
      _ = 2 ^ 39 := by decide
      _ ≤ 2 ^ usizeBits := Nat.pow_le_pow_right two_pos wider
  · calc
      low * 2 ^ shift ≤ value + low * 2 ^ shift := Nat.le_add_left _ _
      _ ≤ largest := bounded
      _ < 2 ^ 32 := by decide
      _ ≤ 2 ^ usizeBits := Nat.pow_le_pow_right two_pos wide

theorem groups_append_ne_nil
    (rest : Nat)
    (tail : List UInt8) :
    groups rest ++ tail ≠ [] := by
  rw [groups]
  split <;> simp

/-- A group past the thirty-second bit is refused. -/
theorem continued_past
    {usizeBits shift : Nat}
    (past : 32 ≤ shift)
    {input : List UInt8}
    (nonempty : input ≠ [])
    (value used : Nat) :
    continued usizeBits input value shift used = .error tooLarge := by
  obtain ⟨octet, rest, rfl⟩ := List.exists_cons_of_ne_nil nonempty
  rw [continued, if_neg (fun bounded => absurd bounded.2 (not_lt.mpr past))]

/-- The groups written for a rest are read as that rest at their shift, or
refused where the sum passes `largest`. -/
theorem continued_groups
    {usizeBits : Nat}
    (wide : 32 ≤ usizeBits)
    (rest value shift used : Nat)
    (shiftBounded : shift < 32)
    (lossless : 39 ≤ usizeBits ∨ value + rest * 2 ^ shift ≤ largest)
    (tail : List UInt8) :
    continued usizeBits (groups rest ++ tail) value shift used =
      if value + rest * 2 ^ shift ≤ largest then
        .ok (value + rest * 2 ^ shift, used + (groups rest).length)
      else
        .error tooLarge := by
  have wordBound : largest < 2 ^ usizeBits :=
    lt_of_lt_of_le (by decide) (Nat.pow_le_pow_right two_pos wide)
  have shiftWide : shift < usizeBits := lt_of_lt_of_le shiftBounded wide
  induction rest using Nat.strongRecOn generalizing value shift used with
  | ind rest inductionHypothesis =>
      rw [groups]
      split
      case isTrue more =>
        have lowSmall : rest % 128 < 128 := Nat.mod_lt _ (by decide)
        have low : (octetOr 0 (rest % 128)).toNat = rest % 128 :=
          toNat_octetOr 0 (by omega)
        have octet :
            (octetOr 0 (rest % 128) ||| 0x80).toNat = rest % 128 + 128 := by
          rw [toNat_or_high (by omega), low]
        have total : value + rest * 2 ^ shift =
            value + rest % 128 * 2 ^ shift +
              rest / 128 * 2 ^ (shift + 7) := by
          have split := Nat.div_add_mod rest 128
          calc
            value + rest * 2 ^ shift =
                value + (128 * (rest / 128) + rest % 128) * 2 ^ shift := by
              rw [split]
            _ = _ := by ring
        have partialLossless : 39 ≤ usizeBits ∨
            value + rest % 128 * 2 ^ shift ≤ largest := by
          omega
        have high : ¬(octetOr 0 (rest % 128) ||| 0x80) &&& 0x80 = 0 := by
          rw [high_eq_zero_iff, octet]
          omega
        rw [List.cons_append, continued, if_pos ⟨shiftWide, shiftBounded⟩]
        simp only [toNat_low, octet, Nat.add_mod_right, Nat.mod_mod]
        rw [shifted_group wide shiftBounded lowSmall partialLossless]
        have moreRest : 1 ≤ rest / 128 := by omega
        by_cases bounded : value + rest % 128 * 2 ^ shift ≤ largest
        · rw [if_pos ⟨lt_of_le_of_lt bounded wordBound, bounded⟩, if_neg high,
            List.length_cons, total]
          by_cases nextShift : shift + 7 < 32
          · rw [inductionHypothesis (rest / 128) (by omega) _ _ _ nextShift
              (total ▸ lossless) (lt_of_lt_of_le nextShift wide)]
            simp only [Nat.add_assoc, Nat.add_comm 1]
          · have past : largest < rest / 128 * 2 ^ (shift + 7) := by
              calc
                largest < 1 * 2 ^ 32 := by decide
                _ ≤ rest / 128 * 2 ^ (shift + 7) :=
                  Nat.mul_le_mul moreRest
                    (Nat.pow_le_pow_right two_pos (not_lt.mp nextShift))
            rw [if_neg (by omega), continued_past (not_lt.mp nextShift)
              (groups_append_ne_nil _ _)]
        · rw [if_neg (fun fits => bounded fits.2), if_neg (by omega)]
      case isFalse last =>
        have octet : (octetOr 0 rest).toNat = rest :=
          toNat_octetOr 0 (by omega)
        have high : octetOr 0 rest &&& 0x80 = 0 := by
          rw [high_eq_zero_iff, octet]
          omega
        rw [List.singleton_append, continued,
          if_pos ⟨shiftWide, shiftBounded⟩]
        simp only [toNat_low, octet, Nat.mod_eq_of_lt (not_le.mp last), high]
        rw [shifted_group wide shiftBounded (not_le.mp last) lossless]
        by_cases bounded : value + rest * 2 ^ shift ≤ largest
        · simp [bounded, lt_of_le_of_lt bounded wordBound]
        · simp [bounded]

/-- What is left of a value once its prefix is full. -/
theorem encode_of_limit_le
    {value prefixBits : Nat}
    (flags : UInt8)
    (full : 2 ^ prefixBits - 1 ≤ value) :
    encode value prefixBits flags =
      (flags ||| octetOr 255 (2 ^ prefixBits - 1)) ::
        groups (value - (2 ^ prefixBits - 1)) := by
  rw [encode, if_neg (not_lt.mpr full)]

/-- The first octet of a value: its flags over what its prefix holds. -/
theorem head_encode
    (value : Nat)
    {prefixBits : Nat}
    (inOctet : prefixBits ≤ 8)
    (flags : UInt8) :
    ∃ octet rest, encode value prefixBits flags = (flags ||| octet) :: rest ∧
      octet.toNat < 2 ^ prefixBits := by
  have powerPositive : 0 < 2 ^ prefixBits := Nat.two_pow_pos _
  have powerBound : 2 ^ prefixBits ≤ 2 ^ 8 :=
    Nat.pow_le_pow_right two_pos inOctet
  by_cases short : value < 2 ^ prefixBits - 1
  · refine ⟨_, _, by rw [encode, if_pos short], ?_⟩
    rw [toNat_octetOr 255 (by omega)]
    omega
  · refine ⟨_, _, encode_of_limit_le flags (not_lt.mp short), ?_⟩
    rw [toNat_octetOr 255 (by omega)]
    omega

/-- A bit above the prefix is the flags' own. -/
theorem or_and_eq_zero_iff
    {prefixBits place : Nat}
    {flags octet mask : UInt8}
    (low : octet.toNat < 2 ^ prefixBits)
    (above : prefixBits ≤ place)
    (bit : mask.toNat = 2 ^ place) :
    (flags ||| octet) &&& mask = 0 ↔ flags &&& mask = 0 := by
  have clear : octet.toNat &&& mask.toNat = 0 := by
    have unset : octet.toNat.testBit place = false :=
      Nat.testBit_lt_two_pow
        (lt_of_lt_of_le low (Nat.pow_le_pow_right two_pos above))
    apply Nat.eq_of_testBit_eq
    intro index
    rw [bit, Nat.testBit_and, Nat.testBit_two_pow, Nat.zero_testBit]
    by_cases same : place = index
    · rw [← same, unset, Bool.false_and]
    · simp [same]
  rw [← UInt8.toNat_inj, ← UInt8.toNat_inj, UInt8.toNat_and, UInt8.toNat_or,
    UInt8.toNat_and, Nat.and_or_distrib_right, clear, Nat.or_zero]

/-- A value takes at least its first octet. -/
theorem one_le_of_continued
    {usizeBits : Nat}
    {input : List UInt8}
    {value shift used result taken : Nat}
    (reads : continued usizeBits input value shift used = .ok (result, taken)) :
    used + 1 ≤ taken := by
  induction input generalizing value shift used with
  | nil => cases reads
  | cons octet rest inductionHypothesis =>
      simp only [continued] at reads
      split at reads
      · split at reads
        · split at reads
          · cases reads
            exact le_refl _
          · have more := inductionHypothesis reads
            omega
        · cases reads
      · cases reads

theorem one_le_of_decode
    {input : List UInt8}
    {prefixBits value taken : Nat}
    (reads : decode input prefixBits = .ok (value, taken)) :
    1 ≤ taken := by
  cases input with
  | nil => cases reads
  | cons head rest =>
      simp only [decode, decodeOn] at reads
      split at reads
      · cases reads
        exact le_refl _
      · have more := one_le_of_continued reads
        omega

/-- A value written in a prefix of one to eight bits is read back with the
octets it took, whatever follows; one past `largest` is refused. -/
theorem decodeOn_encode
    {usizeBits : Nat}
    (wide : 32 ≤ usizeBits)
    {value prefixBits : Nat}
    {flags : UInt8}
    (inOctet : prefixBits ≤ 8)
    (clear : flags.toNat % 2 ^ prefixBits = 0)
    (lossless : 39 ≤ usizeBits ∨ value ≤ largest)
    (tail : List UInt8) :
    decodeOn usizeBits (encode value prefixBits flags ++ tail) prefixBits =
      if value ≤ largest then
        .ok (value, (encode value prefixBits flags).length)
      else
        .error tooLarge := by
  have powerPositive : 0 < 2 ^ prefixBits := Nat.two_pow_pos _
  have powerBound : 2 ^ prefixBits ≤ 2 ^ 8 :=
    Nat.pow_le_pow_right two_pos inOctet
  have limitSmall : 2 ^ prefixBits - 1 ≤ largest :=
    le_trans (by omega : 2 ^ prefixBits - 1 ≤ 2 ^ 8) (by decide)
  by_cases short : value < 2 ^ prefixBits - 1
  · have held : (flags ||| octetOr 255 value).toNat &&& (2 ^ prefixBits - 1) =
        value :=
      or_and_limit clear (toNat_octetOr 255 (by omega)) (by omega)
    rw [encode, if_pos short, List.singleton_append, decodeOn]
    simp only [held, if_pos short]
    rw [if_pos (by omega)]
    rfl
  · have full : 2 ^ prefixBits - 1 ≤ value := not_lt.mp short
    have held :
        (flags ||| octetOr 255 (2 ^ prefixBits - 1)).toNat &&&
          (2 ^ prefixBits - 1) = 2 ^ prefixBits - 1 :=
      or_and_limit clear (toNat_octetOr 255 (by omega)) (by omega)
    have restored : 2 ^ prefixBits - 1 +
        (value - (2 ^ prefixBits - 1)) * 2 ^ 0 = value := by
      omega
    rw [encode_of_limit_le flags full, List.cons_append, decodeOn]
    simp only [held, lt_irrefl, if_false]
    rw [continued_groups wide _ _ _ _ (by decide)
      (by rwa [restored]), restored, List.length_cons, Nat.add_comm 1]

/-- Reading back on a 64-bit machine. -/
theorem decode_encode
    (value : Nat)
    {prefixBits : Nat}
    {flags : UInt8}
    (inOctet : prefixBits ≤ 8)
    (clear : flags.toNat % 2 ^ prefixBits = 0)
    (tail : List UInt8) :
    decode (encode value prefixBits flags ++ tail) prefixBits =
      if value ≤ largest then
        .ok (value, (encode value prefixBits flags).length)
      else
        .error tooLarge :=
  decodeOn_encode (by decide) inOctet clear (Or.inl (by decide)) tail

end Integer
end Hpack
end Http2
end XmipNet

import XmipNet.Http2.Hpack.Integer

/-!
# Integers on words of 32 and of 64 bits

An integer that is read is the value its octets stand for: what its prefix holds
and seven bits of each octet after it, each group worth 128 times the one
before. A shift does not say which bits it drops, so on words of 32 bits the
fifth group, twenty-eight places up, can lose its higher three and be read as
less than it is.
-/

namespace XmipNet
namespace Http2
namespace Hpack
namespace Integer

/-- What groups are worth, the first of them at `place`. -/
def worth (place : Nat) : List UInt8 → Nat
  | [] => 0
  | octet :: rest => octet.toNat % 128 * 128 ^ place + worth (place + 1) rest

/-- The value that octets stand for: what the prefix of the first holds and what
the groups after it are worth. -/
def valueOf (prefixBits : Nat) : List UInt8 → Nat
  | [] => 0
  | head :: rest => head.toNat % 2 ^ prefixBits + worth 0 rest

/-- What is read is the value that the octets it took stand for, at most
`largest`. -/
def Exact (usizeBits prefixBits : Nat) (input : List UInt8) : Prop :=
  ∀ value taken, decodeOn usizeBits input prefixBits = .ok (value, taken) →
    taken ≤ input.length ∧ value = valueOf prefixBits (input.take taken) ∧
      value ≤ largest

/-- An integer that goes on to a fifth group, which ends it and has a bit past
its lowest four, and which without those bits is not too large. -/
def Sheds (prefixBits : Nat) (input : List UInt8) : Prop :=
  ∃ head earlier last rest, input = head :: (earlier ++ last :: rest) ∧
    head.toNat % 2 ^ prefixBits = 2 ^ prefixBits - 1 ∧
    earlier.length = 4 ∧ (∀ octet ∈ earlier, 128 ≤ octet.toNat) ∧
    16 ≤ last.toNat ∧ last.toNat < 128 ∧
    2 ^ prefixBits - 1 + worth 0 earlier + last.toNat % 16 * 2 ^ 28 ≤ largest

theorem worth_append
    (place : Nat)
    (earlier later : List UInt8) :
    worth place (earlier ++ later) =
      worth place earlier + worth (place + earlier.length) later := by
  induction earlier generalizing place with
  | nil => exact (Nat.zero_add _).symm
  | cons octet earlier inductionHypothesis =>
      rw [List.cons_append, worth, worth, inductionHypothesis, List.length_cons,
        Nat.add_assoc (octet.toNat % 128 * 128 ^ place), Nat.add_assoc place 1,
        Nat.add_comm 1]

/-! ## One group -/

theorem shift_eq (low place : Nat) :
    low <<< (7 * place) = low * 128 ^ place := by
  rw [Nat.shiftLeft_eq, Nat.pow_mul]

/-- A group keeps its bits on a wide word, before the fifth, and where it has
none past its lowest four. -/
theorem group_kept
    {usizeBits place low : Nat}
    (wide : 32 ≤ usizeBits)
    (early : place ≤ 4)
    (small : low < 128)
    (keeps : 39 ≤ usizeBits ∨ place < 4 ∨ low < 16) :
    (low <<< (7 * place)) % 2 ^ usizeBits = low * 128 ^ place := by
  rw [shift_eq]
  apply Nat.mod_eq_of_lt
  have power : 128 ^ place ≤ 128 ^ 4 := Nat.pow_le_pow_right (by decide) early
  have word : 2 ^ 32 ≤ 2 ^ usizeBits := Nat.pow_le_pow_right two_pos wide
  rcases keeps with wider | before | low'
  · have more : 2 ^ 39 ≤ 2 ^ usizeBits := Nat.pow_le_pow_right two_pos wider
    have bound : low * 128 ^ place ≤ 127 * 128 ^ 4 :=
      Nat.mul_le_mul (Nat.le_of_lt_succ small) power
    omega
  · have less : 128 ^ place ≤ 128 ^ 3 :=
      Nat.pow_le_pow_right (by decide) (Nat.le_of_lt_succ before)
    have bound : low * 128 ^ place ≤ 127 * 128 ^ 3 :=
      Nat.mul_le_mul (Nat.le_of_lt_succ small) less
    omega
  · have bound : low * 128 ^ place ≤ 15 * 128 ^ 4 :=
      Nat.mul_le_mul (Nat.le_of_lt_succ low') power
    omega

/-- The fifth group keeps its lowest four bits on a word of 32. -/
theorem group_shed (low : Nat) :
    (low <<< (7 * 4)) % 2 ^ 32 = low % 16 * 2 ^ 28 := by
  rw [Nat.shiftLeft_eq]
  exact Nat.mul_mod_mul_right (2 ^ 28) low 16

/-- What one more group does. -/
theorem continued_cons
    {usizeBits place : Nat}
    (wide : 32 ≤ usizeBits)
    (early : place ≤ 4)
    (octet : UInt8)
    (rest : List UInt8)
    (value used : Nat) :
    continued usizeBits (octet :: rest) value (7 * place) used =
      let sum := value + (octet.toNat % 128) <<< (7 * place) % 2 ^ usizeBits
      if sum ≤ largest then
        if octet.toNat < 128 then
          .ok (sum, used + 1)
        else
          continued usizeBits rest sum (7 * (place + 1)) (used + 1)
      else
        .error tooLarge := by
  have shift : 7 * place < usizeBits ∧ 7 * place < 32 := by omega
  have word : largest < 2 ^ usizeBits :=
    lt_of_lt_of_le (by decide) (Nat.pow_le_pow_right two_pos wide)
  rw [continued, if_pos shift]
  simp only [toNat_low, high_eq_zero_iff, Nat.mul_add, Nat.mul_one]
  by_cases fits : value + (octet.toNat % 128) <<< (7 * place) % 2 ^ usizeBits ≤
      largest
  · rw [if_pos ⟨lt_of_le_of_lt fits word, fits⟩, if_pos fits]
  · rw [if_neg fun both => fits both.2, if_neg fits]

theorem late_refused
    (usizeBits : Nat)
    {place : Nat}
    (late : 4 < place)
    (input : List UInt8)
    (value used : Nat) :
    ∃ violation,
      continued usizeBits input value (7 * place) used = .error violation := by
  cases input with
  | nil => exact ⟨truncated, rfl⟩
  | cons octet rest =>
      exact ⟨tooLarge,
        continued_past (by omega) (List.cons_ne_nil octet rest) value used⟩

/-! ## All of the groups -/

/-- The groups that were read from `value` on at `place`: they give what they
are worth, or, on a word of 32 bits, that without the higher bits of a fifth
that ends them. -/
inductive Groups (usizeBits place value result : Nat) : List UInt8 → Prop
  | kept {groups : List UInt8}
      (gives : result = value + worth place groups) :
      Groups usizeBits place value result groups
  | shed {earlier : List UInt8} {last : UInt8}
      (short : usizeBits = 32)
      (fifth : place + earlier.length = 4)
      (onward : ∀ octet ∈ earlier, 128 ≤ octet.toNat)
      (high : 16 ≤ last.toNat)
      (ends : last.toNat < 128)
      (gives : result =
        value + worth place earlier + last.toNat % 16 * 2 ^ 28) :
      Groups usizeBits place value result (earlier ++ [last])

/-- A group that goes on and keeps its bits comes before groups that do. -/
theorem Groups.cons
    {usizeBits place value result : Nat}
    {octet : UInt8}
    (onward : 128 ≤ octet.toNat)
    {groups : List UInt8}
    (later : Groups usizeBits (place + 1)
      (value + octet.toNat % 128 * 128 ^ place) result groups) :
    Groups usizeBits place value result (octet :: groups) := by
  cases later with
  | kept gives =>
      refine .kept ?_
      rw [gives, worth, Nat.add_assoc]
  | @shed earlier last short fifth others high ends gives =>
      rw [← List.cons_append]
      refine .shed short ?_ ?_ high ends ?_
      · rw [List.length_cons, ← fifth, Nat.add_assoc, Nat.add_comm 1]
      · exact List.forall_mem_cons.mpr ⟨onward, others⟩
      · rw [gives, worth, ← Nat.add_assoc]

theorem groups_of_continued
    {usizeBits : Nat}
    (word : usizeBits = 32 ∨ 39 ≤ usizeBits)
    {input : List UInt8}
    {value place used result taken : Nat}
    (reads : continued usizeBits input value (7 * place) used =
      .ok (result, taken)) :
    ∃ groups rest, input = groups ++ rest ∧ taken = used + groups.length ∧
      result ≤ largest ∧ Groups usizeBits place value result groups := by
  have wide : 32 ≤ usizeBits := by omega
  induction input generalizing value place used with
  | nil => cases reads
  | cons octet rest inductionHypothesis =>
      have early : place ≤ 4 := by
        by_contra late
        obtain ⟨violation, refused⟩ := late_refused usizeBits
          (not_le.mp late) (octet :: rest) value used
        rw [refused] at reads
        cases reads
      have small : octet.toNat % 128 < 128 := Nat.mod_lt _ (by decide)
      rw [continued_cons wide early] at reads
      simp only at reads
      by_cases keeps : 39 ≤ usizeBits ∨ place < 4 ∨ octet.toNat % 128 < 16
      · rw [group_kept wide early small keeps] at reads
        split at reads
        next fits =>
          split at reads
          · cases reads
            refine ⟨[octet], rest, rfl, rfl, fits, .kept ?_⟩
            rw [worth, worth, Nat.add_zero]
          next onward =>
            obtain ⟨groups, left, split, count, bounded, later⟩ :=
              inductionHypothesis reads
            refine ⟨octet :: groups, left, by rw [split]; rfl, ?_, bounded,
              later.cons (not_lt.mp onward)⟩
            rw [count, List.length_cons, Nat.add_assoc, Nat.add_comm 1]
        · cases reads
      · obtain ⟨narrow, notEarly, high⟩ :
            ¬39 ≤ usizeBits ∧ ¬place < 4 ∧ ¬octet.toNat % 128 < 16 := by
          simpa only [not_or] using keeps
        obtain rfl : place = 4 := by omega
        obtain rfl : usizeBits = 32 := by omega
        rw [group_shed] at reads
        split at reads
        next fits =>
          split at reads
          next ends =>
            cases reads
            have low : octet.toNat % 128 % 16 = octet.toNat % 16 := by omega
            refine ⟨[] ++ [octet], rest, rfl, rfl, fits, .shed rfl rfl
              (List.forall_mem_nil _) (by omega) ends ?_⟩
            rw [worth, low, Nat.add_zero]
          · obtain ⟨violation, refused⟩ := late_refused 32
              (show 4 < 4 + 1 by decide) rest (value +
                octet.toNat % 128 % 16 * 2 ^ 28) (used + 1)
            rw [refused] at reads
            cases reads
        · cases reads

/-! ## The whole integer -/

theorem decodeOn_cons
    (usizeBits : Nat)
    (head : UInt8)
    (rest : List UInt8)
    (prefixBits : Nat) :
    decodeOn usizeBits (head :: rest) prefixBits =
      if head.toNat % 2 ^ prefixBits < 2 ^ prefixBits - 1 then
        .ok (head.toNat % 2 ^ prefixBits, 1)
      else
        continued usizeBits rest (2 ^ prefixBits - 1) 0 1 := by
  rw [decodeOn]
  simp only [Nat.and_two_pow_sub_one_eq_mod]

/-- A prefix that is not short is full. -/
theorem full_of_not_short
    {head : UInt8}
    {prefixBits : Nat}
    (full : ¬head.toNat % 2 ^ prefixBits < 2 ^ prefixBits - 1) :
    head.toNat % 2 ^ prefixBits = 2 ^ prefixBits - 1 := by
  have less := Nat.mod_lt head.toNat (Nat.two_pow_pos prefixBits)
  omega

/-- Groups that go on and keep their bits are read one after another. -/
theorem continued_append
    {earlier : List UInt8}
    (onward : ∀ octet ∈ earlier, 128 ≤ octet.toNat)
    {place : Nat}
    (early : place + earlier.length ≤ 4)
    {value : Nat}
    (fits : value + worth place earlier ≤ largest)
    (rest : List UInt8)
    (used : Nat) :
    continued 32 (earlier ++ rest) value (7 * place) used =
      continued 32 rest (value + worth place earlier)
        (7 * (place + earlier.length)) (used + earlier.length) := by
  induction earlier generalizing place value used with
  | nil => rfl
  | cons octet earlier inductionHypothesis =>
      obtain ⟨first, others⟩ := List.forall_mem_cons.mp onward
      rw [List.length_cons] at early
      rw [worth, ← Nat.add_assoc] at fits
      have kept := group_kept (le_refl 32) (show place ≤ 4 by omega)
        (Nat.mod_lt octet.toNat (by decide : 0 < 128))
        (Or.inr (Or.inl (by omega)))
      rw [List.cons_append, continued_cons (le_refl 32) (by omega)]
      simp only [kept]
      rw [if_pos (le_trans (Nat.le_add_right _ _) fits),
        if_neg (not_lt.mpr first), inductionHypothesis others (by omega) fits,
        worth, List.length_cons, Nat.add_assoc value, Nat.add_assoc place,
        Nat.add_comm 1, Nat.add_assoc used, Nat.add_comm 1]

/-- What loses bits is read all the same, as less than it is. -/
theorem not_exact_of_sheds
    {prefixBits : Nat}
    {input : List UInt8}
    (sheds : Sheds prefixBits input) :
    ¬Exact 32 prefixBits input := by
  obtain ⟨head, earlier, last, rest, rfl, full, fourth, onward, high, ends,
    fits⟩ := sheds
  have low : last.toNat % 128 % 16 = last.toNat % 16 := by omega
  have reads : decodeOn 32 (head :: (earlier ++ last :: rest)) prefixBits =
      .ok (2 ^ prefixBits - 1 + worth 0 earlier + last.toNat % 16 * 2 ^ 28,
        6) := by
    rw [decodeOn_cons, full, if_neg (lt_irrefl _)]
    have before := continued_append onward
      (show 0 + earlier.length ≤ 4 by omega)
      (le_trans (Nat.le_add_right _ _) fits) (last :: rest) 1
    rw [fourth] at before
    rw [before, continued_cons (le_refl 32) (le_refl 4)]
    simp only [group_shed, low, if_pos fits, if_pos ends]
  intro exact'
  obtain ⟨_, value, _⟩ := exact' _ _ reads
  have taken : (head :: (earlier ++ last :: rest)).take 6 =
      head :: (earlier ++ [last]) := by
    rw [List.take_succ_cons, List.take_append, fourth,
      List.take_of_length_le (by omega)]
    rfl
  rw [taken, valueOf, full, worth_append, worth, worth, fourth] at value
  omega

/-- What is written is read back, and what is read is what its octets stand for,
on words of 64 bits always and on words of 32 exactly where a fifth group loses
no bits. -/
theorem exact_iff
    {usizeBits : Nat}
    (word : usizeBits = 32 ∨ usizeBits = 64)
    {prefixBits : Nat}
    (inOctet : 1 ≤ prefixBits ∧ prefixBits ≤ 8) :
    (∀ value ≤ largest, ∀ flags : UInt8, flags.toNat % 2 ^ prefixBits = 0 →
      ∀ tail, decodeOn usizeBits (encode value prefixBits flags ++ tail)
        prefixBits = .ok (value, (encode value prefixBits flags).length)) ∧
    ∀ input, Exact usizeBits prefixBits input ↔
      usizeBits = 64 ∨ ¬Sheds prefixBits input := by
  refine ⟨fun value fits flags clear tail => ?_, fun input => ⟨?_, ?_⟩⟩
  · rw [decodeOn_encode (by omega) inOctet.2 clear (Or.inr fits), if_pos fits]
  · intro exact'
    rcases word with rfl | wide
    · exact Or.inr fun sheds => not_exact_of_sheds sheds exact'
    · exact Or.inl wide
  · intro keeps value taken reads
    cases input with
    | nil => cases reads
    | cons head rest =>
        rw [decodeOn_cons] at reads
        split at reads
        next short =>
          cases reads
          have small : 2 ^ prefixBits ≤ 2 ^ 8 :=
            Nat.pow_le_pow_right two_pos inOctet.2
          have large : 2 ^ 8 ≤ largest := by decide
          refine ⟨Nat.le_add_left _ _, ?_, by omega⟩
          rw [List.take_succ_cons, List.take_zero, valueOf, worth, Nat.add_zero]
        next full =>
          have fullPrefix := full_of_not_short full
          obtain ⟨groups, left, rfl, rfl, bounded, later⟩ :=
            groups_of_continued (by omega)
              (show continued usizeBits rest _ (7 * 0) 1 = _ from reads)
          have taken : (head :: (groups ++ left)).take (1 + groups.length) =
              head :: groups := by
            rw [Nat.add_comm, List.take_succ_cons, List.take_left]
          refine ⟨?_, ?_, bounded⟩
          · rw [List.length_cons, List.length_append]
            omega
          · rw [taken, valueOf, fullPrefix]
            cases later with
            | kept gives => exact gives
            | @shed earlier last short fifth onward high ends gives =>
                refine absurd ?_ (keeps.resolve_left (by omega))
                refine ⟨head, earlier, last, left, ?_, fullPrefix, by omega,
                  onward, high, ends, gives ▸ bounded⟩
                rw [List.append_assoc]
                rfl

/-- On a word of 32 bits, five groups that would be nothing but for a bit past
the lowest four of the fifth. -/
theorem exact_iff_of_zero_groups :
    (∀ value ≤ largest, ∀ flags : UInt8, flags.toNat % 2 ^ 5 = 0 →
      ∀ tail, decodeOn 32 (encode value 5 flags ++ tail) 5 =
        .ok (value, (encode value 5 flags).length)) ∧
    ∀ input, Exact 32 5 input ↔ 32 = 64 ∨ ¬Sheds 5 input :=
  exact_iff (Or.inl rfl) (by decide)

/-- On a word of 32 bits, 31 and 2^32 more is read as 31. -/
theorem not_exact_fifth_group :
    ¬∀ usizeBits, usizeBits = 32 ∨ usizeBits = 64 →
      ∀ prefixBits, 1 ≤ prefixBits ∧ prefixBits ≤ 8 →
        ∀ input, Exact usizeBits prefixBits input := by
  intro holds
  have read := holds 32 (Or.inl rfl) 5 (by decide)
    [0x1f, 0x80, 0x80, 0x80, 0x80, 0x10] 31 6 (by decide)
  exact absurd read.2.1 (by decide)

end Integer
end Hpack
end Http2
end XmipNet

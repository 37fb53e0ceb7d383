import XmipNet.Foundation.Blocks
import XmipNet.Slices

/-!
# A network in prefix notation

An address and how many of its high bits a network fixes, read from text and
asked whether an address falls inside. The arithmetic is a mask, whose
subtraction and whose shift could overflow; a network carries the proof that
keeps them from it. How an address is read is the standard library's, and a
parameter here.
-/

namespace XmipNet

/-- An address of either family, as the number it is. -/
inductive IpAddr
  | v4 (bits : BitVec 32)
  | v6 (bits : BitVec 128)
  deriving DecidableEq

namespace IpAddr

def isIpv4 : IpAddr → Bool
  | .v4 _ => true
  | .v6 _ => false

/-- The bits of an address of this family. -/
def width : IpAddr → Nat
  | .v4 _ => 32
  | .v6 _ => 128

/-- The address as a number. -/
def number : IpAddr → Nat
  | .v4 bits => bits.toNat
  | .v6 bits => bits.toNat

theorem width_of_isIpv4 (address : IpAddr) :
    address.width = if address.isIpv4 then 32 else 128 := by
  cases address <;> rfl

/-- Addresses are of one family where they are of one width. -/
theorem isIpv4_eq_iff (first second : IpAddr) :
    first.isIpv4 = second.isIpv4 ↔ first.width = second.width := by
  cases first <;> cases second <;> simp [isIpv4, width]

end IpAddr

/-- A range of addresses, as a prefix. -/
structure Network where
  address : IpAddr
  prefixBits : Nat
  within : prefixBits ≤ address.width
  deriving DecidableEq

namespace Network

/-- A network of an address and what is written after its slash, where
something is. -/
def ofParts
    (text : String)
    (address : IpAddr)
    (bits : Option String) : Except NetError Network :=
  let widest := if address.isIpv4 then 32 else 128
  have wide : widest = address.width := address.width_of_isIpv4.symm
  let refused : NetError :=
    .new s!"'{text}' has a prefix longer than {widest} bits"
  match bits with
  | none => .ok { address, prefixBits := widest, within := wide.le }
  | some bits =>
      match Text.parseUnsigned 8 bits with
      | none => .error refused
      | some prefixBits =>
          if fits : prefixBits ≤ widest then
            .ok { address, prefixBits, within := wide ▸ fits }
          else
            .error refused

/-- `address/prefix`, or a bare address. -/
def parse
    (parseAddress : String → Option IpAddr)
    (text : String) : Except NetError Network :=
  let text := Text.trim text
  let (address, bits) :=
    match Text.splitOnce text '/' with
    | some (address, bits) => (address, some bits)
    | none => (text, none)
  match parseAddress address with
  | none => .error (.new s!"'{text}' is not a network as address/prefix")
  | some address => ofParts text address bits

/-- The high `prefixBits` bits, set. -/
def mask (width prefixBits : Nat) : Except Halt (BitVec width) :=
  if prefixBits = 0 then
    .ok 0
  else do
    let shift ← Text.minus width prefixBits
    if shift < width then
      .ok (BitVec.allOnes width <<< shift)
    else
      .error .panicked

/-- Whether an address is inside this network. An address of the other family
never is. -/
def contains (network : Network) (address : IpAddr) : Except Halt Bool :=
  match network.address, address with
  | .v4 base, .v4 address => do
      let mask ← mask 32 network.prefixBits
      .ok (base &&& mask = address &&& mask)
  | .v6 base, .v6 address => do
      let mask ← mask 128 network.prefixBits
      .ok (base &&& mask = address &&& mask)
  | _, _ => .ok false

/-! ## What is accepted -/

/-- What `text` says is `network`: the address before its slash and the number
after it, or an address alone and all of its bits. -/
def Says
    (parseAddress : String → Option IpAddr)
    (text : String)
    (network : Network) : Prop :=
  match Text.splitOnce (Text.trim text) '/' with
  | some (address, bits) =>
      parseAddress address = some network.address ∧
        Text.parseUnsigned 8 bits = some network.prefixBits
  | none =>
      parseAddress (Text.trim text) = some network.address ∧
        network.prefixBits = network.address.width

theorem ofParts_none_eq_ok_iff
    (text : String)
    (address : IpAddr)
    (network : Network) :
    ofParts text address none = .ok network ↔
      address = network.address ∧ network.prefixBits = address.width := by
  obtain ⟨base, prefixBits, within⟩ := network
  simp only [ofParts, Except.ok.injEq, mk.injEq, ← address.width_of_isIpv4]
  exact and_congr_right fun _ => eq_comm

theorem ofParts_some_eq_ok_iff
    (text : String)
    (address : IpAddr)
    (bits : String)
    (network : Network) :
    ofParts text address (some bits) = .ok network ↔
      address = network.address ∧
        Text.parseUnsigned 8 bits = some network.prefixBits := by
  obtain ⟨base, prefixBits, within⟩ := network
  rw [ofParts]
  cases Text.parseUnsigned 8 bits with
  | none => simp
  | some written =>
      simp only [← address.width_of_isIpv4]
      split
      next fits =>
        simp only [Except.ok.injEq, mk.injEq, Option.some.injEq]
      next exceeds =>
        simp only [reduceCtorEq, Option.some.injEq, false_iff]
        rintro ⟨rfl, rfl⟩
        exact exceeds within

/-- A network is accepted where the text says it. -/
theorem parse_eq_ok_iff
    (parseAddress : String → Option IpAddr)
    (text : String)
    (network : Network) :
    parse parseAddress text = .ok network ↔ Says parseAddress text network := by
  rw [parse, Says]
  simp only
  cases Text.splitOnce (Text.trim text) '/' with
  | some parts =>
      simp only
      cases parseAddress parts.1 with
      | none => simp
      | some address =>
          simp only [ofParts_some_eq_ok_iff, Option.some.injEq]
  | none =>
      simp only
      cases parseAddress (Text.trim text) with
      | none => simp
      | some address =>
          simp only [ofParts_none_eq_ok_iff, Option.some.injEq]
          exact and_congr_right fun same => by rw [same]

/-! ## What is inside -/

/-- The addresses of the network's family whose high bits are the network's. -/
def range (network : Network) : Set IpAddr :=
  {address | address.isIpv4 = network.address.isIpv4 ∧
    address.number ∈ Blocks.block
      (network.address.width - network.prefixBits) network.address.number}

/-- Nothing overflows for a number of bits within the width, and words agree
under the mask where they are in one block. -/
theorem mask_spec
    {width prefixBits : Nat}
    (within : prefixBits ≤ width) :
    ∃ set, mask width prefixBits = .ok set ∧
      ∀ first second : BitVec width, first &&& set = second &&& set ↔
        second.toNat ∈ Blocks.block (width - prefixBits) first.toNat := by
  rcases Nat.eq_zero_or_pos prefixBits with rfl | positive
  · refine ⟨0, rfl, fun first second => ?_⟩
    rw [Blocks.mem_block, Nat.sub_zero, Nat.div_eq_of_lt first.isLt,
      Nat.div_eq_of_lt second.isLt]
    simp
  · refine ⟨BitVec.allOnes width <<< (width - prefixBits), ?_, fun _ _ => ?_⟩
    · rw [mask, if_neg positive.ne', Text.minus, if_pos within]
      exact if_pos (Nat.sub_lt_self positive within)
    · rw [Blocks.and_mask_eq_iff, Blocks.mem_block, eq_comm]

/-- Asking whether an address is inside always answers, with whether it is in
the network's range. -/
theorem contains_spec
    (network : Network)
    (address : IpAddr) :
    ∃ answer, network.contains address = .ok answer ∧
      (answer = true ↔ address ∈ network.range) := by
  obtain ⟨base, prefixBits, within⟩ := network
  cases base with
  | v4 base =>
      cases address with
      | v4 bits =>
          obtain ⟨set, masked, agrees⟩ := @mask_spec 32 prefixBits within
          refine ⟨base &&& set = bits &&& set, ?_, ?_⟩
          · simp only [contains]
            rw [masked]
            rfl
          · rw [decide_eq_true_iff, agrees]
            exact (and_iff_right rfl).symm
      | v6 bits => exact ⟨false, rfl, by simp [range, IpAddr.isIpv4]⟩
  | v6 base =>
      cases address with
      | v6 bits =>
          obtain ⟨set, masked, agrees⟩ := @mask_spec 128 prefixBits within
          refine ⟨base &&& set = bits &&& set, ?_, ?_⟩
          · simp only [contains]
            rw [masked]
            rfl
          · rw [decide_eq_true_iff, agrees]
            exact (and_iff_right rfl).symm
      | v4 bits => exact ⟨false, rfl, by simp [range, IpAddr.isIpv4]⟩

theorem contains_eq_true_iff
    (network : Network)
    (address : IpAddr) :
    network.contains address = .ok true ↔ address ∈ network.range := by
  obtain ⟨answer, answers, inside⟩ := network.contains_spec address
  rw [answers, Except.ok.injEq, inside]

/-- Of two networks of one family the longer prefix lies within the shorter or
apart from it. -/
theorem range_subset_or_disjoint
    {network other : Network}
    (family : other.address.isIpv4 = network.address.isIpv4)
    (shorter : network.prefixBits ≤ other.prefixBits) :
    other.range ⊆ network.range ∨ Disjoint other.range network.range := by
  have width := (IpAddr.isIpv4_eq_iff _ _).mp family
  have finer : other.address.width - other.prefixBits ≤
      network.address.width - network.prefixBits := by
    rw [width]
    exact Nat.sub_le_sub_left shorter _
  refine (Blocks.block_subset_or_disjoint finer other.address.number
    network.address.number).imp ?_ ?_
  · intro subset address inside
    exact ⟨inside.1.trans family, subset inside.2⟩
  · intro apart
    rw [Set.disjoint_left] at apart ⊢
    intro address inside insideOther
    exact apart inside.2 insideOther.2

/-- A network that is accepted is asked without overflow and contains the
addresses of its family with its quotient; of two of one family the shorter
prefix contains the longer, or they share no address. -/
theorem contains_exact
    (parseAddress : String → Option IpAddr)
    {text : String}
    {network : Network}
    (accepted : parse parseAddress text = .ok network) :
    Says parseAddress text network ∧
    (∀ address, ∃ answer, network.contains address = .ok answer ∧
      (answer = true ↔ address.isIpv4 = network.address.isIpv4 ∧
        address.number / 2 ^ (network.address.width - network.prefixBits) =
          network.address.number /
            2 ^ (network.address.width - network.prefixBits))) ∧
    ∀ otherText other, parse parseAddress otherText = .ok other →
      other.address.isIpv4 = network.address.isIpv4 →
      network.prefixBits ≤ other.prefixBits →
      (∀ address, other.contains address = .ok true →
        network.contains address = .ok true) ∨
      ∀ address, ¬(other.contains address = .ok true ∧
        network.contains address = .ok true) := by
  rw [parse_eq_ok_iff] at accepted
  refine ⟨?_, network.contains_spec, fun _ other _ family shorter => ?_⟩
  · assumption
  simp only [contains_eq_true_iff]
  refine (range_subset_or_disjoint family shorter).imp (fun subset _ => ?_)
    fun apart address both => ?_
  · exact fun inside => subset inside
  · exact Set.disjoint_left.mp apart both.1 both.2

/-- An address of ten, one, two and three, and the eight bits it fixes. -/
theorem contains_exact_ten :
    let parseAddress := fun text : String =>
      if text = "10.1.2.3" then some (IpAddr.v4 0x0a010203) else none
    let network : Network := ⟨.v4 0x0a010203, 8, by decide⟩
    Says parseAddress "10.1.2.3/8" network ∧
    (∀ address, ∃ answer, network.contains address = .ok answer ∧
      (answer = true ↔ address.isIpv4 = network.address.isIpv4 ∧
        address.number / 2 ^ (network.address.width - network.prefixBits) =
          network.address.number /
            2 ^ (network.address.width - network.prefixBits))) ∧
    ∀ otherText other, parse parseAddress otherText = .ok other →
      other.address.isIpv4 = network.address.isIpv4 →
      network.prefixBits ≤ other.prefixBits →
      (∀ address, other.contains address = .ok true →
        network.contains address = .ok true) ∨
      ∀ address, ¬(other.contains address = .ok true ∧
        network.contains address = .ok true) :=
  contains_exact _ ((parse_eq_ok_iff _ _ _).mpr ⟨by decide, by decide⟩)

end Network
end XmipNet

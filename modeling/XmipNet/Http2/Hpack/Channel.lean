import XmipNet.Http2.Hpack.Reading

/-!
# An encoder and the decoder that reads its blocks

The two tables need not be equal: a size announced late leaves the decoder with
entries the encoder has dropped. What is kept over every history is that the
encoder's table is a beginning of the decoder's, newest entry first, and that is
enough for every block to be read as the list it was written from. Where the
sizes set between two blocks drop nothing the last of them would keep, the two
tables are the same.
-/

namespace XmipNet
namespace Http2
namespace Hpack

open FittingPrefix

/-- What one side does with its encoder. -/
inductive Operation
  | resize (maxSize : Nat)
  | encode (fields : List Field)
  deriving DecidableEq

namespace Operation

/-- A size within `limit`, or fields of strings an integer can announce. -/
def Admitted (limit : Nat) : Operation → Prop
  | .resize maxSize => maxSize ≤ limit
  | .encode fields => ∀ field ∈ fields,
      (Text.octets field.1).length ≤ 2 ^ 32 - 1 ∧
        (Text.octets field.2).length ≤ 2 ^ 32 - 1

instance (limit : Nat) (operation : Operation) :
    Decidable (operation.Admitted limit) :=
  match operation with
  | .resize maxSize => inferInstanceAs (Decidable (maxSize ≤ limit))
  | .encode fields => inferInstanceAs (Decidable (∀ field ∈ fields,
      (Text.octets field.1).length ≤ 2 ^ 32 - 1 ∧
        (Text.octets field.2).length ≤ 2 ^ 32 - 1))

/-- The list an operation encodes. -/
def encoded : Operation → Option (List Field)
  | .resize _ => none
  | .encode fields => some fields

end Operation

/-- One side's encoder and the decoder on the other side. -/
structure Channel where
  encoder : Encoder
  decoder : Decoder
  deriving DecidableEq

namespace Channel

/-- Both sides before the first block. -/
def new (maxSize : Nat) (huffman : Bool) (limit : Nat) : Channel where
  encoder := .new maxSize huffman
  decoder := .new limit

/-- A size the encoder is held to. -/
def resize (channel : Channel) (maxSize : Nat) : Channel :=
  { channel with encoder := channel.encoder.resize maxSize }

/-- One block written and read, and what the decoder returned for it. -/
def carry (channel : Channel) (fields : List Field) :
    Except Violation (List Field) × Channel :=
  let (block, encoder) := channel.encoder.encode fields
  let (read, decoder) := channel.decoder.decode block
  (read, { encoder, decoder })

/-- What the decoder returned for each block, in order, and both sides after
the last operation. -/
def run (channel : Channel) :
    List Operation → List (Except Violation (List Field)) × Channel
  | [] => ([], channel)
  | .resize maxSize :: rest => (channel.resize maxSize).run rest
  | .encode fields :: rest =>
      let (read, after) := channel.carry fields
      let (reads, final) := after.run rest
      (read :: reads, final)

/-- What holds between the two sides at every point of a history. -/
structure Mirror (channel : Channel) : Prop where
  begins : channel.encoder.table.entries <+: channel.decoder.table.entries
  roomier : channel.encoder.pending = none →
    channel.encoder.table.maxSize ≤ channel.decoder.table.maxSize
  announces : ∀ size, channel.encoder.pending = some size →
    size = channel.encoder.table.maxSize
  within : channel.encoder.table.maxSize ≤ channel.decoder.limit

/-- The decoder's table once a pending size has been read. -/
def informed (channel : Channel) : Table :=
  match channel.encoder.pending with
  | none => channel.decoder.table
  | some size => channel.decoder.table.resize size

/-- The integers written for a block. -/
def integers (channel : Channel) (fields : List Field) : List Nat :=
  channel.encoder.pending.toList ++
    Encoder.fieldsIntegers channel.encoder.table channel.encoder.huffman fields

theorem mirror_new
    {maxSize limit : Nat}
    (within : maxSize ≤ limit)
    (huffman : Bool) :
    Mirror (new maxSize huffman limit) where
  begins := List.prefix_refl []
  roomier := fun _ => within
  announces := fun _ pending => absurd pending (by simp [new, Encoder.new])
  within := within

theorem mirror_resize
    {channel : Channel}
    (mirror : Mirror channel)
    {maxSize : Nat}
    (within : maxSize ≤ channel.decoder.limit) :
    Mirror (channel.resize maxSize) := by
  by_cases same : maxSize = channel.encoder.table.maxSize
  · have unchanged : channel.resize maxSize = channel := by
      simp [resize, Encoder.resize, same]
    rwa [unchanged]
  · have changed : (channel.resize maxSize).encoder =
        { channel.encoder with
          table := channel.encoder.table.resize maxSize
          pending := some maxSize } := by
      simp [resize, Encoder.resize, same]
    refine
      { begins := ?_
        roomier := fun pending => absurd pending (by simp [changed])
        announces := fun size pending => ?_
        within := ?_ }
    · rw [changed, Table.entries_resize]
      exact (keep_isPrefix _ _).trans mirror.begins
    · rw [changed] at pending ⊢
      rw [Table.maxSize_resize]
      exact (Option.some.inj pending).symm
    · rw [changed, Table.maxSize_resize]
      exact within

/-- After a pending size has been read, the encoder's table is a beginning of
the decoder's, which holds at least as much. -/
theorem isPrefix_informed
    {channel : Channel}
    (mirror : Mirror channel) :
    channel.encoder.table.entries <+: channel.informed.entries ∧
      channel.encoder.table.maxSize ≤ channel.informed.maxSize := by
  rw [informed]
  cases pending : channel.encoder.pending with
  | none => exact ⟨mirror.begins, mirror.roomier pending⟩
  | some size =>
      have announced := mirror.announces size pending
      refine ⟨?_, by rw [Table.maxSize_resize, announced]⟩
      rw [Table.entries_resize]
      exact isPrefix_keep mirror.begins
        (announced ▸ channel.encoder.table.total_entries_le)

/-- A pending size is read before the first field. -/
theorem decodeFrom_announcement
    {channel : Channel}
    (mirror : Mirror channel)
    (tail : List UInt8) :
    channel.decoder.decodeFrom []
        (Encoder.announcement channel.encoder.pending ++ tail) =
      if Encoder.AllRead channel.encoder.pending.toList then
        { channel.decoder with table := channel.informed }.decodeFrom [] tail
      else
        (.error Integer.tooLarge, channel.decoder) := by
  obtain ⟨⟨table, huffman, pending⟩, decoder⟩ := channel
  cases pending with
  | none =>
      rw [if_pos (by exact Encoder.allRead_nil)]
      rfl
  | some size =>
      have within : size ≤ decoder.limit := by
        rw [mirror.announces size rfl]
        exact mirror.within
      simp only [Encoder.announcement, Decoder.decode_announcement within,
        informed, Option.toList, Encoder.allRead_cons, Encoder.allRead_nil,
        and_true]

/-- A block is read as the list it was written from, or refused where an
integer in it is too large. -/
theorem carry_eq
    {channel : Channel}
    (mirror : Mirror channel)
    (fields : List Field) :
    if Encoder.AllRead (channel.integers fields) then
      channel.carry fields =
        (.ok fields,
          { encoder := (channel.encoder.encode fields).2
            decoder := { channel.decoder with
              table := Decoder.follow channel.informed channel.encoder.table
                fields } })
    else
      (channel.carry fields).1 = .error Integer.tooLarge := by
  obtain ⟨begins, roomier⟩ := isPrefix_informed mirror
  have block := Decoder.decodeFrom_fields
    { channel.decoder with table := channel.informed }
    begins roomier channel.encoder.huffman [] fields
  simp only [carry, Encoder.encode, Decoder.decode, integers,
    decodeFrom_announcement mirror, Encoder.allRead_append]
  by_cases announced : Encoder.AllRead channel.encoder.pending.toList
  · simp only [announced, true_and, if_true]
    split
    case isTrue small =>
      rw [if_pos small] at block
      rw [block]
      rfl
    case isFalse large =>
      rwa [if_neg large] at block
  · simp only [announced, false_and, if_false]

/-- The two sides mirror each other after a block that was read. -/
theorem mirror_carry
    {channel : Channel}
    (mirror : Mirror channel)
    {fields : List Field}
    (small : Encoder.AllRead (channel.integers fields)) :
    Mirror (channel.carry fields).2 := by
  have carried := carry_eq mirror fields
  rw [if_pos small] at carried
  obtain ⟨begins, roomier⟩ := isPrefix_informed mirror
  have sizes : (fields.foldl Encoder.afterField channel.encoder.table).maxSize =
      channel.encoder.table.maxSize :=
    Encoder.maxSize_foldl_afterField _ _
  rw [carried]
  refine
    { begins := Decoder.isPrefix_follow begins roomier fields
      roomier := fun _ => ?_
      announces := fun size pending => absurd pending (by simp [Encoder.encode])
      within := ?_ }
  · simp only [Encoder.encode, Decoder.maxSize_follow, sizes, roomier]
  · simp only [Encoder.encode, sizes, mirror.within]

/-! ## Every block is read -/

/-- The index of an entry of a table of at most `largest` octets is read. -/
theorem index_le_largest
    {table : Table}
    (sized : table.maxSize ≤ Integer.largest)
    {index : Nat}
    {field : Field}
    (found : table.get index = .ok field) :
    index ≤ Integer.largest := by
  have bounds := (Table.get_bounds found).2
  have few := table.overhead_mul_length_le
  rw [length_static] at bounds
  rw [Table.overhead] at few
  rw [Integer.largest] at sized ⊢
  omega

/-- Short strings and a table of at most `largest` octets give integers that
are read. -/
theorem allRead_integers
    {table : Table}
    (sized : table.maxSize ≤ Integer.largest)
    (huffman : Bool)
    {field : Field}
    (nameShort : (Text.octets field.1).length ≤ Integer.largest)
    (valueShort : (Text.octets field.2).length ≤ Integer.largest) :
    Encoder.AllRead (Encoder.integers table huffman field) := by
  have nameRead := (Literal.announced_le field.1 huffman).trans nameShort
  have valueRead := (Literal.announced_le field.2 huffman).trans valueShort
  rw [Encoder.integers]
  cases finds : table.find field.1 field.2 with
  | none =>
      simp only [Encoder.allRead_cons, Encoder.allRead_nil, nameRead, valueRead,
        and_self]
  | some found =>
      have holds := Table.holds_of_find finds
      cases found with
      | field index =>
          simp only [Encoder.allRead_cons, Encoder.allRead_nil, and_true]
          exact index_le_largest sized holds
      | name index =>
          obtain ⟨other, held⟩ := holds
          simp only [Encoder.allRead_cons, Encoder.allRead_nil, valueRead,
            and_true]
          exact index_le_largest sized held

theorem allRead_fieldsIntegers
    {table : Table}
    (sized : table.maxSize ≤ Integer.largest)
    (huffman : Bool)
    {fields : List Field}
    (short : ∀ field ∈ fields,
      (Text.octets field.1).length ≤ Integer.largest ∧
        (Text.octets field.2).length ≤ Integer.largest) :
    Encoder.AllRead (Encoder.fieldsIntegers table huffman fields) := by
  induction fields generalizing table with
  | nil => exact Encoder.allRead_nil
  | cons field rest inductionHypothesis =>
      obtain ⟨first, later⟩ := List.forall_mem_cons.mp short
      rw [Encoder.fieldsIntegers, Encoder.allRead_append]
      exact ⟨allRead_integers sized huffman first.1 first.2,
        inductionHypothesis (by rwa [Encoder.maxSize_afterField]) later⟩

/-- Over a limit and strings an integer can announce, no block is refused. -/
theorem allRead_of_admitted
    {channel : Channel}
    (mirror : Mirror channel)
    (limited : channel.decoder.limit ≤ Integer.largest)
    {fields : List Field}
    (admitted : (Operation.encode fields).Admitted channel.decoder.limit) :
    Encoder.AllRead (channel.integers fields) := by
  have sized := mirror.within.trans limited
  rw [integers, Encoder.allRead_append]
  refine ⟨?_, allRead_fieldsIntegers sized _ admitted⟩
  intro size announced
  rw [mirror.announces size (Option.mem_toList.mp announced)]
  exact sized

/-- What is written for a field in few enough octets are integers that are
read. -/
theorem allRead_of_length_fieldOctets
    {table : Table}
    (sized : table.maxSize ≤ Integer.largest)
    {huffman : Bool}
    {field : Field}
    (short : (Encoder.fieldOctets table huffman field).length ≤
      Integer.largest) :
    Encoder.AllRead (Encoder.integers table huffman field) := by
  have name := Literal.announced_le_length field.1 huffman
  have value := Literal.announced_le_length field.2 huffman
  rw [Encoder.fieldOctets] at short
  rw [Encoder.integers]
  cases finds : table.find field.1 field.2 with
  | none =>
      simp only [finds, List.length_cons, List.length_append] at short
      simp only [Encoder.allRead_cons, Encoder.allRead_nil, and_true]
      exact ⟨by omega, by omega⟩
  | some found =>
      have holds := Table.holds_of_find finds
      cases found with
      | field index =>
          simp only [Encoder.allRead_cons, Encoder.allRead_nil, and_true]
          exact index_le_largest sized holds
      | name index =>
          obtain ⟨other, held⟩ := holds
          simp only [finds, List.length_append] at short
          simp only [Encoder.allRead_cons, Encoder.allRead_nil, and_true]
          exact ⟨index_le_largest sized held, by omega⟩

theorem allRead_of_length_fieldsOctets
    {table : Table}
    (sized : table.maxSize ≤ Integer.largest)
    {huffman : Bool}
    {fields : List Field}
    (short : (Encoder.fieldsOctets table huffman fields).length ≤
      Integer.largest) :
    Encoder.AllRead (Encoder.fieldsIntegers table huffman fields) := by
  induction fields generalizing table with
  | nil => exact Encoder.allRead_nil
  | cons field rest inductionHypothesis =>
      rw [Encoder.fieldsOctets, List.length_append] at short
      rw [Encoder.fieldsIntegers, Encoder.allRead_append]
      exact ⟨allRead_of_length_fieldOctets sized (by omega),
        inductionHypothesis (by rwa [Encoder.maxSize_afterField]) (by omega)⟩

/-- A block of few enough octets is read, whatever its fields are. -/
theorem carry_of_length
    {channel : Channel}
    (mirror : Mirror channel)
    (limited : channel.decoder.limit ≤ Integer.largest)
    {fields : List Field}
    (short : (channel.encoder.encode fields).1.length ≤ Integer.largest) :
    (channel.carry fields).1 = .ok fields := by
  have sized := mirror.within.trans limited
  have small : Encoder.AllRead (channel.integers fields) := by
    rw [Encoder.encode, List.length_append] at short
    rw [integers, Encoder.allRead_append]
    refine ⟨fun size announced => ?_,
      allRead_of_length_fieldsOctets sized (by omega)⟩
    rw [mirror.announces size (Option.mem_toList.mp announced)]
    exact sized
  have carried := carry_eq mirror fields
  rw [if_pos small] at carried
  rw [carried]

/-- An encoder and a decoder that has consumed exactly the blocks the encoder
wrote, held in between to sizes the decoder allows. -/
inductive Consumed : Channel → Prop
  | new {maxSize limit : Nat}
      (within : maxSize ≤ limit)
      (limited : limit ≤ Integer.largest)
      (huffman : Bool) :
      Consumed (Channel.new maxSize huffman limit)
  | resized {channel : Channel}
      (consumed : Consumed channel)
      {maxSize : Nat}
      (within : maxSize ≤ channel.decoder.limit) :
      Consumed (channel.resize maxSize)
  | carried {channel : Channel}
      (consumed : Consumed channel)
      {fields read : List Field}
      (reads : (channel.carry fields).1 = .ok read) :
      Consumed (channel.carry fields).2

theorem allRead_of_carry
    {channel : Channel}
    (mirror : Mirror channel)
    {fields read : List Field}
    (reads : (channel.carry fields).1 = .ok read) :
    Encoder.AllRead (channel.integers fields) ∧
      (channel.carry fields).2.decoder.limit = channel.decoder.limit := by
  have carried := carry_eq mirror fields
  split at carried
  next small => exact ⟨small, by rw [carried]⟩
  · rw [reads] at carried
    cases carried

theorem Consumed.mirror
    {channel : Channel}
    (consumed : Consumed channel) :
    Mirror channel ∧ channel.decoder.limit ≤ Integer.largest := by
  induction consumed with
  | new within limited huffman => exact ⟨mirror_new within huffman, limited⟩
  | resized _ within inductionHypothesis =>
      exact ⟨mirror_resize inductionHypothesis.1 within, inductionHypothesis.2⟩
  | carried _ reads inductionHypothesis =>
      obtain ⟨mirror, limited⟩ := inductionHypothesis
      obtain ⟨small, limit⟩ := allRead_of_carry mirror reads
      exact ⟨mirror_carry mirror small, limit ▸ limited⟩

theorem run_eq_of_mirror
    {channel : Channel}
    (mirror : Mirror channel)
    (limited : channel.decoder.limit ≤ Integer.largest)
    {operations : List Operation}
    (admitted : ∀ operation ∈ operations,
      operation.Admitted channel.decoder.limit) :
    (channel.run operations).1 =
        (operations.filterMap Operation.encoded).map .ok ∧
      Mirror (channel.run operations).2 := by
  induction operations generalizing channel with
  | nil => exact ⟨rfl, mirror⟩
  | cons operation rest inductionHypothesis =>
      obtain ⟨first, later⟩ := List.forall_mem_cons.mp admitted
      cases operation with
      | resize maxSize =>
          exact inductionHypothesis (mirror_resize mirror first) limited later
      | encode fields =>
          have small := allRead_of_admitted mirror limited first
          have carried := carry_eq mirror fields
          rw [if_pos small] at carried
          have limit : (channel.carry fields).2.decoder.limit =
              channel.decoder.limit := by
            rw [carried]
          have tail := inductionHypothesis (mirror_carry mirror small)
            (limit.symm ▸ limited) (limit.symm ▸ later)
          refine ⟨?_, tail.2⟩
          have read : (channel.carry fields).1 = .ok fields := by
            rw [carried]
          exact congrArg₂ List.cons read tail.1

/-- Whatever was encoded and whatever sizes were set in between, every block is
read as exactly the list it was written from. -/
theorem reads_of_run
    {limit maxSize : Nat}
    (limited : limit ≤ 2 ^ 32 - 1)
    (within : maxSize ≤ limit)
    (huffman : Bool)
    {operations : List Operation}
    (admitted : ∀ operation ∈ operations, operation.Admitted limit) :
    ((new maxSize huffman limit).run operations).1 =
      (operations.filterMap Operation.encoded).map .ok :=
  (run_eq_of_mirror (mirror_new within huffman) limited admitted).1

/-- A field written out, dropped by a size of nothing, and written out again
beside one that is indexed. -/
theorem reads_of_run_shrunk :
    ((new 100 true 4096).run
        [.encode [("a", "b")], .resize 0, .resize 200,
          .encode [("a", "b"), (":method", "GET")]]).1 =
      [.ok [("a", "b")], .ok [("a", "b"), (":method", "GET")]] :=
  reads_of_run (by decide) (by decide) true (by decide)

/-! ## Tables in step -/

/-- Sizes set one after another between two blocks, and the fields of the
block after them. -/
abbrev Interval := List Nat × List Field

/-- Every size set between two blocks holds what the last of them keeps of the
table, so that nothing is dropped that the announced size would keep. -/
def Spares (table : Table) (sizes : List Nat) : Prop :=
  ∀ size ∈ sizes, (table.resize (sizes.getLastD table.maxSize)).size ≤ size

instance (table : Table) (sizes : List Nat) : Decidable (Spares table sizes) :=
  inferInstanceAs (Decidable (∀ size ∈ sizes,
    (table.resize (sizes.getLastD table.maxSize)).size ≤ size))

/-- The encoder after the sizes of one interval. -/
def resizes (encoder : Encoder) (sizes : List Nat) : Encoder :=
  sizes.foldl Encoder.resize encoder

/-- Every interval of a history spares what its last size keeps. -/
def SparesAll : Encoder → List Interval → Prop
  | _, [] => True
  | encoder, (sizes, fields) :: rest =>
      Spares encoder.table sizes ∧
        SparesAll ((resizes encoder sizes).encode fields).2 rest

instance decidableSparesAll :
    (encoder : Encoder) → (history : List Interval) →
      Decidable (SparesAll encoder history)
  | _, [] => inferInstanceAs (Decidable True)
  | encoder, (sizes, fields) :: rest =>
      have := decidableSparesAll
        ((resizes encoder sizes).encode fields).2 rest
      inferInstanceAs (Decidable (_ ∧ _))

/-- One interval on both sides: the sizes set, then the block written and
read. -/
def carryAfter (channel : Channel) (interval : Interval) :
    Except Violation (List Field) × Channel :=
  { channel with encoder := resizes channel.encoder interval.1 }.carry
    interval.2

/-- The two tables are the same after every block, up to the first the decoder
refuses. -/
def InStep : Channel → List Interval → Prop
  | _, [] => True
  | channel, interval :: rest =>
      let outcome := channel.carryAfter interval
      outcome.1.isOk = true →
        outcome.2.decoder.table = outcome.2.encoder.table ∧
          InStep outcome.2 rest

instance decidableInStep :
    (channel : Channel) → (history : List Interval) →
      Decidable (InStep channel history)
  | _, [] => inferInstanceAs (Decidable True)
  | channel, interval :: rest =>
      have := decidableInStep (channel.carryAfter interval).2 rest
      inferInstanceAs (Decidable (_ = true → _ ∧ _))

theorem isPrefix_foldl_resize
    (sizes : List Nat)
    (table : Table) :
    (sizes.foldl Table.resize table).entries <+: table.entries := by
  induction sizes generalizing table with
  | nil => exact List.prefix_refl _
  | cons size rest inductionHypothesis =>
      have first : (table.resize size).entries <+: table.entries := by
        rw [Table.entries_resize]
        exact keep_isPrefix _ _
      exact (inductionHypothesis (table.resize size)).trans first

/-- A beginning that every size has room for is kept by all of them. -/
theorem isPrefix_of_roomy
    {beginning : List Field}
    {sizes : List Nat}
    (roomy : ∀ size ∈ sizes, total Table.cost beginning ≤ size)
    {table : Table}
    (begins : beginning <+: table.entries) :
    beginning <+: (sizes.foldl Table.resize table).entries := by
  induction sizes generalizing table with
  | nil => exact begins
  | cons size rest inductionHypothesis =>
      obtain ⟨first, later⟩ := List.forall_mem_cons.mp roomy
      apply inductionHypothesis later
      rw [Table.entries_resize]
      exact isPrefix_keep begins first

theorem maxSize_foldl_resize
    (sizes : List Nat)
    (table : Table) :
    (sizes.foldl Table.resize table).maxSize =
      sizes.getLastD table.maxSize := by
  induction sizes generalizing table with
  | nil => rfl
  | cons size rest inductionHypothesis =>
      rw [List.foldl_cons, inductionHypothesis, Table.maxSize_resize,
        List.getLastD_cons]

/-- Sizes that spare what the last keeps do what the last alone does. -/
theorem foldl_resize_of_spares
    {table : Table}
    {sizes : List Nat}
    (spares : Spares table sizes) :
    sizes.foldl Table.resize table =
      table.resize (sizes.getLastD table.maxSize) := by
  have sameSize := maxSize_foldl_resize sizes table
  apply Table.ext_entries _ (by rw [sameSize, Table.maxSize_resize])
  apply isPrefix_antisymm
  · rw [Table.entries_resize]
    apply isPrefix_keep (isPrefix_foldl_resize sizes table)
    rw [← sameSize]
    exact Table.total_entries_le _
  · apply isPrefix_of_roomy
    · intro size set
      rw [← Table.sized]
      exact spares size set
    · rw [Table.entries_resize]
      exact keep_isPrefix _ _

/-- A table is held to the size it has already without a change. -/
theorem resize_maxSize (table : Table) :
    table.resize table.maxSize = table := by
  apply Table.ext_entries _ (Table.maxSize_resize _ _)
  rw [Table.entries_resize]
  exact keep_of_total_le table.total_entries_le

theorem table_resize
    (encoder : Encoder)
    (size : Nat) :
    (encoder.resize size).table = encoder.table.resize size := by
  rw [Encoder.resize]
  split
  · rfl
  next same =>
    rw [not_not.mp same, resize_maxSize]

theorem table_resizes
    (encoder : Encoder)
    (sizes : List Nat) :
    (resizes encoder sizes).table = sizes.foldl Table.resize encoder.table := by
  induction sizes generalizing encoder with
  | nil => rfl
  | cons size rest inductionHypothesis =>
      rw [resizes, List.foldl_cons]
      exact (inductionHypothesis (encoder.resize size)).trans
        (by rw [table_resize, List.foldl_cons])

/-- Where no size is pending, none of the sizes set was a change. -/
theorem resizes_of_pending_none
    {encoder : Encoder}
    {sizes : List Nat}
    (pending : (resizes encoder sizes).pending = none) :
    resizes encoder sizes = encoder := by
  induction sizes generalizing encoder with
  | nil => rfl
  | cons size rest inductionHypothesis =>
      have later : resizes (encoder.resize size) rest = encoder.resize size :=
        inductionHypothesis pending
      have unset : (encoder.resize size).pending = none := by
        rw [← later]
        exact pending
      have same : encoder.resize size = encoder := by
        rw [Encoder.resize] at unset ⊢
        split
        next changed => simp [changed] at unset
        · rfl
      exact later.trans same

/-- The sizes of one interval keep the two sides mirrored. -/
theorem mirror_resizes
    {channel : Channel}
    (mirror : Mirror channel)
    {sizes : List Nat}
    (within : ∀ size ∈ sizes, size ≤ channel.decoder.limit) :
    Mirror { channel with encoder := resizes channel.encoder sizes } := by
  induction sizes generalizing channel with
  | nil => exact mirror
  | cons size rest inductionHypothesis =>
      obtain ⟨first, later⟩ := List.forall_mem_cons.mp within
      exact inductionHypothesis (mirror_resize mirror first) later

/-- Two sides in step are still so once the last of the sizes is announced. -/
theorem informed_of_spares
    {channel : Channel}
    {sizes : List Nat}
    (same : channel.decoder.table = channel.encoder.table)
    (spares : Spares channel.encoder.table sizes)
    (mirror : Mirror { channel with encoder := resizes channel.encoder sizes }) :
    informed { channel with encoder := resizes channel.encoder sizes } =
      (resizes channel.encoder sizes).table := by
  rw [informed]
  cases pending : (resizes channel.encoder sizes).pending with
  | none =>
      simp only
      rw [resizes_of_pending_none pending, same]
  | some size =>
      have last : size = sizes.getLastD channel.encoder.table.maxSize := by
        have announced := mirror.announces size pending
        rwa [table_resizes, maxSize_foldl_resize] at announced
      simp only
      rw [table_resizes, foldl_resize_of_spares spares, same, last]

theorem inStep_of_mirror
    {channel : Channel}
    (mirror : Mirror channel)
    (same : channel.decoder.table = channel.encoder.table)
    {history : List Interval}
    (within : ∀ interval ∈ history, ∀ size ∈ interval.1,
      size ≤ channel.decoder.limit)
    (spares : SparesAll channel.encoder history) :
    InStep channel history := by
  induction history generalizing channel with
  | nil => trivial
  | cons interval rest inductionHypothesis =>
      obtain ⟨sizes, fields⟩ := interval
      obtain ⟨sizesWithin, restWithin⟩ := List.forall_mem_cons.mp within
      obtain ⟨spared, laterSpared⟩ := spares
      have resized := mirror_resizes mirror sizesWithin
      have told := informed_of_spares same spared resized
      have carried := carry_eq resized fields
      rw [InStep]
      intro read
      simp only [carryAfter] at read ⊢
      split at carried
      case isTrue small =>
        have kept := mirror_carry resized small
        have tables : (Decoder.follow (resizes channel.encoder sizes).table
            (resizes channel.encoder sizes).table fields) =
            ((resizes channel.encoder sizes).encode fields).2.table :=
          Decoder.follow_self _ _
        rw [told] at carried
        simp only [carried] at kept ⊢
        exact ⟨tables, inductionHypothesis kept tables restWithin laterSpared⟩
      case isFalse =>
        rw [carried] at read
        cases read

/-- The two tables stay the same over every history whose intervals spare what
the size they announce keeps. -/
theorem inStep_of_sparesAll
    (maxSize : Nat)
    (huffman : Bool)
    {history : List Interval}
    (within : ∀ interval ∈ history, ∀ size ∈ interval.1, size ≤ maxSize)
    (spares : SparesAll (.new maxSize huffman) history) :
    InStep (new maxSize huffman maxSize) history :=
  inStep_of_mirror (mirror_new (le_refl maxSize) huffman) rfl within spares

/-- A table shrunk to one entry, then a growth back. -/
theorem inStep_of_sparesAll_shrunk :
    InStep (new 100 false 100)
      [([], [("a", "b"), ("c", "d")]), ([40], [("e", "f")]), ([100], [])] :=
  inStep_of_sparesAll 100 false (by decide) (by decide +kernel)

/-- Shrinking to nothing and growing back between two blocks empties the
encoder's table and announces nothing that empties the decoder's. -/
theorem not_inStep_of_shrunk_and_regrown :
    ¬InStep (new 100 false 100) [([], [("a", "b")]), ([0, 100], [])] := by
  decide +kernel

end Channel
end Hpack
end Http2
end XmipNet

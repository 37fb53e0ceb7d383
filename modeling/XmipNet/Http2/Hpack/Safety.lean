import XmipNet.Http2.Hpack.Decoder

/-!
# The decoder stays within its input

Every slice and every index of the decoding side, with its bounds checked: a
read with the checks does what the read without them does, on any octets and
whatever the table holds, so no check ever fails. A block that is read is
consumed to its last octet, and the table stays within what this side announced.
-/

namespace XmipNet
namespace Http2
namespace Hpack

/-- Why a read with its bounds checked stopped: a slice or an index past its
end, or what the read refuses. -/
inductive Fault
  | panicked
  | refused (violation : Violation)
  deriving DecidableEq

/-- A read with its bounds checked. -/
abbrev Checked (α : Type) := Except Fault α

namespace Checked

/-- What a read without checks gives. -/
def unfailing {α : Type} (outcome : Except Violation α) : Checked α :=
  outcome.mapError .refused

/-- The octets from `start` up to `stop`. -/
def slice (input : List UInt8) (start stop : Nat) : Checked (List UInt8) :=
  if start ≤ stop ∧ stop ≤ input.length then
    .ok ((input.drop start).take (stop - start))
  else
    .error .panicked

/-- The octets from `start` on. -/
def sliceFrom (input : List UInt8) (start : Nat) : Checked (List UInt8) :=
  slice input start input.length

/-- The octet at `place`. -/
def octetAt (input : List UInt8) (place : Nat) : Checked UInt8 :=
  match input[place]? with
  | some octet => .ok octet
  | none => .error .panicked

theorem sliceFrom_of_le
    {input : List UInt8}
    {start : Nat}
    (within : start ≤ input.length) :
    sliceFrom input start = .ok (input.drop start) := by
  rw [sliceFrom, slice, if_pos ⟨within, le_refl _⟩, List.take_of_length_le]
  rw [List.length_drop]

theorem slice_of_le
    {input : List UInt8}
    {start length : Nat}
    (within : start + length ≤ input.length) :
    slice input start (start + length) =
      .ok ((input.drop start).take length) := by
  rw [slice, if_pos ⟨Nat.le_add_right _ _, within⟩, Nat.add_sub_cancel_left]

/-- Where two steps agree on every state a fold passes through, so do the
folds. -/
theorem foldlM_unfailing
    {σ β : Type}
    (checked : σ → β → Checked σ)
    (plain : σ → β → Except Violation σ)
    (Reached : σ → Prop)
    (keeps : ∀ {state item next}, Reached state →
      plain state item = .ok next → Reached next)
    (agrees : ∀ {state} item, Reached state →
      checked state item = unfailing (plain state item))
    (items : List β)
    {start : σ}
    (reached : Reached start) :
    items.foldlM checked start = unfailing (items.foldlM plain start) := by
  induction items generalizing start with
  | nil => rfl
  | cons item rest inductionHypothesis =>
      rw [List.foldlM_cons, List.foldlM_cons, agrees item reached]
      cases steps : plain start item with
      | error violation => rfl
      | ok next => exact inductionHypothesis (keeps reached steps)

end Checked

open Checked (unfailing slice sliceFrom octetAt sliceFrom_of_le slice_of_le
  foldlM_unfailing)

/-! ## Integers -/

namespace Integer

theorem used_le_of_continued
    {usizeBits value shift used result taken : Nat}
    {input : List UInt8}
    (reads : continued usizeBits input value shift used = .ok (result, taken)) :
    taken ≤ used + input.length := by
  induction input generalizing value shift used with
  | nil => cases reads
  | cons octet rest inductionHypothesis =>
      rw [continued] at reads
      split at reads
      · simp only at reads
        split at reads
        · split at reads
          · cases reads
            rw [List.length_cons]
            omega
          · have shorter := inductionHypothesis reads
            rw [List.length_cons]
            omega
        · cases reads
      · cases reads

/-- An integer ends within the input it starts. -/
theorem used_le_of_decode
    {input : List UInt8}
    {prefixBits value used : Nat}
    (reads : decode input prefixBits = .ok (value, used)) :
    used ≤ input.length := by
  cases input with
  | nil => cases reads
  | cons head rest =>
      simp only [decode, decodeOn] at reads
      split at reads
      · cases reads
        rw [List.length_cons]
        omega
      · have within := used_le_of_continued reads
        rw [List.length_cons]
        omega

end Integer

/-! ## Huffman strings -/

namespace Huffman

open PrefixTrie

/-- Follow one bit, the node's place in the tree checked. -/
def Walk.followChecked
    (nodes : Nodes Nat)
    (walk : Walk)
    (bit : Bool) : Checked Walk :=
  match nodes[walk.node]? with
  | some _ => unfailing (walk.follow nodes bit)
  | none => .error .panicked

/-- `input`, decoded with its bounds checked. -/
def decodeChecked (input : List UInt8) : Checked (List UInt8) := do
  let walk ← (input.flatMap octetBits).foldlM (Walk.followChecked tree)
    { node := 0, depth := 0, allOnes := true, out := [] }
  if 7 < walk.depth ∨ walk.allOnes = false then
    .error (.refused (.compression
      "a Huffman string padded with other than the high bits of EOS"))
  else
    .ok walk.out

theorem Walk.followChecked_of_lt
    {nodes : Nodes Nat}
    {walk : Walk}
    (present : walk.node < nodes.length)
    (bit : Bool) :
    walk.followChecked nodes bit = unfailing (walk.follow nodes bit) := by
  rw [Walk.followChecked, List.getElem?_eq_getElem present]

/-- A walk that stands somewhere is at a node of the tree. -/
theorem Walk.Stands.lt
    {walk : Walk}
    {input : List UInt8}
    {path : List Bool}
    (stands : walk.Stands input path) :
    walk.node < tree.length := by
  have reaches := stands.reaches
  rw [tree] at reaches ⊢
  exact reaches.present (shape_build words_nonempty)

/-- The walk stands somewhere in the tree. -/
def Walk.Standing (walk : Walk) : Prop :=
  ∃ input path, walk.Stands input path

/-- Following one bit, a walk that stands somewhere stands somewhere again. -/
theorem Walk.Standing.follow
    {walk next : Walk}
    {bit : Bool}
    (standing : walk.Standing)
    (follows : walk.follow tree bit = .ok next) :
    next.Standing := by
  obtain ⟨input, path, stands⟩ := standing
  rcases stands.follow bit with ⟨other, more, rest, goes, standing, _⟩ | fails
  · rw [goes] at follows
    rw [← Except.ok.inj follows]
    exact ⟨more, rest, standing⟩
  · rw [fails] at follows
    cases follows

theorem Walk.standing_atRoot (out : List UInt8) :
    (Walk.atRoot out).Standing :=
  ⟨out, [], Walk.stands_atRoot out⟩

theorem Walk.Standing.followChecked
    {walk : Walk}
    (standing : walk.Standing)
    (bit : Bool) :
    walk.followChecked tree bit = unfailing (walk.follow tree bit) := by
  obtain ⟨input, path, stands⟩ := standing
  exact Walk.followChecked_of_lt stands.lt bit

theorem foldlM_followChecked (bits : List Bool) (out : List UInt8) :
    bits.foldlM (Walk.followChecked tree) (Walk.atRoot out) =
      unfailing (bits.foldlM (Walk.follow tree) (Walk.atRoot out)) :=
  foldlM_unfailing (Walk.followChecked tree) (Walk.follow tree) Walk.Standing
    Walk.Standing.follow (fun bit standing => standing.followChecked bit) bits
    (Walk.standing_atRoot out)

/-- No node a string's bits lead to is past the tree. -/
theorem decodeChecked_eq (input : List UInt8) :
    decodeChecked input = unfailing (decode input) := by
  have walks := foldlM_followChecked (input.flatMap octetBits) []
  rw [Walk.atRoot] at walks
  rw [decodeChecked, decode, walks]
  generalize (input.flatMap octetBits).foldlM (Walk.follow tree)
      { node := 0, depth := 0, allOnes := true, out := [] } = walked
  cases walked with
  | error violation => rfl
  | ok walk =>
      simp only [unfailing, Except.mapError, bind, Except.bind]
      by_cases bad : 7 < walk.depth ∨ walk.allOnes = false
      · rw [if_pos bad, if_pos bad]
      · rw [if_neg bad, if_neg bad]

end Huffman

/-! ## String literals -/

namespace Literal

/-- The string at the start of `input`, its slice checked. -/
def decodeChecked (input : List UInt8) : Checked (String × Nat) := do
  let coded := (input.head?.map fun octet => octet &&& 0x80 != 0).getD false
  let (length, start) ← unfailing (Integer.decode input 7)
  if start + length ≤ input.length then
    let raw ← slice input start (start + length)
    let bytes ← if coded then Huffman.decodeChecked raw else .ok raw
    match Text.fromUtf8 bytes with
    | some text => .ok (text, start + length)
    | none => .error (.refused notUtf8)
  else
    .error (.refused truncated)

theorem decodeChecked_eq (input : List UInt8) :
    decodeChecked input = unfailing (decode input) := by
  rw [decodeChecked, decode]
  cases Integer.decode input 7 with
  | error violation => rfl
  | ok read =>
      obtain ⟨length, start⟩ := read
      simp only [unfailing, Except.mapError, bind, Except.bind]
      by_cases within : start + length ≤ input.length
      · rw [if_pos within, if_pos within, slice_of_le within]
        generalize (input.head?.map fun octet =>
          octet &&& 0x80 != 0).getD false = coded
        cases coded with
        | false =>
            simp only [Bool.false_eq_true, if_false]
            cases Text.fromUtf8 ((input.drop start).take length) <;> rfl
        | true =>
            simp only [if_true, Huffman.decodeChecked_eq]
            cases Huffman.decode ((input.drop start).take length) with
            | error violation => rfl
            | ok bytes =>
                simp only [unfailing, Except.mapError]
                cases Text.fromUtf8 bytes <;> rfl
      · rw [if_neg within, if_neg within]

/-- What a string that is read was read from. -/
theorem of_decode
    {input : List UInt8}
    {text : String}
    {used : Nat}
    (reads : decode input = .ok (text, used)) :
    ∃ length start, Integer.decode input 7 = .ok (length, start) ∧
      used = start + length ∧ used ≤ input.length ∧
        ((input.drop start).take length = Text.octets text ∨
          Huffman.decode ((input.drop start).take length) =
            .ok (Text.octets text)) := by
  rw [decode] at reads
  cases integer : Integer.decode input 7 with
  | error violation =>
      rw [integer] at reads
      cases reads
  | ok read =>
      obtain ⟨length, start⟩ := read
      rw [integer] at reads
      simp only [bind, Except.bind] at reads
      by_cases within : start + length ≤ input.length
      · rw [if_pos within] at reads
        generalize (input.head?.map fun octet =>
          octet &&& 0x80 != 0).getD false = coded at reads
        cases coded with
        | false =>
            simp only [Bool.false_eq_true, if_false] at reads
            cases given : Text.fromUtf8 ((input.drop start).take length) with
            | none =>
                rw [given] at reads
                cases reads
            | some found =>
                rw [given] at reads
                cases reads
                exact ⟨length, start, rfl, rfl, within,
                  Or.inl (Text.octets_of_fromUtf8 given).symm⟩
        | true =>
            simp only [if_true] at reads
            cases unpacked : Huffman.decode
                ((input.drop start).take length) with
            | error violation =>
                rw [unpacked] at reads
                cases reads
            | ok bytes =>
                rw [unpacked] at reads
                cases given : Text.fromUtf8 bytes with
                | none =>
                    simp only [given] at reads
                    cases reads
                | some found =>
                    simp only [given] at reads
                    cases reads
                    refine ⟨length, start, rfl, rfl, within, Or.inr ?_⟩
                    rw [unpacked, Text.octets_of_fromUtf8 given]
      · rw [if_neg within] at reads
        cases reads

/-- A string ends within the input it starts. -/
theorem used_le_of_decode
    {input : List UInt8}
    {text : String}
    {used : Nat}
    (reads : decode input = .ok (text, used)) :
    used ≤ input.length := by
  obtain ⟨_, _, _, _, within, _⟩ := of_decode reads
  exact within

end Literal

/-! ## Header blocks -/

namespace Decoder

/-- A literal field, its slices checked. -/
def literalChecked
    (decoder : Decoder)
    (input : List UInt8)
    (prefixBits : Nat) : Checked (Field × Nat) := do
  let (index, start) ← unfailing (Integer.decode input prefixBits)
  if index = 0 then
    let nameInput ← sliceFrom input start
    let (name, nameUsed) ← Literal.decodeChecked nameInput
    let valueInput ← sliceFrom input (start + nameUsed)
    let (value, used) ← Literal.decodeChecked valueInput
    .ok ((name, value), start + nameUsed + used)
  else
    let (name, _) ← unfailing (decoder.table.get index)
    let valueInput ← sliceFrom input start
    let (value, used) ← Literal.decodeChecked valueInput
    .ok ((name, value), start + used)

/-- One representation, its slices checked. -/
def representationChecked
    (decoder : Decoder)
    (fields : List Field)
    (rest : List UInt8)
    (first : UInt8) : Checked (List Field × Nat × Decoder) :=
  if first &&& 0x80 ≠ 0 then do
    let (index, used) ← unfailing (Integer.decode rest 7)
    let field ← unfailing (decoder.table.get index)
    .ok (fields ++ [field], used, decoder)
  else if first &&& 0x40 ≠ 0 then do
    let (field, used) ← decoder.literalChecked rest 6
    .ok (fields ++ [field], used,
      { decoder with table := decoder.table.insert field })
  else if first &&& 0x20 ≠ 0 then
    if fields ≠ [] then
      .error (.refused lateUpdate)
    else do
      let (size, used) ← unfailing (Integer.decode rest 5)
      if decoder.limit < size then
        .error (.refused (.compression
          s!"a table size of {size}, over the {decoder.limit} announced"))
      else
        .ok (fields, used, { decoder with table := decoder.table.resize size })
  else do
    let (field, used) ← decoder.literalChecked rest 4
    .ok (fields ++ [field], used, decoder)

/-- A literal field is its name, indexed or read, and its value read after
it, all within the input. -/
theorem of_literal
    {decoder : Decoder}
    {input : List UInt8}
    {prefixBits used : Nat}
    {field : Field}
    (reads : decoder.literal input prefixBits = .ok (field, used)) :
    ∃ index start, Integer.decode input prefixBits = .ok (index, start) ∧
      ((∃ nameUsed valueUsed, index = 0 ∧
        Literal.decode (input.drop start) = .ok (field.1, nameUsed) ∧
          Literal.decode (input.drop (start + nameUsed)) =
            .ok (field.2, valueUsed) ∧
              used = start + nameUsed + valueUsed) ∨
        ∃ named valueUsed, decoder.table.get index = .ok named ∧
          field.1 = named.1 ∧
            Literal.decode (input.drop start) = .ok (field.2, valueUsed) ∧
              used = start + valueUsed) := by
  simp only [literal, bind, Except.bind] at reads
  split at reads
  · cases reads
  next pair integer =>
    refine ⟨_, _, integer, ?_⟩
    split at reads
    next zero =>
      split at reads
      · cases reads
      next name =>
        split at reads
        · cases reads
        next value =>
          cases reads
          exact Or.inl ⟨_, _, zero, name, value, rfl⟩
    next =>
      split at reads
      · cases reads
      next named =>
        split at reads
        · cases reads
        next value =>
          cases reads
          exact Or.inr ⟨_, _, named, rfl, value, rfl⟩

/-- A literal field ends within the input it starts. -/
theorem used_le_of_literal
    {decoder : Decoder}
    {input : List UInt8}
    {prefixBits used : Nat}
    {field : Field}
    (reads : decoder.literal input prefixBits = .ok (field, used)) :
    used ≤ input.length := by
  obtain ⟨index, start, integer, ⟨nameUsed, valueUsed, _, name, value, rfl⟩ |
    ⟨named, valueUsed, _, _, value, rfl⟩⟩ := of_literal reads
  · have first := Integer.used_le_of_decode integer
    have second := Literal.used_le_of_decode name
    have third := Literal.used_le_of_decode value
    rw [List.length_drop] at second third
    omega
  · have first := Integer.used_le_of_decode integer
    have second := Literal.used_le_of_decode value
    rw [List.length_drop] at second
    omega

/-- What a representation that is read does: it adds a field of the table, or
a literal one with or without keeping it, or it resizes the table. -/
theorem of_representation
    {decoder after : Decoder}
    {fields fieldsAfter : List Field}
    {rest : List UInt8}
    {first : UInt8}
    {used : Nat}
    (reads : decoder.representation fields rest first =
      .ok (fieldsAfter, used, after)) :
    (∃ index field, Integer.decode rest 7 = .ok (index, used) ∧
      decoder.table.get index = .ok field ∧
        fieldsAfter = fields ++ [field] ∧ after = decoder) ∨
    (∃ prefixBits field, decoder.literal rest prefixBits = .ok (field, used) ∧
      fieldsAfter = fields ++ [field] ∧
        (after = decoder ∨
          after = { decoder with table := decoder.table.insert field })) ∨
    ∃ size, Integer.decode rest 5 = .ok (size, used) ∧
      size ≤ decoder.limit ∧ fieldsAfter = fields ∧
        after = { decoder with table := decoder.table.resize size } := by
  simp only [representation, bind, Except.bind] at reads
  split at reads
  · split at reads
    · cases reads
    next pair integer =>
      split at reads
      · cases reads
      next field found =>
        cases reads
        exact Or.inl ⟨_, field, integer, found, rfl, rfl⟩
  · split at reads
    · split at reads
      · cases reads
      next pair literal =>
        cases reads
        exact Or.inr (Or.inl ⟨_, _, literal, rfl, Or.inr rfl⟩)
    · split at reads
      · split at reads
        · cases reads
        · split at reads
          · cases reads
          next pair integer =>
            split at reads
            · cases reads
            next within =>
              cases reads
              exact Or.inr (Or.inr ⟨_, integer, not_lt.mp within, rfl, rfl⟩)
      · split at reads
        · cases reads
        next pair literal =>
          cases reads
          exact Or.inr (Or.inl ⟨_, _, literal, rfl, Or.inl rfl⟩)

/-- A representation ends within the block. -/
theorem used_le_of_representation
    {decoder after : Decoder}
    {fields fieldsAfter : List Field}
    {rest : List UInt8}
    {first : UInt8}
    {used : Nat}
    (reads : decoder.representation fields rest first =
      .ok (fieldsAfter, used, after)) :
    used ≤ rest.length := by
  rcases of_representation reads with ⟨_, _, integer, _⟩ | ⟨_, _, literal, _⟩ |
    ⟨_, integer, _⟩
  · exact Integer.used_le_of_decode integer
  · exact used_le_of_literal literal
  · exact Integer.used_le_of_decode integer

theorem literalChecked_eq
    (decoder : Decoder)
    (input : List UInt8)
    (prefixBits : Nat) :
    decoder.literalChecked input prefixBits =
      unfailing (decoder.literal input prefixBits) := by
  rw [literalChecked, literal]
  cases integer : Integer.decode input prefixBits with
  | error violation => rfl
  | ok read =>
      obtain ⟨index, start⟩ := read
      have within := Integer.used_le_of_decode integer
      simp only [unfailing, Except.mapError, bind, Except.bind,
        sliceFrom_of_le within, Literal.decodeChecked_eq]
      by_cases zero : index = 0
      · rw [if_pos zero, if_pos zero]
        cases name : Literal.decode (input.drop start) with
        | error violation => rfl
        | ok found =>
            have named := Literal.used_le_of_decode name
            rw [List.length_drop] at named
            simp only [sliceFrom_of_le
              (show start + found.2 ≤ input.length by omega)]
            cases Literal.decode (input.drop (start + found.2)) <;> rfl
      · rw [if_neg zero, if_neg zero]
        cases decoder.table.get index with
        | error violation => rfl
        | ok field =>
            simp only
            cases Literal.decode (input.drop start) <;> rfl

theorem representationChecked_eq
    (decoder : Decoder)
    (fields : List Field)
    (rest : List UInt8)
    (first : UInt8) :
    decoder.representationChecked fields rest first =
      unfailing (decoder.representation fields rest first) := by
  simp only [representationChecked, representation, literalChecked_eq]
  by_cases indexed : first &&& 0x80 ≠ 0
  · rw [if_pos indexed, if_pos indexed]
    cases Integer.decode rest 7 with
    | error violation => rfl
    | ok read =>
        simp only [unfailing, Except.mapError, bind, Except.bind]
        cases decoder.table.get read.1 <;> rfl
  · rw [if_neg indexed, if_neg indexed]
    by_cases kept : first &&& 0x40 ≠ 0
    · rw [if_pos kept, if_pos kept]
      cases decoder.literal rest 6 <;> rfl
    · rw [if_neg kept, if_neg kept]
      by_cases update : first &&& 0x20 ≠ 0
      · rw [if_pos update, if_pos update]
        by_cases late : fields ≠ []
        · rw [if_pos late, if_pos late]
          rfl
        · rw [if_neg late, if_neg late]
          cases Integer.decode rest 5 with
          | error violation => rfl
          | ok read =>
              simp only [unfailing, Except.mapError, bind, Except.bind]
              by_cases exceeds : decoder.limit < read.1
              · rw [if_pos exceeds, if_pos exceeds]
              · rw [if_neg exceeds, if_neg exceeds]
      · rw [if_neg update, if_neg update]
        cases decoder.literal rest 4 <;> rfl

/-- One turn of the loop over a block, at the offset it has come to. -/
def turnChecked
    (decoder : Decoder)
    (fields : List Field)
    (block : List UInt8)
    (place : Nat) : Checked (List Field × Nat × Decoder) := do
  let rest ← sliceFrom block place
  let first ← octetAt rest 0
  decoder.representationChecked fields rest first

theorem turnChecked_eq
    (decoder : Decoder)
    (fields : List Field)
    {block : List UInt8}
    {place : Nat}
    {first : UInt8}
    {tail : List UInt8}
    (rest : block.drop place = first :: tail) :
    decoder.turnChecked fields block place =
      unfailing (decoder.representation fields (first :: tail) first) := by
  have within : place < block.length := by
    have lengths := congrArg List.length rest
    rw [List.length_drop, List.length_cons] at lengths
    omega
  rw [turnChecked, sliceFrom_of_le within.le, rest]
  exact decoder.representationChecked_eq fields (first :: tail) first

/-- Every turn takes an octet at least. -/
theorem one_le_of_turnChecked
    {decoder after : Decoder}
    {fields fieldsAfter : List Field}
    {block : List UInt8}
    {place used : Nat}
    (within : place < block.length)
    (reads : decoder.turnChecked fields block place =
      .ok (fieldsAfter, used, after)) :
    1 ≤ used := by
  cases rest : block.drop place with
  | nil =>
      rw [List.drop_eq_nil_iff] at rest
      omega
  | cons first tail =>
      rw [turnChecked_eq decoder fields rest] at reads
      cases representation :
          decoder.representation fields (first :: tail) first with
      | error violation =>
          rw [representation] at reads
          cases reads
      | ok read =>
          rw [representation] at reads
          cases reads
          exact one_le_of_representation representation

/-- The loop over a block from an offset on, with its bounds checked: the
fields, and the offset it ended at. -/
def decodeAt
    (decoder : Decoder)
    (fields : List Field)
    (block : List UInt8)
    (place : Nat) : Checked (List Field × Nat) × Decoder :=
  if _within : place < block.length then
    match _reads : decoder.turnChecked fields block place with
    | .error fault => (.error fault, decoder)
    | .ok (fieldsAfter, used, after) =>
        decodeAt after fieldsAfter block (place + used)
  else
    (.ok (fields, place), decoder)
termination_by block.length - place
decreasing_by
  have positive := one_le_of_turnChecked _within _reads
  omega

theorem decodeAt_of_error
    {decoder : Decoder}
    {fields : List Field}
    {block : List UInt8}
    {place : Nat}
    {fault : Fault}
    (within : place < block.length)
    (stops : decoder.turnChecked fields block place = .error fault) :
    decoder.decodeAt fields block place = (.error fault, decoder) := by
  rw [decodeAt, dif_pos within]
  split
  next other fails =>
    rw [stops] at fails
    cases fails
    rfl
  next reads =>
    rw [stops] at reads
    cases reads

theorem decodeAt_of_ok
    {decoder after : Decoder}
    {fields fieldsAfter : List Field}
    {block : List UInt8}
    {place used : Nat}
    (within : place < block.length)
    (turns : decoder.turnChecked fields block place =
      .ok (fieldsAfter, used, after)) :
    decoder.decodeAt fields block place =
      after.decodeAt fieldsAfter block (place + used) := by
  rw [decodeAt, dif_pos within]
  split
  next fails =>
    rw [turns] at fails
    cases fails
  next reads =>
    rw [turns] at reads
    cases reads
    rfl

/-- The loop with its bounds checked reads what the loop without them reads,
and ends where the block does. -/
theorem decodeAt_eq
    (decoder : Decoder)
    (fields : List Field)
    {block : List UInt8}
    {place : Nat}
    (within : place ≤ block.length) :
    decoder.decodeAt fields block place =
      (unfailing ((decoder.decodeFrom fields (block.drop place)).1.map
        fun read => (read, block.length)),
        (decoder.decodeFrom fields (block.drop place)).2) := by
  generalize remaining : block.drop place = rest
  have left := congrArg List.length remaining
  rw [List.length_drop] at left
  fun_induction decodeFrom decoder fields rest generalizing place with
  | case1 decoder fields =>
      rw [List.length_nil] at left
      rw [decodeAt, dif_neg (by omega), show place = block.length by omega]
      rfl
  | case2 decoder fields first tail violation fails =>
      rw [List.length_cons] at left
      refine decodeAt_of_error (by omega) ?_
      rw [turnChecked_eq decoder fields remaining, fails]
      rfl
  | case3 decoder fields first tail fieldsAfter used after reads
      inductionHypothesis =>
      have shorter := used_le_of_representation reads
      have further : block.drop (place + used) = (first :: tail).drop used := by
        rw [← remaining, List.drop_drop]
      rw [List.length_cons] at left shorter
      have turns : decoder.turnChecked fields block place =
          .ok (fieldsAfter, used, after) := by
        rw [turnChecked_eq decoder fields remaining, reads]
        rfl
      rw [decodeAt_of_ok (by omega) turns]
      refine inductionHypothesis (by omega) further ?_
      rw [← further, List.length_drop]

/-! ## What the decoder keeps -/

/-- The decoder after some blocks, whatever became of each. -/
def fed (decoder : Decoder) (blocks : List (List UInt8)) : Decoder :=
  blocks.foldl (fun before block => (before.decode block).2) decoder

/-- A decoder whose table may hold no more than was announced, still what it
started with. -/
structure Within (limit : Nat) (decoder : Decoder) : Prop where
  announced : decoder.limit = limit
  table : decoder.table.maxSize ≤ limit

theorem within_new (limit : Nat) : (new limit).Within limit :=
  ⟨rfl, le_refl limit⟩

theorem Within.representation
    {limit : Nat}
    {decoder after : Decoder}
    (within : decoder.Within limit)
    {fields fieldsAfter : List Field}
    {rest : List UInt8}
    {first : UInt8}
    {used : Nat}
    (reads : decoder.representation fields rest first =
      .ok (fieldsAfter, used, after)) :
    after.Within limit := by
  rcases of_representation reads with ⟨_, _, _, _, _, rfl⟩ |
    ⟨_, _, _, _, rfl | rfl⟩ | ⟨size, _, small, _, rfl⟩
  · exact within
  · exact within
  · refine ⟨within.announced, ?_⟩
    rw [Table.maxSize_insert]
    exact within.table
  · exact ⟨within.announced, small.trans within.announced.le⟩

/-- A block that is refused halfway leaves the table within its bound too. -/
theorem Within.decodeFrom
    {limit : Nat}
    {decoder : Decoder}
    (within : decoder.Within limit)
    (fields : List Field)
    (rest : List UInt8) :
    (decoder.decodeFrom fields rest).2.Within limit := by
  fun_induction Decoder.decodeFrom decoder fields rest with
  | case1 decoder fields => exact within
  | case2 decoder fields first tail violation fails => exact within
  | case3 decoder fields first tail fieldsAfter used after reads
      inductionHypothesis =>
      exact inductionHypothesis (within.representation reads)

theorem within_fed
    {limit : Nat}
    {decoder : Decoder}
    (within : decoder.Within limit)
    (blocks : List (List UInt8)) :
    (decoder.fed blocks).Within limit := by
  induction blocks generalizing decoder with
  | nil => exact within
  | cons block rest inductionHypothesis =>
      exact inductionHypothesis (within.decodeFrom [] block)

/-- Whatever a decoder was fed before, reading a block takes no slice and no
index past its end, takes an octet at least at every turn and none past the
block, gives a list only where the whole block was read, and leaves the table
at the size its entries cost, within what was announced. -/
theorem decode_safe
    (limit : Nat)
    (earlier : List (List UInt8))
    (block : List UInt8) :
    let decoder := (new limit).fed earlier
    let after := (decoder.decode block).2
    decoder.decodeAt [] block 0 =
        (unfailing ((decoder.decode block).1.map
          fun read => (read, block.length)), after) ∧
      (∀ input prefixBits value used,
        Integer.decode input prefixBits = .ok (value, used) →
          1 ≤ used ∧ used ≤ input.length) ∧
      (∀ input text used, Literal.decode input = .ok (text, used) →
        used ≤ input.length) ∧
      (∀ (reader : Decoder) input prefixBits field used,
        reader.literal input prefixBits = .ok (field, used) →
          1 ≤ used ∧ used ≤ input.length) ∧
      (∀ (reader : Decoder) fields rest first fieldsAfter used readerAfter,
        reader.representation fields rest first =
            .ok (fieldsAfter, used, readerAfter) →
          1 ≤ used ∧ used ≤ rest.length) ∧
      after.table.size =
          (after.table.entries.map Table.cost).sum ∧
        after.table.size ≤ after.table.maxSize ∧
          after.table.maxSize ≤ limit := by
  intro decoder after
  refine ⟨decodeAt_eq decoder [] (Nat.zero_le _), ?_, ?_, ?_, ?_, ?_, ?_, ?_⟩
  · intro input prefixBits value used reads
    exact ⟨Integer.one_le_of_decode reads, Integer.used_le_of_decode reads⟩
  · intro input text used reads
    exact Literal.used_le_of_decode reads
  · intro reader input prefixBits field used reads
    exact ⟨one_le_of_literal reads, used_le_of_literal reads⟩
  · intro reader fields rest first fieldsAfter used readerAfter reads
    exact ⟨one_le_of_representation reads, used_le_of_representation reads⟩
  · exact after.table.sized
  · exact after.table.fits
  · exact ((within_fed (within_new limit) earlier).decodeFrom [] block).table

end Decoder
end Hpack
end Http2
end XmipNet

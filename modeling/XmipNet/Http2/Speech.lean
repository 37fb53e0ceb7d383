import XmipNet.Http2.Items
import XmipNet.Http2.Outgoing
import XmipNet.Http2.Incoming

/-!
# What the frames of a message say

A side says items: a header block, cut into frames, or a piece of a body. Whoever
reads the frames in the order they were said, with a table of its own, reads the
items that were said, as far as it has come, unless it comes to a block that it
cannot read at all.
-/

namespace XmipNet
namespace Http2

open Hpack (Field)
open Hpack.Channel (carry carry_eq allRead_of_carry Consumed)

namespace Reader

/-- Where a frame ends a header block, the block is read. -/
def Takes (reader : Reader) (frame : Frame) : Prop :=
  ∀ id octets ends, reader.assembled frame = some (id, octets, ends) →
    frame.has endHeaders = true →
      ∃ fields decoder, reader.decoder.decode octets = (.ok fields, decoder)

/-- Every header block that ends among `frames` is read. -/
def Legible (reader : Reader) : List Frame → Prop
  | [] => True
  | frame :: rest => reader.Takes frame ∧ (reader.read frame).1.Legible rest

theorem legible_append
    (reader : Reader)
    (frames later : List Frame) :
    reader.Legible (frames ++ later) ↔
      reader.Legible frames ∧ (reader.readAll frames).1.Legible later := by
  induction frames generalizing reader with
  | nil => simp only [List.nil_append, Legible, readAll, true_and]
  | cons frame rest inductionHypothesis =>
      simp only [List.cons_append, Legible, readAll, inductionHypothesis,
        and_assoc]

/-- Frames that carry nothing of a message are passed by. -/
theorem readAll_filter
    (reader : Reader)
    (frames : List Frame) :
    reader.readAll (frames.filter fun frame => ¬frame.Control) =
      reader.readAll frames := by
  induction frames generalizing reader with
  | nil => rfl
  | cons frame rest inductionHypothesis =>
      by_cases control : frame.Control
      · have ⟨data, headers, continuation⟩ := control
        have passed := reader.read_of_other data headers continuation
        rw [List.filter_cons_of_neg (by simpa using control),
          inductionHypothesis]
        simp only [readAll, passed, Option.toList_none, List.nil_append]
      · rw [List.filter_cons_of_pos (by simpa using control)]
        simp only [readAll, inductionHypothesis]

theorem legible_filter
    (reader : Reader)
    (frames : List Frame)
    (legible : reader.Legible frames) :
    reader.Legible (frames.filter fun frame => ¬frame.Control) := by
  induction frames generalizing reader with
  | nil => trivial
  | cons frame rest inductionHypothesis =>
      obtain ⟨takes, later⟩ := legible
      by_cases control : frame.Control
      · have ⟨data, headers, continuation⟩ := control
        have passed := reader.read_of_other data headers continuation
        rw [List.filter_cons_of_neg (by simpa using control)]
        rw [passed] at later
        exact inductionHypothesis reader later
      · rw [List.filter_cons_of_pos (by simpa using control)]
        exact ⟨takes, inductionHypothesis _ later⟩

end Reader

/-! ## A header block, frame by frame -/

/-- What a whole block gives once it is decoded. -/
def decoded (decoder : Hpack.Decoder) (id : Nat) (octets : List UInt8)
    (ends : Bool) : Reader × List (Nat × Item) :=
  match decoder.decode octets with
  | (.ok fields, after) => (⟨after, none⟩, [(id, .block fields ends)])
  | (.error _, after) => (⟨after, none⟩, [])

/-- A reader that a block on `id` has come to so far as `octets`, and that goes
on with a frame of `kind`, or begins with it. -/
inductive Midway (reader : Reader) (id : Nat) (ends : Bool) :
    Kind → List UInt8 → Prop
  | first
      (idle : reader.continuing = none) :
      Midway reader id ends .headers []
  | onward {octets : List UInt8}
      (waits : reader.continuing =
        some { stream := id, block := octets, ends }) :
      Midway reader id ends .continuation octets

section Midway

variable {reader : Reader} {id : Nat} {ends : Bool} {kind : Kind}
  {octets : List UInt8}

theorem Midway.either
    (midway : Midway reader id ends kind octets) :
    kind = .headers ∨ kind = .continuation := by
  cases midway with
  | first => exact Or.inl rfl
  | onward => exact Or.inr rfl

theorem Midway.assembled
    (midway : Midway reader id ends kind octets)
    (last : Bool)
    (piece : List UInt8) :
    reader.assembled (Connection.pieceFrame id kind ends last piece) =
      some (id, octets ++ piece, ends) := by
  cases midway with
  | first idle =>
      have content := Connection.content_pieceFrame id ends last piece
      have ended := Connection.has_endStream_pieceFrame id ends last piece
      simp only [Connection.pieceFrame] at content ended
      simp only [Reader.assembled, Connection.pieceFrame, content, ended,
        List.nil_append]
  | onward waits =>
      simp only [Reader.assembled, Connection.pieceFrame, waits,
        Option.map_some]

theorem Midway.data
    (midway : Midway reader id ends kind octets)
    (last : Bool)
    (piece : List UInt8) :
    (Connection.pieceFrame id kind ends last piece).kind ≠ .data := by
  rcases midway.either with rfl | rfl <;> exact Kind.noConfusion

theorem Midway.read_onward
    (midway : Midway reader id ends kind octets)
    (piece : List UInt8) :
    reader.read (Connection.pieceFrame id kind ends false piece) =
      ({ reader with
        continuing := some { stream := id, block := octets ++ piece, ends } },
        none) :=
  Reader.read_of_waiting (midway.data false piece) (midway.assembled false piece)
    (Connection.has_endHeaders_pieceFrame id kind ends false piece)

theorem Midway.read_last
    (midway : Midway reader id ends kind octets)
    (piece : List UInt8) :
    reader.readAll [Connection.pieceFrame id kind ends true piece] =
      decoded reader.decoder id (octets ++ piece) ends := by
  have whole := Connection.has_endHeaders_pieceFrame id kind ends true piece
  rw [Reader.readAll_singleton, Reader.read, if_neg (midway.data true piece),
    midway.assembled]
  simp only [whole, if_true, decoded]
  rcases reader.decoder.decode (octets ++ piece) with ⟨_ | fields, decoder⟩
  · rfl
  · rfl

/-- The frames of a block read whole give the block decoded; what comes of them
before the last gives nothing. -/
theorem Midway.readAll
    (midway : Midway reader id ends kind octets)
    (piece : List UInt8)
    (cut : List (List UInt8)) :
    reader.readAll (Connection.blockFrames id ends kind (piece :: cut)) =
        decoded reader.decoder id (octets ++ (piece :: cut).flatten) ends ∧
      ∀ came, came <+: Connection.blockFrames id ends kind (piece :: cut) →
        came ≠ Connection.blockFrames id ends kind (piece :: cut) →
          (reader.readAll came).2 = [] := by
  induction cut generalizing reader kind octets piece with
  | nil =>
      refine ⟨?_, fun came begins unfinished => ?_⟩
      · rw [Connection.blockFrames, Connection.blockFrames, List.isEmpty_nil,
          midway.read_last]
        simp only [List.flatten_cons, List.flatten_nil, List.append_nil]
      · rcases (@List.prefix_concat_iff _ _ [] _).mp begins with same | before
        · exact absurd same unfinished
        · rw [List.prefix_nil.mp before]
          rfl
  | cons next rest inductionHypothesis =>
      have onward : Midway { reader with
          continuing := some { stream := id, block := octets ++ piece, ends } }
          id ends .continuation (octets ++ piece) := .onward rfl
      obtain ⟨whole, partly⟩ := inductionHypothesis onward next
      have first := midway.read_onward piece
      refine ⟨?_, fun came begins unfinished => ?_⟩
      · rw [Connection.blockFrames, List.isEmpty_cons, Reader.readAll, first]
        simp only [whole, Option.toList_none, List.nil_append,
          List.flatten_cons, List.append_assoc]
      · rw [Connection.blockFrames, List.isEmpty_cons] at begins unfinished
        cases came with
        | nil => rfl
        | cons frame came =>
            obtain ⟨rfl, later⟩ := List.cons_prefix_cons.mp begins
            have short : came ≠
                Connection.blockFrames id ends .continuation (next :: rest) :=
              fun same => unfinished (by rw [same])
            simp only [Reader.readAll, first, Option.toList_none,
              List.nil_append]
            exact partly came later short

/-- Of a block that was read frame by frame the whole was read. -/
theorem Midway.legible
    (midway : Midway reader id ends kind octets)
    (piece : List UInt8)
    (cut : List (List UInt8)) :
    reader.Legible (Connection.blockFrames id ends kind (piece :: cut)) ↔
      ∃ fields decoder, reader.decoder.decode
        (octets ++ (piece :: cut).flatten) = (.ok fields, decoder) := by
  induction cut generalizing reader kind octets piece with
  | nil =>
      have whole := Connection.has_endHeaders_pieceFrame id kind ends true piece
      simp only [Connection.blockFrames, List.isEmpty_nil, Reader.Legible,
        and_true, List.flatten_cons, List.flatten_nil, List.append_nil]
      refine ⟨fun takes => takes _ _ _ (midway.assembled true piece) whole, ?_⟩
      intro decodes other assembled ended assembles _
      rw [midway.assembled] at assembles
      cases assembles
      exact decodes
  | cons next rest inductionHypothesis =>
      have onward : Midway { reader with
          continuing := some { stream := id, block := octets ++ piece, ends } }
          id ends .continuation (octets ++ piece) := .onward rfl
      have unended := Connection.has_endHeaders_pieceFrame id kind ends false
        piece
      have passes : reader.Takes
          (Connection.pieceFrame id kind ends false piece) := by
        intro _ _ _ _ ended
        rw [unended] at ended
        cases ended
      rw [Connection.blockFrames, List.isEmpty_cons, Reader.Legible,
        midway.read_onward, and_iff_right passes, inductionHypothesis onward]
      simp only [List.flatten_cons, List.append_assoc]

end Midway

/-! ## Everything a side has said -/

/-- What a side has said: the frames of its messages, the items they say, each
on its stream, and the encoder after them. -/
inductive Spoken : List Frame → List (Nat × Item) → Hpack.Encoder → Prop
  | silence : Spoken [] [] (.new encoderTable true)
  | resized {frames : List Frame} {items : List (Nat × Item)}
      {encoder : Hpack.Encoder} {size : Nat}
      (spoken : Spoken frames items encoder)
      (within : size ≤ encoderTable) :
      Spoken frames items (encoder.resize size)
  | data {frames : List Frame} {items : List (Nat × Item)}
      {encoder : Hpack.Encoder} {frame : Frame} {content : List UInt8}
      (spoken : Spoken frames items encoder)
      (kind : frame.kind = .data)
      (holds : frame.content = .ok content) :
      Spoken (frames ++ [frame])
        (items ++ [(frame.stream, .data content (frame.has endStream))]) encoder
  | block {frames : List Frame} {items : List (Nat × Item)}
      {encoder : Hpack.Encoder} {id : Nat} {fields : List Field} {ends : Bool}
      {piece : List UInt8} {cut : List (List UInt8)}
      (spoken : Spoken frames items encoder)
      (whole : (piece :: cut).flatten = (encoder.encode fields).1) :
      Spoken (frames ++ Connection.blockFrames id ends .headers (piece :: cut))
        (items ++ [(id, .block fields ends)]) (encoder.encode fields).2

/-- A reader that has read all that was said. -/
structure InStep (reader : Reader) (encoder : Hpack.Encoder) : Prop where
  idle : reader.continuing = none
  consumed : Consumed ⟨encoder, reader.decoder⟩
  limit : reader.decoder.limit = encoderTable

theorem inStep_initial : InStep .initial (.new encoderTable true) where
  idle := rfl
  consumed := .new (le_refl _) (by decide) true
  limit := rfl

/-- A block that is read is read as it was encoded. -/
theorem InStep.decoded
    {reader : Reader}
    {encoder : Hpack.Encoder}
    (inStep : InStep reader encoder)
    {fields read : List Field}
    {decoder : Hpack.Decoder}
    (decodes : reader.decoder.decode (encoder.encode fields).1 =
      (.ok read, decoder)) :
    read = fields ∧ InStep ⟨decoder, none⟩ (encoder.encode fields).2 := by
  have carries : (carry ⟨encoder, reader.decoder⟩ fields) =
      (.ok read, ⟨(encoder.encode fields).2, decoder⟩) := by
    rw [carry]
    simp only [decodes]
  have reads : (carry ⟨encoder, reader.decoder⟩ fields).1 = .ok read := by
    rw [carries]
  obtain ⟨small, limit⟩ :=
    allRead_of_carry inStep.consumed.mirror.1 reads
  have carried := carry_eq inStep.consumed.mirror.1 fields
  rw [if_pos small] at carried
  have same : Except.ok read = Except.ok fields :=
    reads.symm.trans (congrArg Prod.fst carried)
  have consumed := inStep.consumed.carried reads
  rw [carries] at consumed limit
  exact ⟨Except.ok.inj same, rfl, consumed, limit.trans inStep.limit⟩

/-- Whoever has heard a beginning of what was said, and could read every block
of it, has read a beginning of the items; and whoever has heard all of it has
read all of them. -/
theorem Spoken.heard
    {frames : List Frame}
    {items : List (Nat × Item)}
    {encoder : Hpack.Encoder}
    (spoken : Spoken frames items encoder)
    {came : List Frame}
    (heard : came <+: frames)
    (legible : Reader.initial.Legible came) :
    (Reader.initial.readAll came).2 <+: items ∧
      (came = frames → (Reader.initial.readAll came).2 = items ∧
        InStep (Reader.initial.readAll came).1 encoder) := by
  induction spoken generalizing came with
  | silence =>
      obtain rfl := List.prefix_nil.mp heard
      exact ⟨List.prefix_refl _, fun _ => ⟨rfl, inStep_initial⟩⟩
  | resized _ within inductionHypothesis =>
      obtain ⟨begins, whole⟩ := inductionHypothesis heard legible
      refine ⟨begins, fun all => ?_⟩
      obtain ⟨same, inStep⟩ := whole all
      exact ⟨same, inStep.idle,
        inStep.consumed.resized (within.trans_eq inStep.limit.symm),
        inStep.limit⟩
  | @data frames items encoder frame content _ kind holds
      inductionHypothesis =>
      rcases List.prefix_concat_iff.mp heard with rfl | before
      · obtain ⟨earlier, last⟩ := (Reader.legible_append _ _ _).mp legible
        obtain ⟨same, inStep⟩ :=
          (inductionHypothesis (List.prefix_refl _) earlier).2 rfl
        have reads : (Reader.initial.readAll frames).1.read frame =
            ((Reader.initial.readAll frames).1,
              some (frame.stream, .data content (frame.has endStream))) := by
          rw [Reader.read, if_pos kind, holds]
        rw [Reader.readAll_append, Reader.readAll_singleton, reads, same]
        exact ⟨List.prefix_refl _, fun _ => ⟨rfl, inStep⟩⟩
      · obtain ⟨begins, _⟩ := inductionHypothesis before legible
        refine ⟨begins.trans (List.prefix_append _ _), fun all => ?_⟩
        have short := before.length_le
        rw [all, List.length_append, List.length_singleton] at short
        omega
  | @block frames items encoder id fields ends piece cut _ whole
      inductionHypothesis =>
      rcases List.prefix_or_prefix_of_prefix heard (List.prefix_append _ _)
        with before | ⟨part, rfl⟩
      · obtain ⟨begins, earlier⟩ := inductionHypothesis before legible
        refine ⟨begins.trans (List.prefix_append _ _), fun all => ?_⟩
        have short := before.length_le
        rw [all, List.length_append] at short
        simp only [Connection.blockFrames, List.length_cons] at short
        omega
      · have within := (List.prefix_append_right_inj frames).mp heard
        obtain ⟨earlier, last⟩ := (Reader.legible_append _ _ _).mp legible
        obtain ⟨same, inStep⟩ :=
          (inductionHypothesis (List.prefix_refl _) earlier).2 rfl
        have midway : Midway (Reader.initial.readAll frames).1 id ends .headers
            [] := .first inStep.idle
        obtain ⟨reads, partly⟩ := midway.readAll piece cut
        rw [List.nil_append, whole] at reads
        by_cases all : part = Connection.blockFrames id ends .headers
          (piece :: cut)
        · have last := (midway.legible piece cut).mp (all ▸ last)
          rw [List.nil_append, whole] at last
          obtain ⟨read, decoder, decodes⟩ := last
          obtain ⟨rfl, after⟩ := inStep.decoded decodes
          rw [decoded, decodes] at reads
          rw [Reader.readAll_append, all, reads, same]
          exact ⟨List.prefix_refl _, fun _ => ⟨rfl, after⟩⟩
        · have unfinished : frames ++ part ≠ frames ++
              Connection.blockFrames id ends .headers (piece :: cut) :=
            fun equal => all (List.append_cancel_left equal)
          rw [Reader.readAll_append, partly part within all, same,
            List.append_nil]
          exact ⟨List.prefix_append _ _, fun equal => absurd equal unfinished⟩

end Http2
end XmipNet

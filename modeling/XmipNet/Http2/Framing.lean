import XmipNet.Delivery
import XmipNet.Foundation.Cuts
import XmipNet.Http2.Frame

/-!
# Frames over the wire

The frames written one after another are the frames read, however the
connection cuts their octets; where it ends inside a frame, the whole frames
before it are read and then an error.
-/

namespace XmipNet
namespace Http2

open Wire (Delivers)

namespace Kind

/-- A type is written as the number it was read from. -/
theorem code_of (code : UInt8) : (of code).code = code := by
  rw [of]
  have number : ∀ value : Nat, code.toNat = value → UInt8.ofNat value = code := by
    rintro value rfl
    exact UInt8.ofNat_toNat
  split
  all_goals first | exact number _ ‹_› | rfl

end Kind

namespace Frame

/-- A frame that fits `maxSize`, on a stream there can be, of a type as it is
read. -/
structure Sendable (maxSize : Nat) (frame : Frame) : Prop where
  payload : frame.payload.length ≤ maxSize
  stream : frame.stream < 2 ^ 31
  kind : ∃ code, frame.kind = .of code

theorem length_encode (frame : Frame) :
    frame.encode.length = headerLen + frame.payload.length := by
  simp only [encode, List.length_append, BigEndian.length_write,
    List.length_cons, List.length_nil, headerLen]

/-- The nine octets of a frame's header. -/
def header (frame : Frame) : List UInt8 :=
  BigEndian.write 3 frame.payload.length ++
    [frame.kind.code, frame.flags] ++
    BigEndian.write 4 (frame.stream &&& maxStreamId)

theorem encode_eq (frame : Frame) :
    frame.encode = frame.header ++ frame.payload := rfl

theorem length_header (frame : Frame) :
    frame.header.length = headerLen := by
  simp only [header, List.length_append, BigEndian.length_write,
    List.length_cons, List.length_nil, headerLen]

/-- The fields of a header are those it was written from. -/
theorem fields_of_header
    {frame : Frame}
    {maxSize : Nat}
    (small : maxSize < 2 ^ 24)
    (sendable : frame.Sendable maxSize) :
    BigEndian.read (frame.header.take 3) = frame.payload.length ∧
      Kind.of (frame.header.getD 3 0) = frame.kind ∧
        frame.header.getD 4 0 = frame.flags ∧
          BigEndian.read (frame.header.drop 5) &&& maxStreamId =
            frame.stream := by
  have split : frame.header = BigEndian.write 3 frame.payload.length ++
      (frame.kind.code :: frame.flags ::
        BigEndian.write 4 (frame.stream &&& maxStreamId)) := by
    rw [header, List.append_assoc]
    rfl
  have three : (BigEndian.write 3 frame.payload.length).length = 3 :=
    BigEndian.length_write _ _
  have masked : frame.stream &&& maxStreamId = frame.stream := by
    rw [maxStreamId, show 0x7fffffff = 2 ^ 31 - 1 from rfl,
      Nat.and_two_pow_sub_one_eq_mod, Nat.mod_eq_of_lt sendable.stream]
  refine ⟨?_, ?_, ?_, ?_⟩
  · rw [split, List.take_left' three]
    exact BigEndian.read_write_of_lt
      (lt_of_le_of_lt sendable.payload (lt_of_lt_of_le small (by decide)))
  · obtain ⟨code, kind⟩ := sendable.kind
    have held : frame.header[3]? = some frame.kind.code := by
      rw [split, List.getElem?_append_right three.le, three]
      rfl
    rw [List.getD_eq_getElem?_getD, held, Option.getD_some, kind, Kind.code_of]
  · have held : frame.header[4]? = some frame.flags := by
      rw [split, List.getElem?_append_right (three.le.trans (by decide)), three]
      rfl
    rw [List.getD_eq_getElem?_getD, held, Option.getD_some]
  · have past : (BigEndian.write 3 frame.payload.length).drop 5 = [] :=
      List.drop_eq_nil_of_le (three.le.trans (by decide))
    rw [split, List.drop_append, three, past, List.nil_append]
    change BigEndian.read (BigEndian.write 4 (frame.stream &&& maxStreamId)) &&&
      maxStreamId = frame.stream
    have word := lt_trans sendable.stream (by decide : 2 ^ 31 < 256 ^ 4)
    rw [masked, BigEndian.read_write_of_lt word, masked]

/-- A frame at the front of what a connection delivers is read. -/
theorem read_of_delivers
    {wire : Wire}
    {maxSize : Nat}
    (small : maxSize < 2 ^ 24)
    {frame : Frame}
    (sendable : frame.Sendable maxSize)
    {rest : List UInt8}
    (delivers : Delivers wire.incoming (frame.encode ++ rest)) :
    ∃ after, read wire maxSize = (.ok (some frame), after) ∧
      Delivers after.incoming rest := by
  obtain ⟨length, kind, flags, stream⟩ := fields_of_header small sendable
  rw [encode_eq, List.append_assoc] at delivers
  have room : headerLen ≤ (frame.header ++ (frame.payload ++ rest)).length := by
    rw [List.length_append, length_header]
    exact Nat.le_add_right _ _
  obtain ⟨later, fills, left⟩ := Wire.fill_of_delivers delivers room []
  rw [← frame.length_header, List.take_left, List.nil_append,
    frame.length_header] at fills
  rw [← frame.length_header, List.drop_left] at left
  have reads : wire.read headerLen =
      (.whole frame.header, { wire with incoming := later }) := by
    rw [Wire.read, fills]
  have enough : frame.payload.length ≤ (frame.payload ++ rest).length := by
    rw [List.length_append]
    exact Nat.le_add_right _ _
  obtain ⟨after, payload, final⟩ := Wire.readExact_of_delivers
    (show Delivers { wire with incoming := later }.incoming _ from left) enough
  rw [List.take_left] at payload
  rw [List.drop_left] at final
  refine ⟨after, ?_, final⟩
  simp only [read, reads, length, if_neg (not_lt.mpr sendable.payload), payload,
    kind, flags, stream]

/-- Where the connection has ended, there is no frame. -/
theorem read_of_ended
    {wire : Wire}
    {maxSize : Nat}
    (ended : Delivers wire.incoming []) :
    read wire maxSize = (.ok none, { wire with incoming := [] }) := by
  have reads : wire.read headerLen =
      (.closed [], { wire with incoming := [] }) := by
    rw [Wire.read, Wire.fill_of_delivers_short ended (by decide), List.append_nil]
  simp only [read, reads, if_true]

/-- A connection that ends inside a frame gives an error. -/
theorem read_of_cut
    {wire : Wire}
    {maxSize : Nat}
    (small : maxSize < 2 ^ 24)
    {frame : Frame}
    (sendable : frame.Sendable maxSize)
    {cut : Nat}
    (inside : 0 < cut ∧ cut < frame.encode.length)
    (delivers : Delivers wire.incoming (frame.encode.take cut)) :
    ∃ failure, (read wire maxSize).1 = .error failure := by
  have come : (frame.encode.take cut).length = cut := by
    rw [List.length_take, Nat.min_eq_left inside.2.le]
  by_cases partly : cut < headerLen
  · have reads : wire.read headerLen =
        (.closed (frame.encode.take cut), { wire with incoming := [] }) := by
      rw [Wire.read, Wire.fill_of_delivers_short delivers (by omega),
        List.nil_append]
    have nonempty : frame.encode.take cut ≠ [] := by
      rw [← List.length_pos_iff, come]
      exact inside.1
    simp only [read, reads, if_neg nonempty]
    exact ⟨_, rfl⟩
  · obtain ⟨length, _⟩ := fields_of_header small sendable
    rw [not_lt] at partly
    have cutPayload : frame.encode.take cut =
        frame.header ++ frame.payload.take (cut - headerLen) := by
      rw [encode_eq, List.take_append, frame.length_header,
        List.take_of_length_le (by rw [frame.length_header]; exact partly)]
    rw [cutPayload] at delivers
    have room : headerLen ≤
        (frame.header ++ frame.payload.take (cut - headerLen)).length := by
      rw [List.length_append, length_header]
      exact Nat.le_add_right _ _
    obtain ⟨later, fills, left⟩ := Wire.fill_of_delivers delivers room []
    rw [← frame.length_header, List.take_left, List.nil_append,
      frame.length_header] at fills
    rw [← frame.length_header, List.drop_left, frame.length_header] at left
    have reads : wire.read headerLen =
        (.whole frame.header, { wire with incoming := later }) := by
      rw [Wire.read, fills]
    have short : (frame.payload.take (cut - headerLen)).length <
        frame.payload.length := by
      rw [length_encode] at inside
      rw [List.length_take]
      omega
    have fails := Wire.readExact_of_delivers_short
      (show Delivers { wire with incoming := later }.incoming _ from left) short
    cases rest : ({ wire with incoming := later } : Wire).readExact
        frame.payload.length with
    | mk outcome final =>
        rw [rest] at fails
        simp only at fails
        refine ⟨.net (.fromIo "reading a frame's payload" Wire.unexpectedEof),
          ?_⟩
        simp only [read, reads, length, if_neg (not_lt.mpr sendable.payload),
          rest, fails]

/-! ## Reading again and again -/

/-- What `count` reads one after another give. -/
def readTimes (maxSize : Nat) :
    Nat → Wire → List (Except ReadFailure (Option Frame))
  | 0, _ => []
  | count + 1, wire =>
      (read wire maxSize).1 :: readTimes maxSize count (read wire maxSize).2

theorem readTimes_of_ended
    {wire : Wire}
    {maxSize : Nat}
    (ended : Delivers wire.incoming [])
    (count : Nat) :
    readTimes maxSize count wire = List.replicate count (.ok none) := by
  induction count generalizing wire with
  | zero => rfl
  | succ count inductionHypothesis =>
      rw [readTimes, read_of_ended ended, List.replicate_succ]
      exact congrArg _ (inductionHypothesis Wire.delivers_nil)

/-- The frames at the front are read in order, and the reads go on from what
comes after them. -/
theorem readTimes_of_delivers
    {maxSize : Nat}
    (small : maxSize < 2 ^ 24)
    {frames : List Frame}
    (sendable : ∀ frame ∈ frames, frame.Sendable maxSize)
    {wire : Wire}
    {rest : List UInt8}
    (delivers : Delivers wire.incoming (frames.flatMap encode ++ rest)) :
    ∃ after, Delivers after.incoming rest ∧ ∀ count,
      readTimes maxSize (frames.length + count) wire =
        frames.map (fun frame => .ok (some frame)) ++
          readTimes maxSize count after := by
  induction frames generalizing wire with
  | nil =>
      refine ⟨wire, delivers, fun count => ?_⟩
      rw [List.length_nil, Nat.zero_add]
      rfl
  | cons frame frames inductionHypothesis =>
      obtain ⟨first, others⟩ := List.forall_mem_cons.mp sendable
      rw [List.flatMap_cons, List.append_assoc] at delivers
      obtain ⟨next, reads, left⟩ := read_of_delivers small first delivers
      obtain ⟨after, final, goes⟩ := inductionHypothesis others left
      refine ⟨after, final, fun count => ?_⟩
      rw [List.length_cons, Nat.add_right_comm, readTimes, reads, goes count]
      rfl

/-- A cut of the octets of some frames falls between two of them or inside
one. -/
theorem exists_of_cut
    {frames : List Frame}
    {cut : Nat}
    (within : cut < (frames.flatMap encode).length)
    (notBoundary : ∀ count ≤ frames.length,
      ((frames.take count).flatMap encode).length ≠ cut) :
    ∃ whole frame later inside, frames = whole ++ frame :: later ∧
      (0 < inside ∧ inside < frame.encode.length) ∧
        cut = (whole.flatMap encode).length + inside ∧
          (frames.flatMap encode).take cut =
            whole.flatMap encode ++ frame.encode.take inside := by
  obtain ⟨whole, frame, later, part, split, partly, came⟩ :=
    (Cuts.cut_take within).flatMap_cases
  have place := congrArg List.length came
  rw [List.length_take, Nat.min_eq_left within.le, List.length_append] at place
  have nonempty : part ≠ [] := by
    rintro rfl
    refine notBoundary whole.length ?_ ?_
    · rw [split, List.length_append]
      exact Nat.le_add_right _ _
    · rw [split, List.take_left, place]
      rfl
  refine ⟨whole, frame, later, part.length, split,
    ⟨List.length_pos_iff.mpr nonempty, partly.length_lt⟩, place, ?_⟩
  rw [came, ← List.prefix_iff_eq_take.mp partly.opens]

/-- However the connection cuts the octets of some frames, reading again and
again gives those frames in order and then none; and where it ends anywhere but
at the end of a frame, the whole frames before are read and then an error. -/
theorem readTimes_encode
    {maxSize : Nat}
    (small : maxSize < 2 ^ 24)
    {frames : List Frame}
    (sendable : ∀ frame ∈ frames, frame.Sendable maxSize)
    (wire : Wire) :
    (Delivers wire.incoming (frames.flatMap encode) → ∀ more,
      readTimes maxSize (frames.length + more) wire =
        frames.map (fun frame => .ok (some frame)) ++
          List.replicate more (.ok none)) ∧
    ∀ cut < (frames.flatMap encode).length,
      (∀ count ≤ frames.length,
        ((frames.take count).flatMap encode).length ≠ cut) →
      Delivers wire.incoming ((frames.flatMap encode).take cut) →
        ∃ whole frame later failure, frames = whole ++ frame :: later ∧
          (whole.flatMap encode).length < cut ∧
            cut < (whole.flatMap encode).length + frame.encode.length ∧
              readTimes maxSize (whole.length + 1) wire =
                whole.map (fun frame => .ok (some frame)) ++
                  [.error failure] := by
  constructor
  · intro delivers more
    rw [← List.append_nil (frames.flatMap encode)] at delivers
    obtain ⟨after, ended, reads⟩ :=
      readTimes_of_delivers small sendable delivers
    rw [reads, readTimes_of_ended ended]
  · intro cut within notBoundary delivers
    obtain ⟨whole, frame, later, inside, split, strictly, place, taken⟩ :=
      exists_of_cut within notBoundary
    rw [taken] at delivers
    rw [split] at sendable
    obtain ⟨before, others⟩ := List.forall_mem_append.mp sendable
    obtain ⟨after, left, reads⟩ := readTimes_of_delivers small before delivers
    obtain ⟨failure, fails⟩ :=
      read_of_cut small (others frame List.mem_cons_self) strictly left
    refine ⟨whole, frame, later, failure, split, by omega, by omega, ?_⟩
    rw [reads, readTimes, readTimes, fails]

/-- A window update and a frame of a type nobody knows, cut inside the first
header with an interruption there; and the same two, the connection ending
inside the second. -/
theorem readTimes_encode_two :
    let first := windowUpdate 1 7
    let second : Frame :=
      { kind := .unknown 0x2a, flags := 4, stream := 3, payload := [1, 2] }
    let octets := first.encode ++ second.encode
    let interrupted : IoError := { kind := .interrupted, text := "" }
    let whole : Wire :=
      { incoming := [.octets (octets.take 5), .failed interrupted,
          .octets (octets.drop 5)]
        accepts := []
        written := [] }
    let short : Wire :=
      { incoming := [.octets (octets.take 15), .octets ((octets.take 20).drop 15)]
        accepts := []
        written := [] }
    readTimes 16384 3 whole =
        [.ok (some first), .ok (some second), .ok none] ∧
      ∃ failure, readTimes 16384 2 short =
        [.ok (some first), .error failure] := by
  intro first second octets interrupted whole short
  have sendable : ∀ frame ∈ [first, second], frame.Sendable 16384 := by
    intro frame member
    rcases List.mem_pair.mp member with rfl | rfl
    · exact ⟨by decide, by decide, 8, by decide⟩
    · exact ⟨by decide, by decide, 0x2a, by decide⟩
  refine ⟨(readTimes_encode (by decide) sendable whole).1 (by decide) 1, ?_⟩
  obtain ⟨before, frame, later, failure, split, more, less, reads⟩ :=
    (readTimes_encode (by decide) sendable short).2 20 (by decide) (by decide)
      (by decide)
  cases before with
  | nil =>
      cases split
      exact absurd less (by decide)
  | cons one before =>
      cases before with
      | nil =>
          cases split
          exact ⟨failure, reads⟩
      | cons two before =>
          have lengths := congrArg List.length split
          simp at lengths

end Frame
end Http2
end XmipNet

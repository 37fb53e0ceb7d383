import XmipNet.Delivery
import XmipNet.Foundation.BigEndian
import XmipNet.Foundation.Framing
import XmipNet.Read

/-!
# The frame of the node-to-node protocols

A frame is its length, four octets, and that many octets more, never more than
`maxBody`. A peer that closed between frames is told from one that broke off
inside one by how its header ended.
-/

namespace XmipNet

open Cuts (Cut)
open Delivering (Delivers)
open Fallible (Reads Refuses fail lift mapError modify times)

instance : Delivering Wire UInt8 where
  Delivers wire bytes := Wire.Delivers wire.incoming bytes
  unique delivers again := Option.some.inj (delivers.symm.trans again)
  every bytes := by
    by_cases empty : bytes = []
    · exact ⟨⟨[], [], []⟩, empty ▸ Wire.delivers_nil⟩
    · exact ⟨⟨[.octets bytes], [], []⟩, Wire.delivers_octets_iff.mpr
        ⟨empty, [], Wire.delivers_nil, List.append_nil bytes⟩⟩

namespace Read

/-- The failure of a connection that ended inside a header. -/
def endedInside : IoError where
  kind := .unexpectedEof
  text := "unexpected end of file"

/-- A header of `size` octets whole, or none where the connection ended before
its first. -/
def header
    (size : Nat)
    (what : String) : Fallible Wire NetError (Option (List UInt8)) :=
  fun wire =>
    match wire.read size with
    | (.whole bytes, after) => (.ok (some bytes), after)
    | (.closed bytes, after) =>
        if bytes = [] then
          (.ok none, after)
        else
          (.error (.fromIo s!"reading {what}" endedInside), after)
    | (.failed error, after) =>
        (.error (.fromIo s!"reading {what}" error), after)

variable {size : Nat} {what : String} {bytes : List UInt8}

theorem header_reads
    (what : String)
    (enough : size ≤ bytes.length) :
    Reads (header size what) bytes (some (bytes.take size))
      (bytes.drop size) := by
  intro wire delivers
  obtain ⟨rest, fills, left⟩ := Wire.fill_of_delivers delivers enough []
  refine ⟨{ wire with incoming := rest }, ?_, left⟩
  rw [header, Wire.read, fills, List.nil_append]

theorem header_ended (positive : 0 < size) :
    Reads (header size what) [] none [] := by
  intro wire delivers
  refine ⟨{ wire with incoming := [] }, ?_, Wire.delivers_nil⟩
  rw [header, Wire.read, Wire.fill_of_delivers_short delivers positive]
  rfl

theorem header_refuses
    (nonempty : bytes ≠ [])
    (short : bytes.length < size) :
    Refuses (header size what) bytes := by
  intro wire delivers
  refine ⟨.fromIo s!"reading {what}" endedInside,
    { wire with incoming := [] }, ?_⟩
  rw [header, Wire.read, Wire.fill_of_delivers_short delivers short,
    List.nil_append]
  simp only [if_neg nonempty]

end Read

namespace NodeFrame

/-- What a refusal says carries a frame. -/
def carrier : String := "Xmip carries in one frame"

/-- Append `bytes`, as one frame, to what is to be written. -/
def append (bytes : List UInt8) : Fallible (List UInt8) NetError Unit := do
  lift (within bytes.length maxBody carrier)
  modify (· ++ BigEndian.write 4 (min bytes.length (2 ^ 32 - 1)) ++ bytes)

/-- Write `bytes` as one frame and flush it. -/
def write (bytes : List UInt8) : Fallible Wire NetError Unit :=
  fun wire =>
    match append bytes [] with
    | (.error failure, _) => (.error failure, wire)
    | (.ok (), frame) =>
        mapError (.fromIo "writing a frame")
          (do (Wire.writeAll · frame); Wire.flush) wire

/-- Read one frame, or none where the connection ended before one began. -/
def read : Fallible Wire NetError (Option (List UInt8)) := do
  match ← Read.header 4 "a frame's length" with
  | none => pure none
  | some header =>
      let length := BigEndian.read header
      lift (within length maxBody carrier)
      let bytes ← mapError (.fromIo "reading a frame")
        (Wire.readExact · length)
      pure (some bytes)

/-! ## What is written -/

/-- The frame that carries `bytes`. -/
def encode (bytes : List UInt8) : List UInt8 :=
  BigEndian.write 4 bytes.length ++ bytes

/-- Octets that a frame may carry. -/
def Carried (bytes : List UInt8) : Prop :=
  bytes.length ≤ maxBody

variable {bytes : List UInt8} {strings : List (List UInt8)}

theorem append_eq
    (carried : Carried bytes)
    (out : List UInt8) :
    append bytes out = (.ok (), out ++ encode bytes) := by
  have small : min bytes.length (2 ^ 32 - 1) = bytes.length :=
    Nat.min_eq_left (carried.trans (by decide))
  rw [append, Read.within_eq_ok carried, small, encode, ← List.append_assoc]
  rfl

/-- Octets over the ceiling are refused, and nothing is appended. -/
theorem append_refused
    (exceeds : ¬Carried bytes)
    (out : List UInt8) :
    ∃ failure, append bytes out = (.error failure, out) := by
  obtain ⟨failure, refused⟩ := Read.within_eq_error (not_le.mp exceeds) carrier
  refine ⟨failure, ?_⟩
  rw [append, refused]
  rfl

theorem write_refused
    (exceeds : ¬Carried bytes)
    (wire : Wire) :
    ∃ failure, write bytes wire = (.error failure, wire) := by
  obtain ⟨failure, refused⟩ := append_refused exceeds []
  exact ⟨failure, by rw [write, refused]⟩

theorem forM_append
    (carried : ∀ string ∈ strings, Carried string)
    (out : List UInt8) :
    (forM strings append : Fallible _ _ _) out =
      (.ok (), out ++ strings.flatMap encode) := by
  induction strings generalizing out with
  | nil =>
      rw [List.flatMap_nil, List.append_nil]
      rfl
  | cons string strings inductionHypothesis =>
      obtain ⟨first, others⟩ := List.forall_mem_cons.mp carried
      rw [List.forM_cons, Fallible.bind_of_ok (append_eq first out),
        inductionHypothesis others, List.flatMap_cons, List.append_assoc]

theorem ensures_writeAll
    (octets : List UInt8)
    (wire : Wire) :
    Fallible.Ensures (Wire.writeAll · octets) wire
      (fun _ after => after.written = wire.written ++ octets)
      (fun _ _ => True) := by
  simp only [Fallible.Ensures, Wire.writeAll]
  cases wire.accepts with
  | nil => rfl
  | cons acceptance rest =>
      cases acceptance with
      | taken => rfl
      | failed after error => trivial

/-- What was written and went through follows what was written before. -/
theorem ensures_write
    (carried : Carried bytes)
    (wire : Wire) :
    Fallible.Ensures (write bytes) wire
      (fun _ after => after.written = wire.written ++ encode bytes)
      (fun _ _ => True) := by
  have runs : write bytes wire = mapError (.fromIo "writing a frame")
      (do (Wire.writeAll · (encode bytes)); Wire.flush) wire := by
    rw [write, append_eq carried, List.nil_append]
  rw [Fallible.Ensures, runs]
  refine Fallible.ensures_mapError.mpr (Fallible.ensures_bind.mpr ?_)
  refine (ensures_writeAll (encode bytes) wire).mono (fun _ sent writes => ?_)
    fun _ _ _ => trivial
  refine (ensures_writeAll [] sent).mono (fun _ after flushes => ?_)
    fun _ _ _ => trivial
  rw [flushes, List.append_nil, writes]

theorem ensures_forM_write
    (carried : ∀ string ∈ strings, Carried string)
    (wire : Wire) :
    Fallible.Ensures (forM strings write) wire
      (fun _ after => after.written = wire.written ++ strings.flatMap encode)
      (fun _ _ => True) := by
  induction strings generalizing wire with
  | nil => exact (List.append_nil _).symm
  | cons string strings inductionHypothesis =>
      obtain ⟨first, others⟩ := List.forall_mem_cons.mp carried
      rw [List.forM_cons]
      refine Fallible.ensures_bind.mpr ?_
      refine (ensures_write first wire).mono (fun _ between writes => ?_)
        fun _ _ _ => trivial
      refine (inductionHypothesis others between).mono (fun _ after later => ?_)
        fun _ _ _ => trivial
      rw [later, writes, List.flatMap_cons, List.append_assoc]

/-! ## What is read -/

/-- A buffer's worth is read and the rest left. -/
theorem readExact_reads
    (convert : IoError → NetError)
    {size : Nat}
    (enough : size ≤ bytes.length) :
    Reads (mapError convert (Wire.readExact · size)) bytes
      (bytes.take size) (bytes.drop size) := by
  refine Reads.mapError (fun wire delivers => ?_) _
  exact Wire.readExact_of_delivers delivers enough

theorem readExact_refuses
    {convert : IoError → NetError}
    {size : Nat}
    (short : bytes.length < size) :
    Refuses (mapError convert (Wire.readExact · size)) bytes := by
  refine Refuses.mapError (fun wire delivers => ?_) _
  have fails := Wire.readExact_of_delivers_short delivers short
  exact ⟨_, _, Prod.ext fails rfl⟩

/-- Four octets are the header of what follows them. -/
theorem header_of_append
    {header : List UInt8}
    (four : header.length = 4)
    (rest : List UInt8) :
    Reads (Read.header 4 "a frame's length") (header ++ rest) (some header)
      rest := by
  have enough : 4 ≤ (header ++ rest).length := by
    rw [List.length_append, four]
    exact Nat.le_add_right _ _
  have reads := Read.header_reads "a frame's length" enough
  rwa [List.take_left' four, List.drop_left' four] at reads

/-- A length over the ceiling is refused before any of the body is read. -/
theorem read_over
    {header rest : List UInt8}
    (four : header.length = 4)
    (exceeds : maxBody < BigEndian.read header)
    {wire : Wire}
    (delivers : Delivers wire (header ++ rest)) :
    ∃ failure after, read wire = (.error failure, after) ∧
      Delivers after rest := by
  obtain ⟨after, runs, left⟩ := header_of_append four rest wire delivers
  obtain ⟨failure, refused⟩ := Read.within_eq_error exceeds carrier
  refine ⟨failure, after, ?_, left⟩
  rw [read, Fallible.bind_of_ok runs]
  simp only [refused]
  rfl

section Body

variable {header rest : List UInt8}

/-- After a header within the ceiling, the body it announces is read. -/
theorem read_whole
    (four : header.length = 4)
    (carried : Carried bytes)
    (announced : BigEndian.read header = bytes.length) :
    Reads read (header ++ (bytes ++ rest)) (some bytes) rest := by
  refine (header_of_append four (bytes ++ rest)).bind ?_
  simp only [announced, Read.within_eq_ok carried]
  refine (Fallible.reads_lift () _).bind ?_
  have enough : bytes.length ≤ (bytes ++ rest).length := by
    rw [List.length_append]
    exact Nat.le_add_right _ _
  have reads := readExact_reads (.fromIo "reading a frame") enough
  rw [List.take_left, List.drop_left] at reads
  exact reads.bind (Fallible.reads_pure _ _)

/-- Where the connection ends before the body does, that is an error. -/
theorem read_short
    (four : header.length = 4)
    (short : rest.length < BigEndian.read header) :
    Refuses read (header ++ rest) := by
  refine (header_of_append four rest).bind_refuses ?_
  by_cases carried : BigEndian.read header ≤ maxBody
  · simp only [Read.within_eq_ok carried]
    refine (Fallible.reads_lift () _).bind_refuses ?_
    exact (readExact_refuses short).bind _
  · obtain ⟨failure, refused⟩ :=
      Read.within_eq_error (not_le.mp carried) carrier
    simp only [refused]
    exact (Fallible.refuses_lift failure _).bind _

end Body

/-- The length of a frame is read as it was written. -/
theorem read_length
    (carried : Carried bytes) :
    BigEndian.read (BigEndian.write 4 bytes.length) = bytes.length :=
  BigEndian.read_write_of_lt (lt_of_le_of_lt carried (by decide))

/-- Frames written one after another are read one after another. -/
theorem framing : Framing encode Carried read where
  whole carried rest := by
    rw [encode, List.append_assoc]
    exact read_whole (BigEndian.length_write _ _) carried (read_length carried)
  ended :=
    (Read.header_ended (by decide)).bind (Fallible.reads_pure none [])
  short := by
    intro bytes carried came cut nonempty
    have four := BigEndian.length_write 4 bytes.length
    rcases cut.append_cases with inside | ⟨later, rfl, body⟩
    · refine (Read.header_refuses nonempty ?_).bind _
      exact inside.length_lt.trans_eq four
    · refine read_short four ?_
      rw [read_length carried]
      exact body.length_lt

/-- Frames cross as they were. What is appended or written one string after
another is read string after string, then none; cut anywhere but between two
frames, the whole frames before the cut are read and then there is an error;
and what no frame may carry is refused on both sides, nothing being appended or
written of it and none of its body read. -/
theorem read_append
    (carried : ∀ string ∈ strings, string.length ≤ maxBody) :
    let octets := strings.flatMap encode
    (∀ out, (forM strings append : Fallible _ _ _) out =
      (.ok (), out ++ octets)) ∧
    (∀ wire after, (forM strings write : Fallible _ _ _) wire =
      (.ok (), after) → after.written = wire.written ++ octets) ∧
    (∀ more, Reads (times read (strings.length + more)) octets
      (strings.map some ++ List.replicate more none) []) ∧
    (∀ cut < octets.length,
      (∀ count ≤ strings.length,
        ((strings.take count).flatMap encode).length ≠ cut) →
      ∃ whole string later part, strings = whole ++ string :: later ∧
        (whole.flatMap encode).length < cut ∧
        cut < (whole.flatMap encode).length + (encode string).length ∧
        Reads (times read whole.length) (octets.take cut) (whole.map some)
          part ∧
        Refuses read part) ∧
    (∀ bytes : List UInt8, maxBody < bytes.length →
      (∀ out, ∃ failure, append bytes out = (.error failure, out)) ∧
      ∀ wire, ∃ failure, write bytes wire = (.error failure, wire)) ∧
    ∀ header rest : List UInt8, header.length = 4 →
      maxBody < BigEndian.read header →
      ∀ wire : Wire, Delivers wire (header ++ rest) →
        ∃ failure after, read wire = (.error failure, after) ∧
          Delivers after rest := by
  intro octets
  refine ⟨forM_append carried, fun wire after writes => ?_,
    framing.times_encode carried, fun cut within notBoundary => ?_,
    fun bytes exceeds => ⟨append_refused (not_le.mpr exceeds),
      write_refused (not_le.mpr exceeds)⟩,
    fun header rest four exceeds wire => read_over four exceeds⟩
  · have sent := ensures_forM_write carried wire
    have written := Fallible.ensures_of_ok sent writes
    exact written
  · have length : (octets.take cut).length = cut := by
      rw [List.length_take, Nat.min_eq_left within.le]
    obtain ⟨whole, string, later, part, split, partly, nonempty, came, reads,
      refuses⟩ := framing.times_cut carried (Cuts.cut_take within) (by
        rintro before ⟨after, rfl⟩ same
        refine notBoundary before.length ?_ ?_
        · rw [List.length_append]
          exact Nat.le_add_right _ _
        · rw [List.take_left, ← same, length])
    refine ⟨whole, string, later, part, split, ?_, ?_, reads, refuses⟩
    all_goals
      have lengths := congrArg List.length came
      rw [length, List.length_append] at lengths
      have inside := partly.length_lt
      have positive := List.length_pos_iff.mpr nonempty
      omega

/-- Two frames, the second of nothing, with an interruption inside the first
length; and the two cut inside the first body. -/
theorem read_append_two :
    let strings : List (List UInt8) := [[111, 110, 101], []]
    let octets := strings.flatMap encode
    let interrupted : IoError := { kind := .interrupted, text := "" }
    let whole : Wire :=
      { incoming := [.octets (octets.take 2), .failed interrupted,
          .octets (octets.drop 2)]
        accepts := []
        written := [] }
    let short : Wire :=
      { incoming := [.octets (octets.take 6)]
        accepts := []
        written := [] }
    (forM strings append : Fallible _ _ _) [] = (.ok (), octets) ∧
      ((forM strings write : Fallible _ _ _) whole).2.written = octets ∧
      (times read 3 whole).1 = .ok [some [111, 110, 101], some [], none] ∧
      ∃ failure, (read short).1 = .error failure := by
  intro strings octets interrupted whole short
  have carried : ∀ string ∈ strings, string.length ≤ maxBody := by
    intro string member
    rcases List.mem_pair.mp member with rfl | rfl <;> decide
  obtain ⟨appends, writes, reads, cut, _, _⟩ := read_append carried
  refine ⟨appends [], ?_, ?_, ?_⟩
  · exact writes whole _ (by decide)
  · have delivers : Wire.Delivers whole.incoming octets := by decide
    obtain ⟨after, runs, _⟩ := reads 1 whole delivers
    exact congrArg Prod.fst runs
  · obtain ⟨before, string, later, part, split, less, more, first, refuses⟩ :=
      cut 6 (by decide) (by decide)
    have delivers : Wire.Delivers short.incoming (octets.take 6) := by decide
    obtain ⟨after, runs, left⟩ := first short delivers
    cases before with
    | nil =>
        cases runs
        obtain ⟨failure, final, fails⟩ := refuses short left
        exact ⟨failure, congrArg Prod.fst fails⟩
    | cons one before =>
        obtain rfl : [111, 110, 101] = one := (List.cons.inj split).1
        rw [List.flatMap_cons, List.length_append] at less
        exact absurd less (not_lt.mpr (Nat.le_trans (by decide : 6 ≤ 7)
          (Nat.le_add_right _ _)))

end NodeFrame
end XmipNet

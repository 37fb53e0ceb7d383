import XmipNet.Http.Ends
import XmipNet.Http.RoundTrip

/-!
# Messages cut short

A message cut short is refused where what came of it cannot be read or asks for
more, and is taken for a whole one everywhere else: a connection that ends ends
the head or the trailer it ends in.
-/

namespace XmipNet
namespace Http

open Cuts (Cut)
open Fallible (Reads Refuses Decided)
open Head (fieldLine lineOctets Whole header readHead)
open Read (line trimEol)

/-! ## What a cut message is taken for -/

/-- The line that says the last chunk has come, cut in its ending or not. -/
theorem unchunkFrom_reads_of_last
    {later : List UInt8}
    (nonempty : later ≠ [])
    (cut : Cut later (lineOctets "0"))
    (body : List UInt8) :
    Reads (Body.unchunkFrom body : Reading NetError _) later (body, []) [] := by
  have whole : Whole "0" := ⟨by decide, by decide, by decide⟩
  obtain ⟨opens, noFeed, fits⟩ := part_of_cut whole cut
  have spells : spelled later = some "0" := by
    obtain ⟨rest, split⟩ := opens
    have zero : Text.octets "0" ++ [13] = [48, 13] := rfl
    rw [zero] at split
    rcases later with _ | ⟨first, _ | ⟨second, others⟩⟩
    · exact absurd rfl nonempty
    · rw [List.cons_append] at split
      obtain ⟨rfl, _⟩ := List.cons.inj split
      decide
    · rw [List.cons_append, List.cons_append] at split
      obtain ⟨rfl, more⟩ := List.cons.inj split
      obtain ⟨rfl, last⟩ := List.cons.inj more
      rw [(List.append_eq_nil_iff.mp last).1]
      decide
  have states : Body.chunkSize "0" = some 0 := by decide
  have ended : Reads readHead [] [] [] := by
    have head : readHead = line >>= Head.afterLine Head.maxHeaders [] :=
      Head.readHeadFrom_eq Head.maxHeaders []
    rw [head]
    exact Read.line_reads_none.bind (Fallible.reads_pure [] [])
  have last : Reads (Body.chunk body.length) later none [] := by
    refine (line_reads_of_end nonempty noFeed fits spells).bind ?_
    rw [Body.chunkAfter_of_size states, if_pos rfl]
    exact Fallible.reads_pure none []
  rw [Body.unchunkFrom_eq]
  refine last.bind ?_
  exact ended.bind (Fallible.reads_pure _ [])

namespace Message

/-- The chunked body that came of a message asks for more: its last chunk has
not come, or its trailer ends inside a character. -/
def ChunksLost (message : Message) (came : List UInt8) : Prop :=
  came <+: Body.oneChunk message.body ∨
    ∃ trailer, came = Body.oneChunk message.body ++ (lineOctets "0" ++ trailer) ∧
      Breaks (message.trailers.map fieldLine) trailer

theorem unchunk_refuses_iff
    {message : Message}
    (framed : message.Framed)
    {came : List UInt8}
    (cut : Cut came (Body.oneChunk message.body ++ (lineOctets "0" ++
      ((message.trailers.map fieldLine).flatMap lineOctets ++ [13, 10])))) :
    Refuses Body.unchunk came ↔ message.ChunksLost came := by
  have whole : ∀ text ∈ message.trailers.map fieldLine, Whole text := by
    intro text member
    obtain ⟨field, present, rfl⟩ := List.mem_map.mp member
    exact (framed.trailers field present).whole
  have few : (message.trailers.map fieldLine).length ≤ Head.maxHeaders := by
    rw [List.length_map]
    exact framed.fewTrailers
  constructor
  · intro refuses
    rcases cut.append_cases with inside | ⟨later, rfl, past⟩
    · exact Or.inl inside.opens
    · rcases past.append_cases with inLast | ⟨trailer, rfl, inTrailer⟩
      · by_cases nothing : later = []
        · rw [nothing, List.append_nil]
          exact Or.inl (List.prefix_refl _)
        · have reads := (Body.unchunk_oneChunk framed.small later).1
            (unchunkFrom_reads_of_last nothing inLast message.body)
          exact absurd refuses reads.not_refuses
      · rcases breaks_or_reads whole few inTrailer with breaks | ⟨read, reads⟩
        · exact Or.inr ⟨trailer, rfl, breaks⟩
        · have goes := (Body.unchunk_oneChunk framed.small _).1
            ((Body.unchunkFrom_last Body.sized_zero message.body _).1 reads)
          exact absurd refuses goes.not_refuses
  · rintro (inside | ⟨trailer, rfl, breaks⟩)
    · exact unchunk_refuses_of_chunk framed.small inside
    · exact (Body.unchunk_oneChunk framed.small _).2
        ((Body.unchunkFrom_last Body.sized_zero message.body _).2
          (refuses_of_breaks whole few breaks))

/-- What came of a message after the lines of its head asks for more. -/
def BodyLost (message : Message) (came : List UInt8) : Prop :=
  message.bodiless = false ∧
    if message.trailers = [] then
      message.body ≠ []
    else
      Cut came [13, 10] ∨
        ∃ later, came = [13, 10] ++ later ∧ message.ChunksLost later

/-- The head of a message asks for its body, where it has one or goes in
chunks. -/
theorem asks_lines_iff
    {message : Message}
    (framed : message.Framed)
    (legible : message.Legible)
    (carries : message.bodiless = false) :
    Asks message.lines ↔ (message.trailers = [] → message.body ≠ []) := by
  have looks := legible.header framed.small
  rw [Asks]
  by_cases plain : message.trailers = []
  · obtain ⟨uncoded, value, states, measured⟩ :=
      framed.measures legible carries plain
    constructor
    · rintro (coded | ⟨other, given, asked⟩) _ empty
      · exact coded uncoded
      · rw [states] at given
        obtain rfl := Option.some.inj given
        rw [measured, empty] at asked
        exact asked rfl
    · intro present
      refine Or.inr ⟨value, states, ?_⟩
      rw [measured]
      intro zero
      exact present plain
        (List.eq_nil_of_length_eq_zero (Option.some.inj zero))
  · obtain ⟨value, coded, _⟩ := framed.codes legible carries plain
    refine ⟨fun _ same => absurd same plain, fun _ => Or.inl ?_⟩
    rw [coded]
    exact fun none => by cases none

/-- A body whose length is stated is refused where less of it came. -/
theorem read_refuses_short
    {head : List String}
    (uncoded : header head "transfer-encoding" = none)
    {value : String}
    (states : header head "content-length" = some value)
    {length : Nat}
    (measured : Body.contentLength value = some length)
    {came : List UInt8}
    (short : came.length < length)
    (toEnd : Bool) :
    Refuses (Body.read head toEnd) came := by
  rw [Body.read, uncoded, states]
  simp only [measured]
  cases Body.within length with
  | error failure => exact (Fallible.refuses_lift failure came).bind _
  | ok within =>
      refine (Fallible.reads_lift within came).bind_refuses ?_
      exact ((Reader.readExact_refuses short).mapError _).bind _

theorem not_cut_append
    (first later : List UInt8) :
    ¬Cut (first ++ later) first := by
  intro cut
  have short := cut.length_lt
  rw [List.length_append] at short
  omega

/-- What a reader goes on with after the head of a message: it reads the body
where the message may have one. -/
structure GoesOn
    {α : Type}
    (message : Message)
    (next : List String → Reading NetError α) : Prop where
  decided : ∀ lines, Decided (next lines)
  body : ∃ toEnd, ∀ more bytes, Refuses (next (message.first :: more)) bytes ↔
    message.bodiless = false ∧
      Refuses (Body.read (message.first :: more) toEnd) bytes

section Cutting

variable {α : Type} {message : Message} {next : List String → Reading NetError α}

/-- A message cut after its head is refused where its body asks for more. -/
theorem refuses_iff_bodyLost
    (legible : message.Legible)
    (small : message.body.length ≤ maxBody)
    (framed : message.bodiless = false → message.Framed)
    (goesOn : message.GoesOn next)
    {came : List UInt8}
    (cut : Cut came ([13, 10] ++ message.content)) :
    Refuses (readHead >>= next) (message.lines.flatMap lineOctets ++ came) ↔
      message.BodyLost came := by
  have whole := legible.whole small
  have few := legible.few
  obtain ⟨toEnd, goes⟩ := goesOn.body
  have body : ∀ bytes, Refuses (next message.lines) bytes ↔
      message.bodiless = false ∧ Refuses (Body.read message.lines toEnd) bytes :=
    goes _
  rw [BodyLost]
  rcases cut.append_cases with inBlank | ⟨later, rfl, inside⟩
  · obtain ⟨noFeed, fits, spells⟩ := blank_of_cut inBlank
    have head := (readHead_of_end whole noFeed fits few
      (fun text spelledAs nonempty => by
        rw [spells] at spelledAs
        exact absurd (Option.some.inj spelledAs).symm nonempty)).1 "" spells
    rw [seen, if_pos rfl] at head
    rw [head.refuses_bind_iff (goesOn.decided _), body]
    refine and_congr_right fun carries => ?_
    rw [read_refuses_nil_iff, asks_lines_iff (framed carries) legible carries]
    by_cases plain : message.trailers = []
    · rw [if_pos plain]
      exact ⟨fun asks => asks plain, fun present _ => present⟩
    · rw [if_neg plain]
      exact ⟨fun _ => Or.inl inBlank, fun _ same => absurd same plain⟩
  · have head := Head.readHead_reads whole few later
    rw [head.refuses_bind_iff (goesOn.decided _), body]
    refine and_congr_right fun carries => ?_
    have holds := framed carries
    by_cases plain : message.trailers = []
    · obtain ⟨uncoded, value, states, measured⟩ :=
        holds.measures legible carries plain
      rw [content_of_plain carries plain] at inside
      rw [if_pos plain]
      refine ⟨fun _ empty => ?_, fun _ => ?_⟩
      · rw [empty] at inside
        exact Cuts.not_cut_nil later inside
      · exact read_refuses_short uncoded states measured inside.length_lt toEnd
    · obtain ⟨value, coded, chunked⟩ := holds.codes legible carries plain
      rw [content_of_trailers carries plain] at inside
      rw [if_neg plain, read_of_chunked coded chunked,
        unchunk_refuses_iff holds inside]
      constructor
      · exact fun lost => Or.inr ⟨later, rfl, lost⟩
      · rintro (inBlank | ⟨other, same, lost⟩)
        · exact absurd inBlank (not_cut_append _ _)
        · rwa [List.append_cancel_left same]

/-- What came of a head asks for more, or cannot be read: the connection ends
inside a character, inside the first `opening` octets, or with a field that asks
for a body. -/
def HeadLost
    (message : Message)
    (opening : Nat)
    (before : List String)
    (part : List UInt8) : Prop :=
  spelled part = none ∨ (before = [] ∧ part.length < opening) ∨
    (message.bodiless = false ∧
      ∃ text, spelled part = some text ∧ Asks (seen before text))

theorem not_asks_of_first (text : String) : ¬Asks (seen [] text) := by
  have nothing : ∀ name, header (seen [] text) name = none := by
    intro name
    rw [seen]
    split
    · rfl
    · rfl
  rintro (coded | ⟨value, states, _⟩)
  · exact coded (nothing _)
  · rw [nothing] at states
    cases states

/-- A message cut in its head is refused where what came cannot be read or asks
for a body. -/
theorem refuses_iff_headLost
    (legible : message.Legible)
    (small : message.body.length ≤ maxBody)
    (goesOn : message.GoesOn next)
    {opening : Nat}
    (opens : ∀ {part text}, part ≠ [] → Cut part (lineOctets message.first) →
      spelled part = some text →
        (Refuses (next (seen [] text)) [] ↔ part.length < opening))
    {before after : List String}
    {text : String}
    {part : List UInt8}
    (split : message.lines = before ++ text :: after)
    (cut : Cut part (lineOctets text))
    (nonempty : before.flatMap lineOctets ++ part ≠ []) :
    Refuses (readHead >>= next) (before.flatMap lineOctets ++ part) ↔
      message.HeadLost opening before part := by
  have whole := legible.whole small
  have few := legible.few
  rw [split, List.length_append, List.length_cons] at few
  rw [split] at whole
  obtain ⟨earlier, later⟩ := List.forall_mem_append.mp whole
  obtain ⟨_, noFeed, fits⟩ := part_of_cut (later text List.mem_cons_self) cut
  have head := readHead_of_end earlier noFeed fits (by omega)
    fun _ _ _ => by omega
  rw [HeadLost]
  cases spells : spelled part with
  | none => exact ⟨fun _ => Or.inl rfl, fun _ => (head.2 spells).bind _⟩
  | some ended =>
      rw [(head.1 ended spells).refuses_bind_iff (goesOn.decided _)]
      cases before with
      | nil =>
          rw [List.flatMap_nil, List.nil_append] at nonempty
          rw [List.nil_append, lines] at split
          obtain ⟨rfl, _⟩ := List.cons.inj split
          rw [opens nonempty cut spells]
          constructor
          · exact fun short => Or.inr (Or.inl ⟨rfl, short⟩)
          · rintro (none | ⟨_, short⟩ | ⟨_, other, _, asks⟩)
            · cases none
            · exact short
            · exact absurd asks (not_asks_of_first other)
      | cons first more =>
          obtain ⟨toEnd, goes⟩ := goesOn.body
          rw [List.cons_append, lines] at split
          obtain ⟨rfl, _⟩ := List.cons.inj split
          have lines : ∃ others, seen (message.first :: more) ended =
              message.first :: others := by
            rw [seen]
            split
            · exact ⟨more, rfl⟩
            · exact ⟨more ++ [ended], rfl⟩
          obtain ⟨others, same⟩ := lines
          rw [same, goes, read_refuses_nil_iff]
          constructor
          · rintro ⟨carries, asks⟩
            exact Or.inr (Or.inr ⟨carries, ended, rfl, same ▸ asks⟩)
          · rintro (none | ⟨empty, _⟩ | ⟨carries, other, given, asks⟩)
            · cases none
            · cases empty
            · obtain rfl := Option.some.inj given
              exact ⟨carries, same ▸ asks⟩

/-- What came of a message before the connection ended cannot be read or asks
for more. -/
def Lost (message : Message) (opening : Nat) (came : List UInt8) : Prop :=
  (∃ before text after part, message.lines = before ++ text :: after ∧
    Cut part (lineOctets text) ∧ came = before.flatMap lineOctets ++ part ∧
      message.HeadLost opening before part) ∨
  ∃ part, Cut part ([13, 10] ++ message.content) ∧
    came = message.lines.flatMap lineOctets ++ part ∧ message.BodyLost part

/-- A message cut anywhere is refused where what came of it is lost. -/
theorem refuses_iff_lost
    (legible : message.Legible)
    (small : message.body.length ≤ maxBody)
    (framed : message.bodiless = false → message.Framed)
    (goesOn : message.GoesOn next)
    {opening : Nat}
    (opens : ∀ {part text}, part ≠ [] → Cut part (lineOctets message.first) →
      spelled part = some text →
        (Refuses (next (seen [] text)) [] ↔ part.length < opening))
    {came : List UInt8}
    (nonempty : came ≠ [])
    (cut : Cut came message.octets) :
    Refuses (readHead >>= next) came ↔ message.Lost opening came := by
  constructor
  · intro refuses
    rcases cut.append_cases with inHead | ⟨part, rfl, past⟩
    · obtain ⟨before, text, after, part, split, inLine, rfl⟩ :=
        inHead.flatMap_cases
      exact Or.inl ⟨before, text, after, part, split, inLine, rfl,
        (refuses_iff_headLost legible small goesOn opens split inLine
          nonempty).mp refuses⟩
    · exact Or.inr ⟨part, past, rfl, (refuses_iff_bodyLost legible small framed
        goesOn past).mp refuses⟩
  · rintro (⟨before, text, after, part, split, inLine, rfl, lost⟩ |
      ⟨part, past, rfl, lost⟩)
    · exact (refuses_iff_headLost legible small goesOn opens split inLine
        nonempty).mpr lost
    · exact (refuses_iff_bodyLost legible small framed goesOn past).mpr lost

end Cutting

end Message

/-! ## The first line a connection ends in -/

/-- What the connection ended in opens with `start` exactly where enough octets
came. -/
theorem start_isPrefix_iff
    {start rest : String}
    (noReturn : '\r' ∉ start.toList)
    {part : List UInt8}
    (opens : part <+: Text.octets (start ++ rest) ++ [13])
    (noFeed : 10 ∉ part)
    {text : String}
    (spells : spelled part = some text) :
    start.toList <+: text.toList ↔ (Text.octets start).length ≤ part.length := by
  have same : Text.octets text = trimEol part := Text.octets_of_fromUtf8 spells
  constructor
  · rintro ⟨more, split⟩
    have octets : Text.octets text =
        Text.octets start ++ Text.octets (String.ofList more) := by
      rw [← Text.octets_append, ← String.ofList_toList (s := start),
        ← String.ofList_append, split, String.ofList_toList]
    have shorter : (trimEol part).length ≤ part.length := by
      rw [Read.trimEol_of_not_mem noFeed]
      split
      · rw [List.length_dropLast]
        omega
      · exact Nat.le_refl _
    rw [← same, octets, List.length_append] at shorter
    omega
  · intro enough
    rw [Text.octets_append, List.append_assoc] at opens
    obtain ⟨more, rfl⟩ := List.prefix_of_prefix_length_le
      (List.prefix_append _ _) opens enough
    have within : Text.octets start <+: Text.octets text := by
      rw [same, Read.trimEol_of_not_mem noFeed]
      split
      next ends =>
        have present : more ≠ [] := by
          rintro rfl
          rw [List.append_nil] at ends
          exact noReturn ((Text.return_mem_octets_iff start).mp
            (List.mem_of_getLast? ends))
        rw [List.dropLast_append_of_ne_nil present]
        exact List.prefix_append _ _
      · exact List.prefix_append _ _
    rw [Text.octets_eq, Text.octets_eq] at within
    exact Utf8.isPrefix_of_encode within

theorem ne_empty_of_spelled
    {start rest : String}
    (noReturn : '\r' ∉ start.toList)
    (present : start ≠ "")
    {part : List UInt8}
    (nonempty : part ≠ [])
    (opens : part <+: Text.octets (start ++ rest) ++ [13])
    (noFeed : 10 ∉ part)
    {text : String}
    (spells : spelled part = some text) :
    text ≠ "" := by
  rintro rfl
  have same : Text.octets "" = trimEol part := Text.octets_of_fromUtf8 spells
  have nothing : Text.octets "" = [] := rfl
  obtain ⟨first, later, split⟩ :=
    List.exists_cons_of_ne_nil (mt (Text.octets_eq_nil_iff start).mp present)
  rw [nothing, Read.trimEol_of_not_mem noFeed] at same
  split at same
  next ends =>
    obtain ⟨only, rfl⟩ : ∃ only, part = [only] := by
      obtain ⟨only, others, rfl⟩ := List.exists_cons_of_ne_nil nonempty
      cases others with
      | nil => exact ⟨only, rfl⟩
      | cons second others => cases same
    obtain rfl := Option.some.inj ends
    rw [Text.octets_append, List.append_assoc, split, List.cons_append,
      List.cons_prefix_cons] at opens
    refine noReturn ((Text.return_mem_octets_iff start).mp ?_)
    rw [split, ← opens.1]
    exact List.mem_cons_self
  · exact nonempty same.symm

namespace Response

/-- A status line up to its phrase. -/
def start (response : Response) : String :=
  "HTTP/1.1 " ++ toString response.status

theorem return_not_mem_start (response : Response) :
    '\r' ∉ response.start.toList := by
  rw [start, String.toList_append, List.mem_append]
  rintro (version | digit)
  · exact absurd version (by decide)
  · exact absurd (Text.isDigit_of_mem_toString digit) (by decide)

theorem length_octets_start
    {response : Response}
    (status : 100 ≤ response.status ∧ response.status ≤ 999) :
    (Text.octets response.start).length = 12 := by
  have version : (Text.octets "HTTP/1.1 ").length = 9 := rfl
  rw [start, Text.octets_append, List.length_append, version,
    (Text.length_octets_toString_eq_three_iff response.status).mpr status]

theorem statusLine_of_version_cut :
    ∀ length < 9, statusLine
      (String.ofList ("HTTP/1.1 ".toList.take length)) = none := by
  decide

/-- A status line cut before its status is whole is none. -/
theorem statusLine_of_cut
    {response : Response}
    (status : 100 ≤ response.status ∧ response.status ≤ 999)
    {text : String}
    (cut : Cut text.toList response.start.toList) :
    statusLine text = none := by
  rw [start, String.toList_append] at cut
  rcases cut.append_cases with inVersion | ⟨digits, split, inStatus⟩
  · have short := inVersion.length_lt
    have same : text =
        String.ofList ("HTTP/1.1 ".toList.take text.toList.length) := by
      rw [← List.prefix_iff_eq_take.mp inVersion.opens, String.ofList_toList]
    rw [same]
    exact statusLine_of_version_cut _ short
  · have digit : ∀ character ∈ digits, character.isDigit = true :=
      fun character member =>
        Text.isDigit_of_mem_toString (inStatus.opens.subset member)
    have written : text = "HTTP/1." ++ ("1" ++ String.singleton ' ' ++
        String.ofList digits) := by
      rw [← String.toList_inj, split]
      simp only [String.toList_append, String.toList_ofList]
      rfl
    have space : ' ' ∉ (String.ofList digits).toList := by
      rw [String.toList_ofList]
      exact fun member => absurd (digit ' ' member) (by decide)
    have version : ' ' ∉ "1".toList := by decide
    have few : (Text.octets (String.ofList digits)).length ≠ 3 := by
      have short := inStatus.length_lt
      have three :=
        (Text.length_octets_toString_eq_three_iff response.status).mpr status
      rw [Text.length_octets_toString, ← Text.toList_toString] at three
      rw [Text.octets_eq, String.toList_ofList,
        Utf8.length_encode_of_ascii fun character member =>
          Text.ascii_of_isDigit (digit character member)]
      omega
    rw [written, statusLine, Text.stripPrefix_append, Option.bind_some,
      Text.splitOnce_append version, Option.bind_some]
    simp only [Text.splitOnce_eq_none space, Option.getD_none]
    rw [if_neg few]

/-- A status line cut after its status is one. -/
theorem statusLine_of_start
    {response : Response}
    (status : 100 ≤ response.status ∧ response.status ≤ 999)
    {text phrase : String}
    (opens : text.toList <+: (response.start ++ (" " ++ phrase)).toList)
    (starts : response.start.toList <+: text.toList) :
    ∃ shorter, statusLine text = some (response.status, shorter) := by
  obtain ⟨more, split⟩ := starts
  rw [← split, String.toList_append, List.prefix_append_right_inj] at opens
  cases more with
  | nil =>
      have whole : text = "HTTP/1." ++ ("1" ++ String.singleton ' ' ++
          toString response.status) := by
        have opening : "HTTP/1.1 " = "HTTP/1." ++ ("1" ++ String.singleton ' ') :=
          rfl
        rw [← String.toList_inj, ← split, List.append_nil, start, opening]
        simp only [String.append_assoc]
      have space : ' ' ∉ (toString response.status).toList := fun member =>
        absurd (Text.isDigit_of_mem_toString member) (by decide)
      have version : ' ' ∉ "1".toList := by decide
      have three :=
        (Text.length_octets_toString_eq_three_iff response.status).mpr status
      refine ⟨"", ?_⟩
      rw [whole, statusLine, Text.stripPrefix_append, Option.bind_some,
        Text.splitOnce_append version, Option.bind_some]
      simp only [Text.splitOnce_eq_none space, Option.getD_none]
      rw [if_pos three, Text.parseUnsigned_toString
        (Nat.lt_of_le_of_lt status.2 (by decide)), Option.map_some]
  | cons character others =>
      have space : " ".toList = [' '] := rfl
      rw [String.toList_append, space, List.singleton_append] at opens
      obtain ⟨rfl, _⟩ := List.cons_prefix_cons.mp opens
      refine ⟨String.ofList others, ?_⟩
      have whole : text = "HTTP/1.1 " ++ toString response.status ++ " " ++
          String.ofList others := by
        rw [← String.toList_inj, ← split, start]
        simp only [String.toList_append, String.toList_ofList,
          List.append_assoc]
        rfl
      rw [whole]
      exact statusLine_written status _

/-- Of a status line alone an answer is read exactly where its status is
whole. -/
theorem answerAfter_of_cut
    {response : Response}
    (readable : response.Readable)
    {part : List UInt8}
    (nonempty : part ≠ [])
    (cut : Cut part (lineOctets (responseMessage response).first))
    {text : String}
    (spells : spelled part = some text) :
    Refuses (answerAfter (seen [] text)) [] ↔ part.length < 12 := by
  have whole := readable.legible.first
  obtain ⟨opens, noFeed, _⟩ := part_of_cut whole cut
  have first : (responseMessage response).first =
      response.start ++ (" " ++ response.phrase) := by
    rw [first_eq, start]
    simp only [String.append_assoc]
  have within := isPrefix_of_spelled opens noFeed spells
  rw [first] at opens within
  have noReturn := response.return_not_mem_start
  have starts := start_isPrefix_iff noReturn opens noFeed spells
  have present : response.start ≠ "" := by
    intro empty
    have length := length_octets_start readable.status
    rw [empty] at length
    exact absurd length (by decide)
  have some' := ne_empty_of_spelled noReturn present nonempty opens noFeed spells
  have asksNot := Message.not_asks_of_first text
  rw [length_octets_start readable.status] at starts
  rw [seen, if_neg some', List.nil_append] at asksNot ⊢
  by_cases enough : 12 ≤ part.length
  · obtain ⟨shorter, reads⟩ :=
      statusLine_of_start readable.status within (starts.mpr enough)
    have body : Reads (answerBody response.status [text]) [] ([], []) [] := by
      rw [answerBody]
      split
      · exact Fallible.reads_pure ([], []) []
      · exact read_reads_nil asksNot true
    rw [answerAfter_of_statusLine reads,
      (decided_answerBody _ _).refuses_bind_pure_iff]
    exact ⟨fun refuses => absurd refuses body.not_refuses,
      fun short => absurd enough (Nat.not_le.mpr short)⟩
  · rw [String.toList_append] at within
    have cutStart : Cut text.toList response.start.toList :=
      (Cuts.cut_or_isPrefix within).resolve_right (mt starts.mp enough)
    rw [answerAfter_of_not_statusLine
      (statusLine_of_cut readable.status cutStart)]
    exact ⟨fun _ => Nat.not_le.mp enough,
      fun _ => Fallible.refuses_fail _ _⟩

theorem goesOn
    (response : Response)
    (status : 100 ≤ response.status ∧ response.status ≤ 999) :
    (responseMessage response).GoesOn answerAfter where
  decided := decided_answerAfter
  body := by
    refine ⟨true, fun more bytes => ?_⟩
    rw [first_eq, answerAfter_of_statusLine (statusLine_written status _),
      (decided_answerBody _ _).refuses_bind_pure_iff, answerBody]
    have same : (responseMessage response).bodiless =
        Http.bodiless response.status := rfl
    rw [same]
    cases Http.bodiless response.status with
    | true =>
        rw [if_pos rfl]
        exact ⟨fun refuses =>
          absurd refuses (Fallible.reads_pure ([], []) bytes).not_refuses,
          fun none => by cases none.1⟩
    | false =>
        rw [if_neg (by decide), and_iff_right rfl]

end Response

namespace Request

/-- A request line up to the first character of its target. -/
def start (request : Request) : String :=
  request.method ++ " /"

theorem first_eq
    (codec : Percent)
    {request : Request}
    (path : Text.opensWith request.path '/' = true) :
    ∃ rest, request.target codec = "/" ++ rest ∧
      (requestMessage codec request true).first =
        request.start ++ (rest ++ " HTTP/1.1") := by
  have opens : ∃ rest, request.target codec = "/" ++ rest := by
    obtain ⟨others, split⟩ : ∃ others, request.path.toList = '/' :: others := by
      rw [Text.opensWith, decide_eq_true_iff, List.head?_eq_some_iff] at path
      exact path
    have written : request.path = "/" ++ String.ofList others := by
      rw [← String.toList_inj, split]
      simp only [String.toList_append, String.toList_ofList]
      rfl
    rw [target, written]
    split
    · exact ⟨_, rfl⟩
    · simp only [String.append_assoc]
      exact ⟨_, rfl⟩
  obtain ⟨rest, split⟩ := opens
  refine ⟨rest, split, ?_⟩
  have slash : " /" = " " ++ "/" := rfl
  rw [requestMessage, split, start, slash]
  simp only [String.append_assoc]

theorem return_not_mem_start
    {request : Request}
    (word : ∀ character ∈ request.method.toList,
      Text.isWhitespace character = false) :
    '\r' ∉ request.start.toList := by
  rw [start, String.toList_append, List.mem_append]
  rintro (held | slash)
  · exact absurd (word '\r' held) (by decide)
  · exact absurd slash (by decide)

/-- A request line cut before its target has one word. -/
theorem splitWhitespace_of_cut
    {request : Request}
    (word : ∀ character ∈ request.method.toList,
      Text.isWhitespace character = false)
    (present : request.method ≠ "")
    {text : String}
    (nonempty : text ≠ "")
    (cut : Cut text.toList request.start.toList) :
    ∃ only, Text.splitWhitespace text = [only] := by
  rw [start, String.toList_append] at cut
  rcases cut.append_cases with inMethod | ⟨later, split, inSpace⟩
  · exact ⟨text, Text.splitWhitespace_of_forall nonempty fun character member =>
      word character (inMethod.opens.subset member)⟩
  · have spaces : later = [] ∨ later = [' '] := inSpace.pair_cases
    refine ⟨request.method, ?_⟩
    rcases spaces with rfl | rfl
    · rw [List.append_nil, String.toList_inj] at split
      rw [split]
      exact Text.splitWhitespace_of_forall present word
    · have written : text = request.method ++ " " ++ "" := by
        have space : " ".toList = [' '] := rfl
        have nothing : "".toList = [] := rfl
        rw [← String.toList_inj, split, String.toList_append,
          String.toList_append, space, nothing, List.append_nil]
      rw [written, Text.splitWhitespace_append present word]
      rfl

/-- A request line cut in its target or after it has two words. -/
theorem splitWhitespace_of_start
    {codec : Percent}
    {request : Request}
    (readable : request.Readable codec)
    {text : String}
    (opens : text.toList <+: (requestMessage codec request true).first.toList)
    (starts : request.start.toList <+: text.toList) :
    ∃ target more, Text.splitWhitespace text =
      request.method :: target :: more := by
  obtain ⟨others, split⟩ := starts
  have written : text = request.method ++ " " ++ ("/" ++ String.ofList others) := by
    have slash : " /" = " " ++ "/" := rfl
    rw [← String.toList_inj, ← split, start, slash]
    simp only [String.toList_append, String.toList_ofList, List.append_assoc]
  have line : (requestMessage codec request true).first =
      request.method ++ " " ++ (request.target codec ++ " HTTP/1.1") := by
    rw [requestMessage]
    simp only [String.append_assoc]
  have words : ∀ tail : String, (request.method ++ " " ++ tail).toList =
      (request.method ++ " ").toList ++ tail.toList :=
    fun tail => String.toList_append
  have version : " HTTP/1.1".toList = ' ' :: "HTTP/1.1".toList := rfl
  have ending : (request.target codec ++ " HTTP/1.1").toList =
      (request.target codec).toList ++ ' ' :: "HTTP/1.1".toList := by
    rw [String.toList_append, version]
  rw [line, written, words, words, List.prefix_append_right_inj,
    ending] at opens
  have target : ∃ target more, Text.splitWhitespace
      ("/" ++ String.ofList others) = target :: more := by
    rcases Cuts.cut_or_isPrefix opens with inTarget | ⟨more, whole⟩
    · have present : "/" ++ String.ofList others ≠ "" := by
        rw [ne_eq, ← String.toList_eq_nil_iff, String.toList_append]
        exact List.append_ne_nil_of_left_ne_nil (by decide) _
      exact ⟨_, [], Text.splitWhitespace_of_forall present
        fun character member =>
          readable.targetWord character (inTarget.opens.subset member)⟩
    · have present := target_ne_empty codec readable.path
      rw [← whole, List.prefix_append_right_inj] at opens
      cases more with
      | nil =>
          rw [List.append_nil, String.toList_inj] at whole
          rw [← whole]
          exact ⟨_, [], Text.splitWhitespace_of_forall present
            readable.targetWord⟩
      | cons character later =>
          obtain ⟨rfl, _⟩ := List.cons_prefix_cons.mp opens
          have same : "/" ++ String.ofList others =
              request.target codec ++ " " ++ String.ofList later := by
            rw [← String.toList_inj, ← whole]
            simp only [String.toList_append, String.toList_ofList,
              List.append_assoc]
            rfl
          rw [same, Text.splitWhitespace_append present readable.targetWord]
          exact ⟨_, _, rfl⟩
  obtain ⟨word, more, read⟩ := target
  refine ⟨word, more, ?_⟩
  rw [written, Text.splitWhitespace_append readable.method readable.methodWord,
    read]

/-- Of a request line alone a request is read exactly where its target has
begun. -/
theorem requestAfter_of_cut
    {codec : Percent}
    {request : Request}
    (readable : request.Readable codec)
    {part : List UInt8}
    (nonempty : part ≠ [])
    (cut : Cut part (lineOctets (requestMessage codec request true).first))
    {text : String}
    (spells : spelled part = some text) :
    Refuses (requestAfter codec (seen [] text)) [] ↔
      part.length < (Text.octets request.method).length + 2 := by
  obtain ⟨opens, noFeed, _⟩ := part_of_cut readable.whole cut
  have within := isPrefix_of_spelled opens noFeed spells
  obtain ⟨rest, _, first⟩ := first_eq codec readable.path
  have noReturn := return_not_mem_start readable.methodWord
  have length : (Text.octets request.start).length =
      (Text.octets request.method).length + 2 := by
    rw [start, Text.octets_append, List.length_append]
    rfl
  have present : request.start ≠ "" := by
    intro empty
    rw [empty] at length
    cases length
  have asksNot := Message.not_asks_of_first text
  rw [first] at opens
  have starts := start_isPrefix_iff noReturn opens noFeed spells
  have some' := ne_empty_of_spelled noReturn present nonempty opens noFeed spells
  rw [length] at starts
  rw [seen, if_neg some', List.nil_append] at asksNot ⊢
  by_cases enough : (Text.octets request.method).length + 2 ≤ part.length
  · obtain ⟨target, more, words⟩ :=
      splitWhitespace_of_start readable within (starts.mpr enough)
    have body := read_reads_nil asksNot false
    rw [requestAfter_of_words codec words,
      (Body.decided_read _ _).refuses_bind_pure_iff]
    exact ⟨fun refuses => absurd refuses body.not_refuses,
      fun short => absurd enough (Nat.not_le.mpr short)⟩
  · rw [first, String.toList_append] at within
    have cutStart : Cut text.toList request.start.toList :=
      (Cuts.cut_or_isPrefix within).resolve_right (mt starts.mp enough)
    obtain ⟨only, words⟩ := splitWhitespace_of_cut readable.methodWord
      readable.method some' cutStart
    rw [requestAfter_of_word codec words]
    exact ⟨fun _ => Nat.not_le.mp enough,
      fun _ => Fallible.refuses_fail _ _⟩

theorem goesOn
    {codec : Percent}
    {request : Request}
    (readable : request.Readable codec) :
    (requestMessage codec request true).GoesOn (requestAfter codec) where
  decided := decided_requestAfter codec
  body := by
    refine ⟨false, fun more bytes => ?_⟩
    rw [requestAfter_of_words codec readable.words,
      (Body.decided_read _ _).refuses_bind_pure_iff]
    exact (and_iff_right rfl).symm

end Request

/-! ## Answers and requests cut anywhere -/

/-- Of an answer or a request cut anywhere what came is refused exactly where it
is lost: the status is not whole or the target has not begun, the connection
ends inside a character of the head or the trailer, or what came of the head
asks for more of the body, up to its last chunk, than came. -/
theorem refuses_cut_iff (codec : Percent) :
    (∀ {response : Response} {came : List UInt8},
      response.Readable → came ≠ [] → Cut came response.octets →
      (Refuses readResponse came ↔
        (responseMessage response).Lost 12 came)) ∧
    ∀ {request : Request} {came : List UInt8},
      request.Readable codec → came ≠ [] → Cut came (request.octets codec) →
      (Refuses (readRequest codec) came ↔
        (requestMessage codec request true).Lost
          ((Text.octets request.method).length + 2) came) := by
  constructor
  · intro response came readable nonempty cut
    exact Message.refuses_iff_lost readable.legible readable.small
      (fun _ => readable.framed) (response.goesOn readable.status)
      (fun present inLine spells =>
        Response.answerAfter_of_cut readable present inLine spells)
      nonempty cut
  · intro request came readable nonempty cut
    exact Message.refuses_iff_lost readable.legible readable.small
      (fun _ => readable.framed) (Request.goesOn readable)
      (fun present inLine spells =>
        Request.requestAfter_of_cut readable present inLine spells)
      nonempty cut

/-- An answer cut after its status line is read as one without a body. -/
theorem reads_trailing_cut :
    Text.octets "HTTP/1.1 200 OK\r\n" ≠ [] ∧
      Cut (Text.octets "HTTP/1.1 200 OK\r\n") trailing.octets ∧
      ¬Refuses readResponse (Text.octets "HTTP/1.1 200 OK\r\n") := by
  have head : Reads readHead
      (["HTTP/1.1 200 OK"].flatMap lineOctets ++ []) ["HTTP/1.1 200 OK"] [] :=
    (readHead_of_end
      (List.forall_mem_singleton.mpr ⟨by decide, by decide, by decide⟩)
      List.not_mem_nil (Nat.zero_le _) (by decide)
      (fun _ _ _ => by decide)).1 "" (by decide)
  have status : statusLine "HTTP/1.1 200 OK" = some (200, "OK") := by decide
  have asksNot : ¬Asks ["HTTP/1.1 200 OK"] :=
    Message.not_asks_of_first "HTTP/1.1 200 OK"
  have body : Reads (answerBody 200 ["HTTP/1.1 200 OK"]) [] ([], []) [] :=
    read_reads_nil asksNot true
  refine ⟨by decide, ⟨by decide, by decide⟩, fun refuses => ?_⟩
  have answers : Refuses (readHead >>= answerAfter)
      (["HTTP/1.1 200 OK"].flatMap lineOctets ++ []) := refuses
  rw [head.refuses_bind_iff (decided_answerAfter _),
    answerAfter_of_statusLine status,
    (decided_answerBody _ _).refuses_bind_pure_iff] at answers
  exact body.not_refuses answers

theorem refuses_cut_iff_trailing :
    (Refuses readResponse (Text.octets "HTTP/1.1 20") ↔
      (responseMessage trailing).Lost 12 (Text.octets "HTTP/1.1 20")) ∧
    (Refuses (readRequest unescaped) (Text.octets "PUT ") ↔
      (requestMessage unescaped putting true).Lost
        ((Text.octets putting.method).length + 2) (Text.octets "PUT ")) :=
  ⟨(refuses_cut_iff unescaped).1 readable_trailing (by decide)
      ⟨by decide, by decide⟩,
    (refuses_cut_iff unescaped).2 readable_putting (by decide)
      ⟨by decide, by decide⟩⟩

end Http
end XmipNet

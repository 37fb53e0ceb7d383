import XmipNet.Http.Exchange

/-!
# What a written message is read as

A message whose lines are whole and whose fields are plain has its head read
back, whatever follows it on the connection; where its own headers do not frame
it otherwise than the writer does, its body and trailer are read back too.
-/

namespace XmipNet
namespace Http

open Fallible (Reads)
open Head (fieldLine lineOctets Whole Plain fields header readHead)
open Read (maxLine)

/-- Whether a field names `name`, however it is capitalized. -/
def Names (field : Pair) (name : String) : Prop :=
  Text.lowercase field.1 = Text.lowercase name

instance (field : Pair) (name : String) : Decidable (Names field name) :=
  inferInstanceAs (Decidable (Text.lowercase field.1 = Text.lowercase name))

/-- A field that is read as it is written, its line within the longest. -/
structure Writable (field : Pair) : Prop where
  plain : Plain field
  fits : (Text.octets (fieldLine field)).length + 2 ≤ maxLine

theorem Writable.whole
    {field : Pair}
    (writable : Writable field) :
    Whole (fieldLine field) where
  nonempty := Head.fieldLine_ne_empty field
  oneLine := Head.oneLine_fieldLine writable.plain
  fits := writable.fits

/-! ## Looking fields up -/

theorem find_append (first second : List Pair) (name : String) :
    find (first ++ second) name = (find first name).or (find second name) := by
  rw [find, find, find, List.find?_append, Option.map_or]

theorem find_cons_of_names
    {field : Pair}
    {name : String}
    (names : Names field name)
    (rest : List Pair) :
    find (field :: rest) name = some field.2 := by
  have same : decide (Text.lowercase field.1 = Text.lowercase name) = true :=
    decide_eq_true names
  rw [find, List.find?_cons, same, Option.map_some]

theorem find_cons_of_not_names
    {field : Pair}
    {name : String}
    (other : ¬Names field name)
    (rest : List Pair) :
    find (field :: rest) name = find rest name := by
  have passes : decide (Text.lowercase field.1 = Text.lowercase name) = false :=
    decide_eq_false other
  rw [find, List.find?_cons, passes, find]

theorem find_eq_none_iff {headers : List Pair} {name : String} :
    find headers name = none ↔ ∀ field ∈ headers, ¬Names field name := by
  rw [find, Option.map_eq_none_iff, List.find?_eq_none]
  constructor
  · intro absent field member names
    exact absent field member (decide_eq_true names)
  · intro absent field member found
    exact absent field member (of_decide_eq_true found)

theorem of_find
    {headers : List Pair}
    {name value : String}
    (found : find headers name = some value) :
    ∃ field ∈ headers, Names field name ∧ field.2 = value := by
  rw [find, Option.map_eq_some_iff] at found
  obtain ⟨field, holds, same⟩ := found
  have names := List.find?_some holds
  simp only [decide_eq_true_eq] at names
  exact ⟨field, List.mem_of_find?_eq_some holds, names, same⟩

/-! ## The fields the writer adds -/

namespace Message

theorem mem_closeFields
    {message : Message}
    {field : Pair}
    (member : field ∈ message.closeFields) :
    field = ("Connection", "close") := by
  rw [closeFields] at member
  split at member
  · exact List.mem_singleton.mp member
  · cases member

theorem length_framing_le (message : Message) :
    message.framing.length ≤ 2 := by
  have close : message.closeFields.length ≤ 1 := by
    rw [closeFields]
    split <;> decide
  rw [framing, List.length_append]
  split
  · exact Nat.le_trans (Nat.add_le_add_left close 0) (by decide)
  · split <;> exact Nat.add_le_add_left close 1

theorem writable_closing : Writable ("Connection", "close") :=
  ⟨⟨by decide, by decide, by decide, by decide, by decide⟩, by decide⟩

theorem writable_chunked : Writable ("Transfer-Encoding", "chunked") :=
  ⟨⟨by decide, by decide, by decide, by decide, by decide⟩, by decide⟩

theorem not_whitespace_of_isDigit
    {character : Char}
    (digit : character.isDigit = true) :
    Text.isWhitespace character = false ∧ character ≠ '\n' := by
  have bounds := (Text.isDigit_iff character).mp digit
  constructor
  · rw [Text.isWhitespace]
    refine decide_eq_false ?_
    omega
  · rintro rfl
    exact absurd bounds.1 (by decide)

theorem writable_length
    {length : Nat}
    (fits : length ≤ maxBody) :
    Writable ("Content-Length", toString length) := by
  have digits : ∀ character ∈ (toString length).toList,
      Text.isWhitespace character = false ∧ character ≠ '\n' :=
    fun character member =>
      not_whitespace_of_isDigit (Text.isDigit_of_mem_toString member)
  have named : Plain ("Content-Length", "") :=
    ⟨by decide, by decide, by decide, by decide, by decide⟩
  refine ⟨⟨named.name, ?_, named.noColon, named.nameLine, ?_⟩, ?_⟩
  · exact Text.trim_of_forall fun character member => (digits character member).1
  · exact fun member => (digits '\n' member).2 rfl
  · have short : (Nat.toDigits 10 length).length ≤ 8 :=
      (Nat.length_toDigits_le_iff (by decide) (by decide)).mpr
        (Nat.lt_of_le_of_lt fits (by decide))
    have before : (Text.octets "Content-Length" ++ Text.octets ": ").length =
        16 := rfl
    rw [Head.octets_fieldLine, List.length_append, before,
      Text.length_octets_toString]
    have room : 16 + 8 + 2 ≤ maxLine := by decide
    omega

/-- Every field the writer adds is read as it is written. -/
theorem writable_framing
    {message : Message}
    (fits : message.body.length ≤ maxBody)
    {field : Pair}
    (member : field ∈ message.framing) :
    Writable field := by
  rw [framing, List.mem_append] at member
  rcases member with framed | closes
  · split at framed
    · cases framed
    · split at framed
      · rw [List.mem_singleton.mp framed]
        exact writable_length fits
      · rw [List.mem_singleton.mp framed]
        exact writable_chunked
  · rw [mem_closeFields closes]
    exact writable_closing

/-! ## The head -/

/-- A message whose head is read as it is written. -/
structure Legible (message : Message) : Prop where
  first : Whole message.first
  headers : ∀ field ∈ message.headers, Writable field
  few : message.lines.length ≤ Head.maxHeaders

/-- A message whose headers do not frame it otherwise than the writer does, its
body within the largest and its trailer read as it is written. -/
structure Framed (message : Message) : Prop where
  coded : ∀ value, find message.headers "transfer-encoding" = some value →
    message.trailers ≠ [] ∧ Text.lowercase (Text.trim value) = "chunked"
  measured : message.trailers = [] →
    ∀ value, find message.headers "content-length" = some value →
      Body.contentLength value = some message.body.length
  small : message.body.length ≤ maxBody
  trailers : ∀ field ∈ message.trailers, Writable field
  fewTrailers : message.trailers.length ≤ Head.maxHeaders

theorem length_lines (message : Message) :
    message.lines.length =
      1 + message.headers.length + message.framing.length := by
  rw [lines, List.length_cons, List.length_map, List.length_append]
  omega

/-- A message with few enough headers leaves room for the fields its writer
adds. -/
theorem length_lines_le
    {message : Message}
    (few : message.headers.length ≤ 197) :
    message.lines.length ≤ Head.maxHeaders := by
  have added := message.length_framing_le
  have room : 1 + 197 + 2 ≤ Head.maxHeaders := by decide
  rw [length_lines]
  omega

theorem Legible.writable
    {message : Message}
    (legible : message.Legible)
    (small : message.body.length ≤ maxBody)
    {field : Pair}
    (member : field ∈ message.headers ++ message.framing) :
    Writable field := by
  rcases List.mem_append.mp member with own | added
  · exact legible.headers field own
  · exact writable_framing small added

theorem Legible.whole
    {message : Message}
    (legible : message.Legible)
    (small : message.body.length ≤ maxBody) :
    ∀ line ∈ message.lines, Whole line := by
  rw [lines]
  refine List.forall_mem_cons.mpr ⟨legible.first, ?_⟩
  intro line member
  obtain ⟨field, present, rfl⟩ := List.mem_map.mp member
  exact (legible.writable small present).whole

/-- The head of a message is read, and what follows it is left. -/
theorem Legible.readHead
    {message : Message}
    (legible : message.Legible)
    (small : message.body.length ≤ maxBody)
    (rest : List UInt8) :
    Reads readHead (message.octets ++ rest) message.lines
      (message.content ++ rest) := by
  rw [octets, List.append_assoc, List.append_assoc]
  exact Head.readHead_reads (legible.whole small) legible.few _

/-- The fields of a message's head are its own and those its writer adds. -/
theorem Legible.fields
    {message : Message}
    (legible : message.Legible)
    (small : message.body.length ≤ maxBody) :
    fields ((message.headers ++ message.framing).map fieldLine) =
      message.headers ++ message.framing :=
  Head.fields_map_fieldLine fun _ member =>
    (legible.writable small member).plain

theorem Legible.header
    {message : Message}
    (legible : message.Legible)
    (small : message.body.length ≤ maxBody)
    (name : String) :
    header message.lines name =
      (find message.headers name).or (find message.framing name) := by
  rw [Head.header_eq_find, lines, List.drop_succ_cons, List.drop_zero,
    legible.fields small, find_append]

/-! ## The body -/

theorem find_closeFields
    (message : Message)
    {name : String}
    (other : Text.lowercase name ≠ "connection") :
    find message.closeFields name = none := by
  refine find_eq_none_iff.mpr fun field member names => other ?_
  rw [mem_closeFields member] at names
  exact names.symm

theorem framing_of_plain
    {message : Message}
    (carries : message.bodiless = false)
    (plain : message.trailers = []) :
    message.framing =
      ("Content-Length", toString message.body.length) ::
        message.closeFields := by
  rw [framing, carries, if_neg (by decide), if_pos plain]
  rfl

theorem framing_of_trailers
    {message : Message}
    (carries : message.bodiless = false)
    (trailed : message.trailers ≠ []) :
    message.framing =
      ("Transfer-Encoding", "chunked") :: message.closeFields := by
  rw [framing, carries, if_neg (by decide), if_neg trailed]
  rfl

theorem framing_of_bodiless
    {message : Message}
    (bodiless : message.bodiless = true) :
    message.framing = message.closeFields := by
  rw [framing, bodiless, if_pos rfl, List.nil_append]

/-- Without a trailer the writer's fields state the length and no coding. -/
theorem find_framing_of_plain
    {message : Message}
    (carries : message.bodiless = false)
    (plain : message.trailers = []) :
    find message.framing "transfer-encoding" = none ∧
      find message.framing "content-length" =
        some (toString message.body.length) := by
  have closes : find message.closeFields "transfer-encoding" = none :=
    message.find_closeFields (by decide)
  have other : ¬Names ("Content-Length", toString message.body.length)
      "transfer-encoding" :=
    show ¬Text.lowercase "Content-Length" = Text.lowercase
      "transfer-encoding" from by decide
  have states : Names ("Content-Length", toString message.body.length)
      "content-length" :=
    show Text.lowercase "Content-Length" = Text.lowercase
      "content-length" from by decide
  rw [framing_of_plain carries plain]
  exact ⟨(find_cons_of_not_names other _).trans closes,
    find_cons_of_names states _⟩

/-- With a trailer the writer's fields name the chunked coding. -/
theorem find_framing_of_trailers
    {message : Message}
    (carries : message.bodiless = false)
    (trailed : message.trailers ≠ []) :
    find message.framing "transfer-encoding" = some "chunked" := by
  have names : Names ("Transfer-Encoding", "chunked") "transfer-encoding" := by
    decide
  rw [framing_of_trailers carries trailed]
  exact find_cons_of_names names _

theorem contentLength_toString
    {length : Nat}
    (fits : length ≤ maxBody) :
    Body.contentLength (toString length) = some length := by
  rw [Body.contentLength, if_pos (Text.allDigits_toString length)]
  exact Text.parseUnsigned_toString (Nat.lt_of_le_of_lt fits (by decide))

/-- A body that states its length is read by it. -/
theorem read_reads_of_length
    {head : List String}
    (uncoded : header head "transfer-encoding" = none)
    {value : String}
    (states : header head "content-length" = some value)
    {body : List UInt8}
    (measured : Body.contentLength value = some body.length)
    (small : body.length ≤ maxBody)
    (toEnd : Bool)
    (rest : List UInt8) :
    Reads (Body.read head toEnd) (body ++ rest) (body, []) rest := by
  have enough : body.length ≤ (body ++ rest).length := by
    rw [List.length_append]
    exact Nat.le_add_right _ _
  have content := Reader.readExact_reads enough
  rw [List.take_left, List.drop_left] at content
  have within : Body.within body.length = .ok () := Read.within_eq_ok small _
  rw [Body.read, uncoded, states]
  simp only [measured, within]
  refine (Fallible.reads_lift () _).bind ?_
  refine (content.mapError _).bind ?_
  exact Fallible.reads_pure (body, []) rest

/-- A body whose head names the chunked coding is read chunk by chunk. -/
theorem read_of_chunked
    {head : List String}
    {value : String}
    (coded : header head "transfer-encoding" = some value)
    (chunked : Text.lowercase (Text.trim value) = "chunked")
    (toEnd : Bool) :
    Body.read head toEnd = Body.unchunk := by
  rw [Body.read, coded]
  simp only [if_pos chunked]

/-- The head of a message without a trailer states its length. -/
theorem Framed.measures
    {message : Message}
    (framed : message.Framed)
    (legible : message.Legible)
    (carries : message.bodiless = false)
    (plain : message.trailers = []) :
    header message.lines "transfer-encoding" = none ∧
      ∃ value, header message.lines "content-length" = some value ∧
        Body.contentLength value = some message.body.length := by
  have looks := legible.header framed.small
  have uncoded : find message.headers "transfer-encoding" = none :=
    Option.eq_none_iff_forall_ne_some.mpr fun value found =>
      (framed.coded value found).1 plain
  obtain ⟨absent, states⟩ := find_framing_of_plain carries plain
  constructor
  · rw [looks, uncoded, absent]
    rfl
  · cases own : find message.headers "content-length" with
    | some value =>
        refine ⟨value, ?_, framed.measured plain value own⟩
        rw [looks, own]
        rfl
    | none =>
        refine ⟨_, ?_, contentLength_toString framed.small⟩
        rw [looks, own, states]
        rfl

/-- The head of a message with a trailer names the chunked coding. -/
theorem Framed.codes
    {message : Message}
    (framed : message.Framed)
    (legible : message.Legible)
    (carries : message.bodiless = false)
    (trailed : message.trailers ≠ []) :
    ∃ value, header message.lines "transfer-encoding" = some value ∧
      Text.lowercase (Text.trim value) = "chunked" := by
  have looks := legible.header framed.small
  cases own : find message.headers "transfer-encoding" with
  | some value =>
      refine ⟨value, ?_, (framed.coded value own).2⟩
      rw [looks, own]
      rfl
  | none =>
      refine ⟨"chunked", ?_, by decide⟩
      rw [looks, own, find_framing_of_trailers carries trailed]
      rfl

theorem content_of_plain
    {message : Message}
    (carries : message.bodiless = false)
    (plain : message.trailers = []) :
    message.content = message.body := by
  rw [content, carries, if_neg (by decide), if_pos plain]

theorem content_of_trailers
    {message : Message}
    (carries : message.bodiless = false)
    (trailed : message.trailers ≠ []) :
    message.content = Body.oneChunk message.body ++ (lineOctets "0" ++
      ((message.trailers.map fieldLine).flatMap lineOctets ++ [13, 10])) := by
  rw [content, carries, if_neg (by decide), if_neg trailed]

/-- The body of a message and its trailer are read, and what follows is
left. -/
theorem Framed.read
    {message : Message}
    (framed : message.Framed)
    (legible : message.Legible)
    (carries : message.bodiless = false)
    (toEnd : Bool)
    (rest : List UInt8) :
    Reads (Body.read message.lines toEnd) (message.content ++ rest)
      (message.body, message.trailers.map fieldLine) rest := by
  by_cases plain : message.trailers = []
  · obtain ⟨uncoded, value, states, measured⟩ :=
      framed.measures legible carries plain
    rw [content_of_plain carries plain, plain]
    exact read_reads_of_length uncoded states measured framed.small toEnd rest
  · obtain ⟨value, coded, chunked⟩ := framed.codes legible carries plain
    have whole : ∀ line ∈ message.trailers.map fieldLine, Whole line := by
      intro line member
      obtain ⟨field, present, rfl⟩ := List.mem_map.mp member
      exact (framed.trailers field present).whole
    have few : (message.trailers.map fieldLine).length ≤ Head.maxHeaders := by
      rw [List.length_map]
      exact framed.fewTrailers
    have reads := Body.unchunk_reads framed.small whole few rest
    rw [read_of_chunked coded chunked, content_of_trailers carries plain]
    simp only [List.append_assoc] at reads ⊢
    exact reads

end Message

end Http
end XmipNet

import XmipNet.Http.Kept

/-!
# One request written, one request read

What a request's headers hold is written as it is given. Where none of it ends a
line, and none is read as framing the body, what was written is read as one
request, whatever colons and returns its headers hold; where it ends a line, the
rest may be read as headers or as another request.
-/

namespace XmipNet
namespace Http

open Fallible (Reads Refuses)
open Head (fieldLine lineOctets Whole readName readHead)
open Read (maxLine)

namespace Request

/-- A request within the ceilings: its method and its path are words, its path
opens with a slash, and its headers, whatever they hold, do not name its
framing. -/
structure Posed (codec : Percent) (request : Request) : Prop where
  method : request.method ≠ ""
  methodWord : ∀ character ∈ request.method.toList,
    Text.isWhitespace character = false
  path : Text.opensWith request.path '/' = true
  pathWord : ∀ character ∈ request.path.toList,
    Text.isWhitespace character = false
  first : (Text.octets (requestMessage codec request true).first).length + 2 ≤
    maxLine
  fits : ∀ field ∈ request.headers,
    (Text.octets (fieldLine field)).length + 2 ≤ maxLine
  few : (requestMessage codec request true).lines.length ≤ Head.maxHeaders
  small : request.body.length ≤ maxBody
  uncoded : ∀ field ∈ request.headers, ¬Names field "transfer-encoding"
  unmeasured : ∀ field ∈ request.headers, ¬Names field "content-length"

/-- A request whose headers end no line and are not read as its framing. -/
structure Single (codec : Percent) (request : Request) : Prop
    extends request.Posed codec where
  nameLine : ∀ field ∈ request.headers, '\n' ∉ field.1.toList
  valueLine : ∀ field ∈ request.headers, '\n' ∉ field.2.toList
  notCoding : ∀ field ∈ request.headers,
    ¬Names (readName field, field.2) "transfer-encoding"
  notLength : ∀ field ∈ request.headers,
    ¬Names (readName field, field.2) "content-length"

/-- The octets are read as one request of the same method, as many headers
before those its writer adds, and the same body, and what follows is left. -/
def ReadAsOne
    (codec : Percent)
    (request : Request)
    (octets : List UInt8) : Prop :=
  ∃ again given, again.method = request.method ∧
    again.headers = given ++ (requestMessage codec request true).framing ∧
    given.length = request.headers.length ∧ again.body = request.body ∧
    ∀ rest, Reads (readRequest codec) (octets ++ rest) (some again) rest

/-! ## A request that is read as one -/

/-- The encoding of a query leaves no white space in a target. -/
theorem Posed.targetWord
    {codec : Percent}
    {request : Request}
    (posed : request.Posed codec)
    (encodes : ∀ character ∈ (codec.encodePairs request.query).toList,
      Text.isWhitespace character = false) :
    ∀ character ∈ (request.target codec).toList,
      Text.isWhitespace character = false := by
  rw [target]
  split
  · exact posed.pathWord
  · intro character member
    rw [String.toList_append, String.toList_append] at member
    rcases List.mem_append.mp member with first | query
    · rcases List.mem_append.mp first with path | mark
      · exact posed.pathWord character path
      · have marks : ∀ other ∈ "?".toList,
            Text.isWhitespace other = false :=
          Text.forall_mem_of_all (by decide)
        exact marks character mark
    · exact encodes character query

namespace Single

variable {codec : Percent} {request : Request}

theorem wholeFields (single : request.Single codec) :
    ∀ line ∈ (request.headers ++
        (requestMessage codec request true).framing).map fieldLine,
      Whole line := by
  intro line member
  obtain ⟨field, present, rfl⟩ := List.mem_map.mp member
  rcases List.mem_append.mp present with own | added
  · refine ⟨Head.fieldLine_ne_empty field, ?_, single.fits field own⟩
    rw [Head.lineFeed_mem_fieldLine_iff, not_or]
    exact ⟨single.nameLine field own, single.valueLine field own⟩
  · exact (Message.writable_framing single.small added).whole

/-- The fields of the head are those the headers are read as and those the
writer adds. -/
theorem fields_eq (single : request.Single codec) :
    Head.fields ((request.headers ++
        (requestMessage codec request true).framing).map fieldLine) =
      Head.fields (request.headers.map fieldLine) ++
        (requestMessage codec request true).framing := by
  rw [List.map_append, Head.fields_append,
    Head.fields_map_fieldLine fun field member =>
      (Message.writable_framing single.small member).plain]

theorem find_fields_eq_none
    {headers : List Pair}
    {name : String}
    (other : ∀ field ∈ headers,
      ¬Names (readName field, field.2) name) :
    find (Head.fields (headers.map fieldLine)) name = none := by
  refine find_eq_none_iff.mpr fun field member names => ?_
  have among : field.1 ∈ headers.map readName := by
    rw [← Head.map_fst_fields]
    exact List.mem_map_of_mem member
  obtain ⟨own, present, same⟩ := List.mem_map.mp among
  refine other own present ?_
  rw [same]
  exact names

/-- A header looked up in the head is looked up among the writer's where no own
header is read under its name. -/
theorem header_eq
    (single : request.Single codec)
    {name : String}
    (other : ∀ field ∈ request.headers,
      ¬Names (readName field, field.2) name) :
    Head.header (requestMessage codec request true).lines name =
      find (requestMessage codec request true).framing name := by
  rw [Head.header_eq_find, Message.lines, List.drop_succ_cons, List.drop_zero]
  have own : (requestMessage codec request true).headers = request.headers :=
    rfl
  rw [own, single.fields_eq, find_append, find_fields_eq_none other]
  rfl

/-- The body is read by the length the writer states. -/
theorem body_reads
    (single : request.Single codec)
    (rest : List UInt8) :
    Reads (Body.read (requestMessage codec request true).lines false)
      ((requestMessage codec request true).content ++ rest)
      (request.body, []) rest := by
  obtain ⟨uncoded, states⟩ :
      find (requestMessage codec request true).framing "transfer-encoding" =
          none ∧
        find (requestMessage codec request true).framing "content-length" =
          some (toString request.body.length) :=
    Message.find_framing_of_plain rfl rfl
  have coding := single.header_eq single.notCoding
  have length := single.header_eq single.notLength
  rw [Message.content_of_plain rfl rfl]
  exact Message.read_reads_of_length (coding.trans uncoded)
    (length.trans states) (Message.contentLength_toString single.small)
    single.small false rest

/-- What was written of the request is read as one. -/
theorem readAsOne
    (single : request.Single codec)
    (encodes : ∀ character ∈ (codec.encodePairs request.query).toList,
      Text.isWhitespace character = false) :
    request.ReadAsOne codec (request.octets codec) := by
  have targetWord := single.targetWord encodes
  have words := words_first single.method single.methodWord single.path
    targetWord
  have whole : ∀ line ∈ (requestMessage codec request true).lines,
      Whole line :=
    List.forall_mem_cons.mpr ⟨whole_first words single.methodWord targetWord
      single.first, single.wholeFields⟩
  have count : (Head.fields (request.headers.map fieldLine)).length =
      request.headers.length := by
    rw [← List.length_map Prod.fst, Head.map_fst_fields, List.length_map]
  refine ⟨{
    method := request.method
    path := (splitTarget codec (request.target codec)).1
    query := (splitTarget codec (request.target codec)).2
    headers := Head.fields (request.headers.map fieldLine) ++
      (requestMessage codec request true).framing
    body := request.body }, _, rfl, rfl, count, rfl, fun rest => ?_⟩
  have head := Head.readHead_reads whole single.few
    ((requestMessage codec request true).content ++ rest)
  have body := single.body_reads rest
  rw [octets, Message.octets, List.append_assoc, List.append_assoc,
    readRequest_eq]
  refine head.bind ?_
  rw [Message.lines] at body ⊢
  rw [requestAfter_of_words codec words]
  refine body.bind ?_
  have own : (requestMessage codec request true).headers = request.headers :=
    rfl
  rw [own, single.fields_eq]
  exact Fallible.reads_pure _ rest

end Single
end Request

/-- A request with a note that holds another request. -/
def forging : Request where
  method := "GET"
  path := "/a"
  query := []
  headers := [("X-Note", "a\r\n\r\nDELETE /b HTTP/1.1")]
  body := []

/-- The request the note holds. -/
def forged : Request where
  method := "DELETE"
  path := "/b"
  query := []
  headers := []
  body := []

/-- A request with a header whose name goes on after a coding's. -/
def coloned : Request where
  method := "GET"
  path := "/a"
  query := []
  headers := [("Transfer-Encoding: x", "y")]
  body := []

/-- A request with colons in a name and a return in a value. -/
def odd : Request where
  method := "PUT"
  path := "/a"
  query := [("x", "1")]
  headers := [("a:b:c", "d\re: f"), ("", "")]
  body := [10]

theorem posed_forging : forging.Posed unescaped where
  method := by decide
  methodWord := Text.forall_mem_of_all (by decide)
  path := by decide
  pathWord := Text.forall_mem_of_all (by decide)
  first := by decide
  fits := by decide
  few := by decide
  small := by decide
  uncoded := by decide
  unmeasured := by decide

theorem posed_coloned : coloned.Posed unescaped where
  method := by decide
  methodWord := Text.forall_mem_of_all (by decide)
  path := by decide
  pathWord := Text.forall_mem_of_all (by decide)
  first := by decide
  fits := by decide
  few := by decide
  small := by decide
  uncoded := by decide
  unmeasured := by decide

theorem readable_forged : forged.Readable unescaped where
  method := by decide
  methodWord := Text.forall_mem_of_all (by decide)
  path := by decide
  pathOnly := by decide
  targetWord := Text.forall_mem_of_all (by decide)
  decodes := by decide
  first := by decide
  headers := List.forall_mem_nil _
  uncoded := by decide
  measured := by decide
  few := by decide
  small := by decide

/-- The head of the request ends in its note. -/
theorem reads_forging :
    Reads (readRequest unescaped) (forging.octets unescaped)
      (some { forging with headers := [("X-Note", "a")] })
      (forged.octets unescaped) := by
  have octets : forging.octets unescaped =
      ["GET /a HTTP/1.1", "X-Note: a"].flatMap lineOctets ++
        ([13, 10] ++ forged.octets unescaped) := by
    decide
  have whole : ∀ line ∈ ["GET /a HTTP/1.1", "X-Note: a"], Whole line :=
    List.forall_mem_cons.mpr ⟨⟨by decide, by decide, by decide⟩,
      List.forall_mem_singleton.mpr ⟨by decide, by decide, by decide⟩⟩
  have head := Head.readHead_reads whole (by decide)
    (forged.octets unescaped)
  rw [octets, readRequest_eq]
  refine head.bind ?_
  exact Fallible.reads_pure _ _

/-- The head of the request names a coding that is not read. -/
theorem refuses_coloned :
    Refuses (readRequest unescaped) (coloned.octets unescaped) := by
  have whole : ∀ line ∈ (requestMessage unescaped coloned true).lines,
      Whole line :=
    List.forall_mem_cons.mpr ⟨⟨by decide, by decide, by decide⟩,
      List.forall_mem_cons.mpr ⟨⟨by decide, by decide, by decide⟩,
        List.forall_mem_cons.mpr ⟨⟨by decide, by decide, by decide⟩,
          List.forall_mem_singleton.mpr
            ⟨by decide, by decide, by decide⟩⟩⟩⟩
  have head := Head.readHead_reads whole (by decide)
    (requestMessage unescaped coloned true).content
  rw [readRequest_eq]
  refine head.bind_refuses ?_
  exact Refuses.bind (Fallible.refuses_fail _ _) _

theorem single_odd : odd.Single unescaped where
  method := by decide
  methodWord := Text.forall_mem_of_all (by decide)
  path := by decide
  pathWord := Text.forall_mem_of_all (by decide)
  first := by decide
  fits := by decide
  few := by decide
  small := by decide
  uncoded := by decide
  unmeasured := by decide
  nameLine := by decide
  valueLine := by decide
  notCoding := by decide
  notLength := by decide

end Http
end XmipNet

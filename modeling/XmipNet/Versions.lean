import XmipNet.Http.RoundTrip
import XmipNet.Http2.Message

/-!
# Either version carries the same request and answer

HTTP/2 moves `Host` into `:authority`, makes names small and leaves out what
belongs to an HTTP/1.1 connection; HTTP/1.1 writes lines and adds the fields
that frame them. What a caller asks of the message carried is the same of both.
-/

namespace XmipNet
namespace Versions

open Fallible (Reads)
open Http (Request Response Names Writable find writeRequest writeResponse
  readRequest readResponse)
open Http2 (Violation)
open Http2.Hpack (Field)
open Http2.Message (connectionSpecific pseudo badName listSize check checkNames
  carried requestFields requestOf responseFields responseOf)

/-- Whether the fields of that name are carried as they are. -/
def Travels (name : String) : Prop :=
  Text.lowercase name ∉ connectionSpecific ∧ Text.lowercase name ≠ "te"

/-- The names a message's framing does not use: those that are carried, and but
for the length it states. -/
structure Plain (name : String) : Prop where
  travels : Travels name
  notLength : Text.lowercase name ≠ "content-length"

/-! ## Looking up a header that was carried -/

theorem find_carried
    {headers : List Pair}
    {name : String}
    (travels : Travels name) :
    find (carried headers) name = find headers name := by
  induction headers with
  | nil => rfl
  | cons header rest inductionHypothesis =>
      rw [carried] at inductionHypothesis ⊢
      rw [List.map_cons]
      by_cases names : Names header name
      · have kept : Text.lowercase header.1 ∉ connectionSpecific ∧
            (Text.lowercase header.1 ≠ "te" ∨ header.2 = "trailers") := by
          rw [names]
          exact ⟨travels.1, Or.inl travels.2⟩
        have same : Names (Text.lowercase header.1, header.2) name :=
          (Text.lowercase_lowercase header.1).trans names
        rw [List.filter_cons, if_pos (decide_eq_true kept),
          Http.find_cons_of_names names, Http.find_cons_of_names same]
      · have other : ¬Names (Text.lowercase header.1, header.2) name :=
          fun same => names ((Text.lowercase_lowercase header.1).symm.trans same)
        rw [List.filter_cons, Http.find_cons_of_not_names names]
        split
        · rw [Http.find_cons_of_not_names other]
          exact inductionHypothesis
        · exact inductionHypothesis

theorem of_mem_carried
    {headers : List Pair}
    {field : Field}
    (member : field ∈ carried headers) :
    ∃ header ∈ headers, field = (Text.lowercase header.1, header.2) ∧
      field.1 ∉ connectionSpecific := by
  rw [carried, List.mem_filter, List.mem_map] at member
  obtain ⟨⟨header, present, rfl⟩, kept⟩ := member
  exact ⟨header, present, rfl, (of_decide_eq_true kept).1⟩

/-! ## The list is accepted -/

/-- A regular name: not empty, without a capital or a colon. -/
theorem regular_lowercase
    {name : String}
    (nonempty : name ≠ "")
    (noColon : ':' ∉ name.toList)
    (value : String) :
    badName (Text.lowercase name) = false ∧
      pseudo (Text.lowercase name, value) = false := by
  constructor
  · rw [badName]
    refine decide_eq_false ?_
    rintro (empty | capital)
    · exact nonempty ((Text.lowercase_eq_empty_iff name).mp empty)
    · obtain ⟨octet, member, bounds⟩ := List.any_eq_true.mp capital
      exact Text.not_capital_of_mem_octets_lowercase member
        (of_decide_eq_true bounds)
  · rw [pseudo, Text.opensWith]
    refine decide_eq_false fun opens => noColon ?_
    exact (Text.colon_mem_lowercase_iff name).mp (List.mem_of_mem_head? opens)

/-- A list of regular fields, as a check of names sees it. -/
def Regular (fields : List Field) : Prop :=
  ∀ field ∈ fields, badName field.1 = false ∧ pseudo field = false

theorem regular_carried
    {headers : List Pair}
    (named : ∀ header ∈ headers, header.1 ≠ "")
    (noColon : ∀ header ∈ headers, ':' ∉ header.1.toList) :
    Regular (carried headers) := by
  intro field member
  obtain ⟨header, present, rfl, _⟩ := of_mem_carried member
  exact regular_lowercase (named header present) (noColon header present)
    header.2

theorem checkNames_of_regular
    {fields : List Field}
    (regular : Regular fields)
    (came : Bool) :
    checkNames came fields = .ok () := by
  induction fields generalizing came with
  | nil => rfl
  | cons field rest inductionHypothesis =>
      obtain ⟨⟨named, notPseudo⟩, others⟩ := List.forall_mem_cons.mp regular
      have later : ¬(pseudo field = true ∧ came = true) := by
        rw [notPseudo]
        exact fun both => by cases both.1
      rw [checkNames, named, if_neg Bool.false_ne_true, if_neg later]
      exact inductionHypothesis others _

/-- A pseudo-field before any regular one. -/
theorem checkNames_pseudo
    {name : String}
    (named : badName name = false)
    (opens : Text.opensWith name ':' = true)
    (value : String)
    (rest : List Field) :
    checkNames false ((name, value) :: rest) = checkNames false rest := by
  have isPseudo : pseudo (name, value) = true := opens
  rw [checkNames, isPseudo]
  simp only [named]
  rw [if_neg Bool.false_ne_true, if_neg (by decide)]
  rfl

theorem check_of_checkNames
    {fields : List Field}
    (names : checkNames false fields = .ok ())
    {limit : Nat}
    (within : listSize fields ≤ limit) :
    check fields limit = .ok () := by
  rw [check]
  simp only [if_neg (Nat.not_lt.mpr within), names]

/-- The fields of `:authority`, where a request names a `Host`. -/
def authority (request : Request) : List Field :=
  match request.headerValue "host" with
  | some host => [(":authority", host)]
  | none => []

theorem requestFields_eq
    {codec : Percent}
    {request : Request}
    (present : request.target codec ≠ "")
    (scheme : String) :
    requestFields codec scheme request =
      [(":method", request.method), (":scheme", scheme)] ++
        authority request ++ [(":path", request.target codec)] ++
          carried request.headers := by
  rw [requestFields]
  simp only [if_neg present]
  rfl

theorem checkNames_requestFields
    {codec : Percent}
    {request : Request}
    (present : request.target codec ≠ "")
    (regular : Regular (carried request.headers))
    (scheme : String) :
    checkNames false (requestFields codec scheme request) = .ok () := by
  have tail : checkNames false
      ((":path", request.target codec) :: carried request.headers) = .ok () := by
    rw [checkNames_pseudo (by decide) (by decide)]
    exact checkNames_of_regular regular false
  rw [requestFields_eq present, List.append_assoc, List.append_assoc,
    List.cons_append, List.cons_append, List.nil_append,
    checkNames_pseudo (by decide) (by decide),
    checkNames_pseudo (by decide) (by decide), authority]
  split
  next host named =>
    rw [List.cons_append, List.nil_append,
      checkNames_pseudo (by decide) (by decide)]
    exact tail
  next unnamed => exact tail

theorem checkNames_responseFields
    {response : Response}
    (regular : Regular (carried response.headers)) :
    checkNames false (responseFields response) = .ok () := by
  rw [responseFields,
    checkNames_pseudo (by decide) (by decide)]
  exact checkNames_of_regular regular false

/-! ## What HTTP/2 gives -/

theorem ne_of_not_pseudo
    {field : Field}
    (notPseudo : pseudo field = false)
    {name : String}
    (isPseudo : Text.opensWith name ':' = true) :
    field.1 ≠ name := by
  intro same
  rw [pseudo, same, isPseudo] at notPseudo
  cases notPseudo

/-- Regular fields go onto the headers read. -/
theorem foldlM_add_of_regular
    {fields : List Field}
    (regular : Regular fields)
    (head : Http2.Message.Head) :
    fields.foldlM Http2.Message.Head.add head =
      .ok { head with headers := head.headers ++ fields } := by
  induction fields generalizing head with
  | nil =>
      rw [List.append_nil]
      rfl
  | cons field rest inductionHypothesis =>
      obtain ⟨⟨_, notPseudo⟩, others⟩ := List.forall_mem_cons.mp regular
      have adds : head.add field =
          .ok { head with headers := head.headers ++ [field] } := by
        rw [Http2.Message.Head.add,
          if_neg (ne_of_not_pseudo notPseudo (by decide)),
          if_neg (ne_of_not_pseudo notPseudo (by decide)),
          if_neg (ne_of_not_pseudo notPseudo (by decide)),
          if_neg (ne_of_not_pseudo notPseudo (by decide)), notPseudo,
          if_neg Bool.false_ne_true]
      rw [List.foldlM_cons, adds]
      refine (inductionHypothesis others _).trans ?_
      simp only [List.append_assoc, List.singleton_append]

/-- The headers of a request that HTTP/2 carried. -/
def carriedHeaders (request : Request) : List Pair :=
  (match request.headerValue "host" with
    | some host => [("host", host)]
    | none => []) ++ carried request.headers

/-- The head of a request is read back with its `Host` first. -/
theorem foldlM_add_requestFields
    {codec : Percent}
    {request : Request}
    (present : request.target codec ≠ "")
    (regular : Regular (carried request.headers))
    (scheme : String) :
    (requestFields codec scheme request).foldlM Http2.Message.Head.add
        Http2.Message.Head.empty =
      .ok {
        method := some request.method
        scheme := some scheme
        path := some (request.target codec)
        headers := carriedHeaders request } := by
  have path : ∀ headers : List Pair,
      (((":path", request.target codec) :: carried request.headers).foldlM
          Http2.Message.Head.add
          ({ method := some request.method
             scheme := some scheme
             path := none
             headers } : Http2.Message.Head) : Except Violation _) =
        .ok {
          method := some request.method
          scheme := some scheme
          path := some (request.target codec)
          headers := headers ++ carried request.headers } := by
    intro headers
    have adds : Http2.Message.Head.add
        { method := some request.method
          scheme := some scheme
          path := none
          headers } (":path", request.target codec) =
        .ok {
          method := some request.method
          scheme := some scheme
          path := some (request.target codec)
          headers } := by
      rw [Http2.Message.Head.add, if_neg (show ¬":path" = ":method" by decide),
        if_neg (show ¬":path" = ":scheme" by decide),
        if_pos (show ":path" = ":path" from rfl), if_neg present]
    rw [List.foldlM_cons, adds]
    exact foldlM_add_of_regular regular _
  rw [requestFields_eq present, List.append_assoc, List.append_assoc,
    carriedHeaders, authority]
  cases request.headerValue "host" with
  | some host => exact path [("host", host)]
  | none => exact path []

theorem find_of_lowercase
    {name other : String}
    (same : Text.lowercase name = Text.lowercase other)
    (headers : List Pair) :
    find headers name = find headers other := by
  rw [find, find, same]

/-- A request that HTTP/2 carried has the headers it had. -/
theorem find_carriedHeaders
    {request : Request}
    {name : String}
    (kept : Text.lowercase name = "host" ∨ Travels name) :
    find (carriedHeaders request) name = find request.headers name := by
  rw [carriedHeaders, Request.headerValue]
  rcases kept with host | travels
  · have same : Text.lowercase name = Text.lowercase "host" := host
    rw [find_of_lowercase same request.headers]
    cases find request.headers "host" with
    | some value =>
        have names : Names ("host", value) name := same.symm
        exact Http.find_cons_of_names names _
    | none =>
        refine Http.find_eq_none_iff.mpr fun field member names => ?_
        obtain ⟨header, _, rfl, notSpecific⟩ := of_mem_carried member
        have hosts : Text.lowercase header.1 = "host" := by
          rw [← Text.lowercase_lowercase]
          exact names.trans host
        exact notSpecific (show Text.lowercase header.1 ∈ connectionSpecific by
          rw [hosts]
          decide)
  · have other : ∀ value : String, ¬Names ("host", value) name := by
      intro value names
      have small : Text.lowercase "host" = "host" := by decide
      have host : Text.lowercase name = "host" :=
        Eq.trans (Eq.symm names) small
      exact travels.1 (host ▸ by decide)
    cases find request.headers "host" with
    | some value =>
        exact (Http.find_cons_of_not_names (other value) _).trans
          (find_carried travels)
    | none => exact find_carried travels

/-- What HTTP/2 carries of a request is read back as that request, its headers
but for those that do not travel. -/
theorem requestOf_requestFields
    {codec : Percent}
    {request : Request}
    (present : request.target codec ≠ "")
    (split : Http.splitTarget codec (request.target codec) =
      (request.path, request.query))
    (regular : Regular (carried request.headers))
    (measured : ∀ value, find request.headers "content-length" = some value →
      Text.parseUnsigned 64 value = some request.body.length)
    (scheme : String) :
    requestOf codec (requestFields codec scheme request) request.body =
      .ok { request with headers := carriedHeaders request } := by
  have travels : Travels "content-length" := ⟨by decide, by decide⟩
  have looks : find (carriedHeaders request) "content-length" =
      find request.headers "content-length" :=
    find_carriedHeaders (Or.inr travels)
  have runs := foldlM_add_requestFields present regular scheme
  rw [requestOf, runs]
  simp only [bind, Except.bind, split, Request.headerValue, looks]
  cases states : find request.headers "content-length" with
  | none => rfl
  | some value =>
      simp only [measured value states, ne_eq, not_true_eq_false, if_false]

/-- The answer HTTP/2 carries is read back with the status and the headers it
had. -/
theorem responseOf_responseFields
    {response : Response}
    (status : 100 ≤ response.status ∧ response.status ≤ 999)
    (regular : Regular (carried response.headers))
    (body : List UInt8)
    (trailers : List Field) :
    responseOf (responseFields response) body trailers =
      .ok {
        status := response.status
        reason := Http.reason response.status
        headers := carried response.headers
        body
        trailers } := by
  have reads : Http2.Message.statusOf (toString response.status) =
      some response.status := by
    rw [Http2.Message.statusOf,
      if_pos ((Text.length_octets_toString_eq_three_iff _).mpr status)]
    exact Text.parseUnsigned_toString
      (Nat.lt_of_le_of_lt status.2 (by decide))
  have others : ∀ field ∈ carried response.headers, field.1 ≠ ":status" :=
    fun field member =>
      ne_of_not_pseudo (regular field member).2 (by decide)
  have last : ∀ {fields : List Field}, (∀ field ∈ fields,
      field.1 ≠ ":status") → ∀ status : Option Nat, fields.foldl
        (fun status field =>
          if field.1 = ":status" then Http2.Message.statusOf field.2
          else status) status = status := by
    intro fields
    induction fields with
    | nil => exact fun _ _ => rfl
    | cons field rest inductionHypothesis =>
        intro each status
        obtain ⟨first, later⟩ := List.forall_mem_cons.mp each
        rw [List.foldl_cons, if_neg first]
        exact inductionHypothesis later status
  have kept : (carried response.headers).filter (fun field =>
      field.1 ≠ ":status" ∧ ¬pseudo field) = carried response.headers := by
    refine List.filter_eq_self.mpr fun field member => decide_eq_true ?_
    refine ⟨others field member, ?_⟩
    rw [(regular field member).2]
    exact Bool.false_ne_true
  have dropped : ¬(decide ((":status", toString response.status).1 ≠ ":status" ∧
      ¬pseudo (":status", toString response.status) = true)) = true := by
    rw [decide_eq_true_iff]
    exact fun both => both.1 rfl
  rw [responseOf, responseFields, List.foldl_cons, if_pos rfl, reads,
    last others, List.filter_cons, if_neg dropped, kept]

/-! ## What a caller asks of a message -/

/-- Two requests that are the same to a caller who asks for no field of the
framing. -/
structure SameRequest (first second : Request) : Prop where
  method : first.method = second.method
  path : first.path = second.path
  query : first.query = second.query
  body : first.body = second.body
  headers : ∀ name, Text.lowercase name = "host" ∨ Plain name →
    first.headerValue name = second.headerValue name

/-- Two answers that are the same to such a caller. -/
structure SameResponse (first second : Response) : Prop where
  status : first.status = second.status
  body : first.body = second.body
  headers : ∀ name, Plain name →
    first.headerValue name = second.headerValue name
  trailers : ∀ name, Travels name →
    first.trailerValue name = second.trailerValue name

theorem SameRequest.trans_symm
    {first second third : Request}
    (same : SameRequest first second)
    (other : SameRequest third second) :
    SameRequest first third where
  method := same.method.trans other.method.symm
  path := same.path.trans other.path.symm
  query := same.query.trans other.query.symm
  body := same.body.trans other.body.symm
  headers name kept := (same.headers name kept).trans
    (other.headers name kept).symm

theorem SameResponse.trans_symm
    {first second third : Response}
    (same : SameResponse first second)
    (other : SameResponse third second) :
    SameResponse first third where
  status := same.status.trans other.status.symm
  body := same.body.trans other.body.symm
  headers name kept := (same.headers name kept).trans
    (other.headers name kept).symm
  trailers name kept := (same.trailers name kept).trans
    (other.trailers name kept).symm

/-- The fields a writer adds are of its framing and the connection. -/
theorem find_framing
    (message : Http.Message)
    {name : String}
    (notConnection : Text.lowercase name ≠ "connection")
    (notCoding : Text.lowercase name ≠ "transfer-encoding")
    (notLength : Text.lowercase name ≠ "content-length") :
    find message.framing name = none := by
  have closes := message.find_closeFields notConnection
  cases carries : message.bodiless with
  | true => rw [Http.Message.framing_of_bodiless carries, closes]
  | false =>
      by_cases plain : message.trailers = []
      · have small : Text.lowercase "Content-Length" = "content-length" := by
          decide
        have other : ¬Names ("Content-Length", toString message.body.length)
            name := fun names => notLength (Eq.trans (Eq.symm names) small)
        rw [Http.Message.framing_of_plain carries plain,
          Http.find_cons_of_not_names other, closes]
      · have other : ¬Names ("Transfer-Encoding", "chunked") name :=
          fun names => notCoding names.symm
        rw [Http.Message.framing_of_trailers carries plain,
          Http.find_cons_of_not_names other, closes]

theorem find_append_framing
    (headers : List Pair)
    (message : Http.Message)
    {name : String}
    (kept : Text.lowercase name = "host" ∨ Plain name) :
    find (headers ++ message.framing) name = find headers name := by
  have added : find message.framing name = none := by
    rcases kept with host | plain
    · refine find_framing message ?_ ?_ ?_ <;> rw [host] <;> decide
    · have member : ∀ other ∈ connectionSpecific, Text.lowercase name ≠ other :=
        fun other present same => plain.travels.1 (same ▸ present)
      exact find_framing message (member _ (by decide)) (member _ (by decide))
        plain.notLength
  rw [Http.find_append, added, Option.or_none]

/-! ## Both versions -/

theorem parseUnsigned_of_contentLength
    {value : String}
    {length : Nat}
    (states : Http.Body.contentLength value = some length) :
    Text.parseUnsigned 64 value = some length := by
  rw [Http.Body.contentLength] at states
  split at states
  · exact states
  · cases states

theorem regular_of_writable
    {headers : List Pair}
    (writable : ∀ header ∈ headers, Writable header)
    (named : ∀ header ∈ headers, header.1 ≠ "") :
    Regular (carried headers) :=
  regular_carried named fun header member =>
    (writable header member).plain.noColon

/-- What either version carries of a request is that request. -/
theorem sameRequest_readBack (codec : Percent) (request : Request) :
    SameRequest (request.readBack codec) request where
  method := rfl
  path := rfl
  query := rfl
  body := rfl
  headers _ kept := find_append_framing request.headers _ kept

theorem sameRequest_carriedHeaders (request : Request) :
    SameRequest { request with headers := carriedHeaders request } request where
  method := rfl
  path := rfl
  query := rfl
  body := rfl
  headers _ kept := find_carriedHeaders (kept.imp_right Plain.travels)

theorem sameResponse_readBack (response : Response) :
    SameResponse response.readBack response where
  status := rfl
  body := rfl
  headers _ plain := find_append_framing response.headers _ (Or.inr plain)
  trailers _ _ := rfl

theorem sameResponse_carried (response : Response) (phrase : String) :
    SameResponse
      { response with
        reason := phrase
        headers := carried response.headers
        trailers := carried response.trailers }
      response where
  status := rfl
  body := rfl
  headers _ plain := find_carried plain.travels
  trailers _ travels := find_carried travels

/-- A request and an answer are the same to a caller whichever version carried
them: HTTP/2 accepts the fields it makes of them, and what it reads of those is
what HTTP/1.1 reads of what it wrote. -/
theorem versions_agree (codec : Percent) :
    (∀ {request : Request} {wire after : Wire} (scheme : String),
      request.Readable codec →
      (∀ header ∈ request.headers, header.1 ≠ "") →
      writeRequest codec request wire = (.ok (), after) →
      (∀ limit, listSize (requestFields codec scheme request) ≤ limit →
        check (requestFields codec scheme request) limit = .ok ()) ∧
      ∃ octets first second,
        after.written = wire.written ++ octets ∧
        (∀ rest, Reads (readRequest codec) (octets ++ rest) (some first) rest) ∧
        requestOf codec (requestFields codec scheme request) request.body =
          .ok second ∧
        SameRequest first request ∧ SameRequest second request ∧
          SameRequest first second) ∧
    ∀ {response : Response} {wire after : Wire},
      response.Readable →
      (∀ header ∈ response.headers, header.1 ≠ "") →
      writeResponse response wire = (.ok (), after) →
      (∀ limit, listSize (responseFields response) ≤ limit →
        check (responseFields response) limit = .ok ()) ∧
      ∃ octets first second,
        after.written = wire.written ++ octets ∧
        (∀ rest, Reads readResponse (octets ++ rest) first rest) ∧
        responseOf (responseFields response) response.body
          (carried response.trailers) = .ok second ∧
        SameResponse first response ∧ SameResponse second response ∧
          SameResponse first second := by
  constructor
  · intro request wire after scheme readable named writes
    have regular := regular_of_writable readable.headers named
    have present := Request.target_ne_empty codec readable.path
    have split :=
      Request.splitTarget_target readable.pathOnly readable.decodes
    have measured : ∀ value,
        find request.headers "content-length" = some value →
          Text.parseUnsigned 64 value = some request.body.length := by
      intro value found
      obtain ⟨field, member, names, rfl⟩ := Http.of_find found
      exact parseUnsigned_of_contentLength
        (readable.measured field member names)
    have reads := requestOf_requestFields present split regular measured scheme
    have first := sameRequest_readBack codec request
    have second := sameRequest_carriedHeaders request
    refine ⟨fun limit => check_of_checkNames
      (checkNames_requestFields present regular scheme), ?_⟩
    exact ⟨request.octets codec, request.readBack codec, _,
      Http.written_of_writeRequest writes, readable.reads, reads, first, second,
      first.trans_symm second⟩
  · intro response wire after readable named writes
    have regular := regular_of_writable readable.headers named
    have reads := responseOf_responseFields readable.status regular
      response.body (carried response.trailers)
    have first := sameResponse_readBack response
    have second := sameResponse_carried response (Http.reason response.status)
    refine ⟨fun limit => check_of_checkNames
      (checkNames_responseFields regular), ?_⟩
    exact ⟨response.octets, response.readBack, _,
      Http.written_of_writeResponse writes, readable.reads, reads, first, second,
      first.trans_symm second⟩

theorem versions_agree_putting_trailing :
    (∃ octets first second,
      (writeRequest Http.unescaped Http.putting Http.silent).2.written =
        Http.silent.written ++ octets ∧
      (∀ rest, Reads (readRequest Http.unescaped) (octets ++ rest) (some first)
        rest) ∧
      requestOf Http.unescaped
          (requestFields Http.unescaped "https" Http.putting)
          Http.putting.body = .ok second ∧
      SameRequest first Http.putting ∧ SameRequest second Http.putting ∧
        SameRequest first second) ∧
    ∃ octets first second,
      (writeResponse Http.trailing Http.silent).2.written =
        Http.silent.written ++ octets ∧
      (∀ rest, Reads readResponse (octets ++ rest) first rest) ∧
      responseOf (responseFields Http.trailing) Http.trailing.body
          (carried Http.trailing.trailers) = .ok second ∧
      SameResponse first Http.trailing ∧ SameResponse second Http.trailing ∧
        SameResponse first second :=
  ⟨((versions_agree Http.unescaped).1 "https" Http.readable_putting (by decide)
      rfl).2,
    ((versions_agree Http.unescaped).2 Http.readable_trailing (by decide)
      rfl).2⟩

end Versions
end XmipNet

import XmipNet.Http.Legible
import XmipNet.Http2.Message

/-!
# Requests that are malformed

A request's list of fields is well formed where each pseudo-field of a request
is there once, the authority at most once, before every other field, and every
length it states is the body's. Two checks share the work of refusing the others
and let two kinds through: a pseudo-field that is repeated, the last of which
counts, and lengths after the first or written with a sign.
-/

namespace XmipNet
namespace Http2
namespace Message

open Hpack (Field)
open Http (Request find Names)

/-- The pseudo-fields of a request. -/
def requestPseudo : List String :=
  [":method", ":scheme", ":path", ":authority"]

/-- How many fields of a list have a name. -/
def count (name : String) (fields : List Field) : Nat :=
  fields.countP fun field => field.1 = name

/-- A request's fields and body are well formed. -/
structure WellFormed (fields : List Field) (body : List UInt8) : Prop where
  method : count ":method" fields = 1
  scheme : count ":scheme" fields = 1
  path : count ":path" fields = 1
  authority : count ":authority" fields ≤ 1
  known : ∀ field ∈ fields, pseudo field = true → field.1 ∈ requestPseudo
  ordered : fields.Pairwise fun earlier later =>
    pseudo later = true → pseudo earlier = true
  lengths : ∀ field ∈ fields, field.1 = "content-length" →
    Text.allDigits field.2 = true ∧
      Text.decimal field.2.toList = body.length

/-- A request holds what every field of its list says. -/
structure Holds
    (codec : Percent)
    (request : Request)
    (fields : List Field) : Prop where
  method : ∀ field ∈ fields, field.1 = ":method" → request.method = field.2
  path : ∀ field ∈ fields, field.1 = ":path" →
    (request.path, request.query) = Http.splitTarget codec field.2
  authority : ∀ field ∈ fields, field.1 = ":authority" →
    request.headers.head? = some ("host", field.2)
  regular : ∀ field ∈ fields, pseudo field = false → field ∈ request.headers

/-- No pseudo-field of a request is repeated, and the lengths that are stated
are digits alone, and of one number. -/
structure Unrepeated (fields : List Field) : Prop where
  once : ∀ name ∈ requestPseudo, count name fields ≤ 1
  digits : ∀ field ∈ fields, field.1 = "content-length" →
    Text.allDigits field.2 = true
  agree : ∀ first ∈ fields, ∀ second ∈ fields,
    first.1 = "content-length" → second.1 = "content-length" →
      Text.decimal first.2.toList = Text.decimal second.2.toList

/-! ## What the names of a list say -/

theorem of_checkNames
    {regular : Bool}
    {fields : List Field}
    (checks : checkNames regular fields = .ok ()) :
    (∀ field ∈ fields, badName field.1 = false) ∧
      (regular = true → ∀ field ∈ fields, pseudo field = false) ∧
        fields.Pairwise fun earlier later =>
          pseudo later = true → pseudo earlier = true := by
  induction fields generalizing regular with
  | nil =>
      exact ⟨List.forall_mem_nil _, fun _ => List.forall_mem_nil _, .nil⟩
  | cons field rest inductionHypothesis =>
      rw [checkNames] at checks
      split at checks
      · cases checks
      next good =>
        split at checks
        · cases checks
        next inOrder =>
          obtain ⟨names, none, ordered⟩ := inductionHypothesis checks
          have name : badName field.1 = false := Bool.eq_false_iff.mpr good
          refine ⟨List.forall_mem_cons.mpr ⟨name, names⟩, ?_, ?_⟩
          · intro came
            have first : pseudo field = false := Bool.eq_false_iff.mpr
              fun isPseudo => inOrder ⟨isPseudo, came⟩
            refine List.forall_mem_cons.mpr ⟨first, none ?_⟩
            rw [came, Bool.true_or]
          · refine List.pairwise_cons.mpr ⟨?_, ordered⟩
            intro later member isPseudo
            by_contra notPseudo
            have regulars := none (by
              rw [Bool.eq_false_iff.mpr notPseudo]
              exact Bool.or_true regular) later member
            rw [isPseudo] at regulars
            cases regulars

theorem of_check
    {fields : List Field}
    {limit : Nat}
    (checks : check fields limit = .ok ()) :
    (∀ field ∈ fields, badName field.1 = false) ∧
      fields.Pairwise fun earlier later =>
        pseudo later = true → pseudo earlier = true := by
  rw [check] at checks
  split at checks
  · cases checks
  · obtain ⟨names, _, ordered⟩ := of_checkNames checks
    exact ⟨names, ordered⟩

/-- A name that is checked has no capitals. -/
theorem lowercase_of_not_badName
    {name : String}
    (good : badName name = false) :
    Text.lowercase name = name := by
  rw [badName, decide_eq_false_iff_not, not_or] at good
  have small : ∀ character ∈ name.toList, character.toLower = character := by
    intro character member
    refine Char.toNat_inj.mp ?_
    rw [Text.toNat_toLower, if_neg]
    intro capital
    have number : (UInt8.ofNat character.toNat).toNat = character.toNat :=
      UInt8.toNat_ofNat_of_lt' (by
        have room : 90 < UInt8.size := by decide
        omega)
    have present : UInt8.ofNat character.toNat ∈ Text.octets name := by
      rw [Text.octets_eq]
      exact (Utf8.mem_encode_iff number (by omega) name.toList).mpr member
    refine good.2 (List.any_eq_true.mpr ⟨_, present, decide_eq_true ?_⟩)
    rw [UInt8.le_iff_toNat_le, UInt8.le_iff_toNat_le, number]
    exact capital
  have same : name.toList.map Char.toLower = name.toList.map id :=
    List.map_congr_left small
  rw [Text.lowercase, same, List.map_id, String.ofList_toList]

/-! ## What a request is made of -/

/-- The value the last field of a name leaves, `value` of its text. -/
def last
    {α : Type}
    (name : String)
    (value : String → α)
    (fields : List Field)
    (start : α) : α :=
  fields.foldl
    (fun seen field => if field.1 = name then value field.2 else seen) start

theorem count_cons
    (name : String)
    (field : Field)
    (rest : List Field) :
    count name (field :: rest) =
      count name rest + if field.1 = name then 1 else 0 := by
  rw [count, count, List.countP_cons]
  simp only [decide_eq_true_eq]

section Last

variable {α : Type} {name : String} {value : String → α}

theorem last_of_absent
    {fields : List Field}
    (absent : count name fields = 0)
    (start : α) :
    last name value fields start = start := by
  induction fields generalizing start with
  | nil => rfl
  | cons field rest inductionHypothesis =>
      rw [count_cons] at absent
      by_cases named : field.1 = name
      · rw [if_pos named] at absent
        cases absent
      · rw [if_neg named] at absent
        rw [last, List.foldl_cons, if_neg named]
        exact inductionHypothesis absent start

/-- A field whose name is there once is the one that counts. -/
theorem last_of_once
    {fields : List Field}
    (once : count name fields ≤ 1)
    {field : Field}
    (member : field ∈ fields)
    (named : field.1 = name)
    (start : α) :
    last name value fields start = value field.2 := by
  induction fields generalizing start with
  | nil => exact absurd member List.not_mem_nil
  | cons head rest inductionHypothesis =>
      rw [last, List.foldl_cons, ← last]
      rw [count_cons] at once
      rcases List.mem_cons.mp member with rfl | later
      · rw [if_pos named] at once ⊢
        exact last_of_absent (Nat.le_zero.mp (Nat.le_of_succ_le_succ once)) _
      · exact inductionHypothesis (Nat.le_trans (Nat.le_add_right _ _) once)
          later _

/-- What a field leaves is there only where one of its name is. -/
theorem count_pos_of_last
    {fields : List Field}
    {start : α}
    (changed : last name value fields start ≠ start) :
    1 ≤ count name fields := by
  by_contra none
  exact changed (last_of_absent (by omega) start)

end Last

/-- The hosts that a list's authorities are. -/
def hosts (fields : List Field) : List Pair :=
  (fields.filter fun field => field.1 = ":authority").map fun field =>
    ("host", field.2)

/-- The fields of a list that are no pseudo-fields. -/
def regulars (fields : List Field) : List Field :=
  fields.filter fun field => !pseudo field

theorem hosts_cons (field : Field) (rest : List Field) :
    hosts (field :: rest) = hosts [field] ++ hosts rest := by
  rw [hosts, hosts, hosts, ← List.map_append, ← List.filter_append,
    List.singleton_append]

theorem regulars_cons (field : Field) (rest : List Field) :
    regulars (field :: rest) = regulars [field] ++ regulars rest := by
  rw [regulars, regulars, regulars, ← List.filter_append, List.singleton_append]

theorem hosts_of_not
    {field : Field}
    (other : field.1 ≠ ":authority") :
    hosts [field] = [] := by
  rw [hosts, List.filter_singleton, decide_eq_false other]
  rfl

theorem regulars_of_pseudo
    {field : Field}
    (isPseudo : pseudo field = true) :
    regulars [field] = [] := by
  rw [regulars, List.filter_singleton, isPseudo]
  rfl

theorem regulars_of_not_pseudo
    {field : Field}
    (regular : pseudo field = false) :
    regulars [field] = [field] := by
  rw [regulars, List.filter_singleton, regular]
  rfl

/-- What reading a request's fields leaves of each. -/
structure Taken (head : Head) (fields : List Field) (final : Head) : Prop where
  method : final.method = last ":method" some fields head.method
  scheme : final.scheme = last ":scheme" some fields head.scheme
  path : final.path = last ":path"
    (fun value => if value = "" then none else some value) fields head.path
  headers : final.headers =
    (hosts fields).reverse ++ head.headers ++ regulars fields
  known : ∀ field ∈ fields, pseudo field = true → field.1 ∈ requestPseudo

theorem pseudo_of_mem
    {field : Field}
    (known : field.1 ∈ requestPseudo) :
    pseudo field = true := by
  have all : ∀ name ∈ requestPseudo, Text.opensWith name ':' = true := by decide
  exact all field.1 known

theorem headers_of_pseudo
    {field : Field}
    (known : field.1 ∈ requestPseudo)
    (other : field.1 ≠ ":authority")
    (headers : List Pair) :
    headers = (hosts [field]).reverse ++ headers ++ regulars [field] := by
  rw [hosts_of_not other, regulars_of_pseudo (pseudo_of_mem known),
    List.append_nil, List.reverse_nil, List.nil_append]

theorem taken_of_add
    {head next : Head}
    {field : Field}
    (adds : head.add field = .ok next) :
    Taken head [field] next := by
  rcases field with ⟨name, value⟩
  rw [Head.add] at adds
  split at adds
  next method =>
    obtain rfl : name = ":method" := method
    have known : ":method" ∈ requestPseudo := by decide
    cases adds
    exact ⟨rfl, rfl, rfl, headers_of_pseudo known (by decide : ":method" ≠ _) _,
      List.forall_mem_singleton.mpr fun _ => known⟩
  next notMethod =>
    split at adds
    next scheme =>
      obtain rfl : name = ":scheme" := scheme
      have known : ":scheme" ∈ requestPseudo := by decide
      cases adds
      exact ⟨rfl, rfl, rfl,
        headers_of_pseudo known (by decide : ":scheme" ≠ _) _,
        List.forall_mem_singleton.mpr fun _ => known⟩
    next notScheme =>
      split at adds
      next path =>
        obtain rfl : name = ":path" := path
        have known : ":path" ∈ requestPseudo := by decide
        cases adds
        exact ⟨rfl, rfl, rfl, headers_of_pseudo known (by decide : ":path" ≠ _) _,
          List.forall_mem_singleton.mpr fun _ => known⟩
      next notPath =>
        split at adds
        next authority =>
          obtain rfl : name = ":authority" := authority
          have known : ":authority" ∈ requestPseudo := by decide
          have none : regulars [(":authority", value)] = [] :=
            regulars_of_pseudo (pseudo_of_mem known)
          cases adds
          refine ⟨rfl, rfl, rfl, ?_, List.forall_mem_singleton.mpr fun _ => known⟩
          rw [none, List.append_nil]
          rfl
        next notAuthority =>
          split at adds
          · cases adds
          next regular =>
            have plain : pseudo (name, value) = false :=
              Bool.eq_false_iff.mpr regular
            have none : hosts [(name, value)] = [] := hosts_of_not notAuthority
            cases adds
            refine ⟨(if_neg notMethod).symm, (if_neg notScheme).symm,
              (if_neg notPath).symm, ?_,
              List.forall_mem_singleton.mpr fun isPseudo =>
                absurd isPseudo regular⟩
            rw [none, regulars_of_not_pseudo plain, List.reverse_nil,
              List.nil_append]

theorem taken_of_foldlM
    {head final : Head}
    {fields : List Field}
    (reads : fields.foldlM Head.add head = .ok final) :
    Taken head fields final := by
  induction fields generalizing head with
  | nil =>
      cases reads
      refine ⟨rfl, rfl, rfl, ?_, List.forall_mem_nil _⟩
      exact (List.append_nil final.headers).symm
  | cons field rest inductionHypothesis =>
      rw [List.foldlM_cons] at reads
      cases adds : head.add field with
      | error violation =>
          rw [adds] at reads
          cases reads
      | ok next =>
          rw [adds] at reads
          have first := taken_of_add adds
          have later := inductionHypothesis reads
          refine ⟨?_, ?_, ?_, ?_, ?_⟩
          · rw [later.method, first.method]
            rfl
          · rw [later.scheme, first.scheme]
            rfl
          · rw [later.path, first.path]
            rfl
          · rw [later.headers, first.headers, hosts_cons field rest,
              regulars_cons field rest, List.reverse_append]
            simp only [List.append_assoc]
          · exact List.forall_mem_cons.mpr
              ⟨List.forall_mem_singleton.mp first.known, later.known⟩

/-! ## What is accepted -/

/-- What a request that is accepted was read from. -/
theorem of_requestOf
    {codec : Percent}
    {fields : List Field}
    {body : List UInt8}
    {request : Request}
    (accepts : requestOf codec fields body = .ok request) :
    ∃ final target, Taken Head.empty fields final ∧
      final.method = some request.method ∧ final.scheme ≠ none ∧
      final.path = some target ∧
      (request.path, request.query) = Http.splitTarget codec target ∧
      request.headers = final.headers ∧
      (∀ length, find final.headers "content-length" = some length →
        Text.parseUnsigned 64 length = some body.length) := by
  cases reads : fields.foldlM Head.add Head.empty with
  | error violation =>
      rw [requestOf, reads] at accepts
      cases accepts
  | ok final =>
      have taken := taken_of_foldlM reads
      rw [requestOf, reads] at accepts
      simp only [bind, Except.bind] at accepts
      split at accepts
      next method scheme target isMethod isScheme isPath =>
        split at accepts
        next length states =>
          split at accepts
          · cases accepts
          next agrees =>
            cases accepts
            refine ⟨final, target, taken, isMethod, ?_, isPath, rfl, rfl, ?_⟩
            · rw [isScheme]
              exact Option.some_ne_none scheme
            · intro other found
              obtain rfl := Option.some.inj (found.symm.trans states)
              exact Decidable.not_not.mp agrees
        next absent =>
          cases accepts
          refine ⟨final, target, taken, isMethod, ?_, isPath, rfl, rfl, ?_⟩
          · rw [isScheme]
            exact Option.some_ne_none scheme
          · intro other found
            cases found.symm.trans absent
      · cases accepts

/-- A request that is accepted has a method, a scheme and a path. -/
theorem counts_of_requestOf
    {codec : Percent}
    {fields : List Field}
    {body : List UInt8}
    {request : Request}
    (accepts : requestOf codec fields body = .ok request) :
    1 ≤ count ":method" fields ∧ 1 ≤ count ":scheme" fields ∧
      1 ≤ count ":path" fields := by
  obtain ⟨final, target, taken, method, scheme, path, _⟩ := of_requestOf accepts
  rw [taken.method] at method
  rw [taken.scheme] at scheme
  rw [taken.path] at path
  have changed : last ":method" some fields Head.empty.method ≠
      Head.empty.method := by
    rw [method]
    exact Option.some_ne_none request.method
  have routed : last ":path" (fun value => if value = "" then none else some value)
      fields Head.empty.path ≠ Head.empty.path := by
    rw [path]
    exact Option.some_ne_none target
  have schemed : last ":scheme" some fields Head.empty.scheme ≠
      Head.empty.scheme := scheme
  exact ⟨count_pos_of_last changed, count_pos_of_last schemed,
    count_pos_of_last routed⟩

/-- A list's one authority is its one host. -/
theorem hosts_of_once
    {fields : List Field}
    (once : count ":authority" fields ≤ 1)
    {field : Field}
    (member : field ∈ fields)
    (named : field.1 = ":authority") :
    hosts fields = [("host", field.2)] := by
  have present : field ∈ fields.filter fun field => field.1 = ":authority" :=
    List.mem_filter.mpr ⟨member, decide_eq_true named⟩
  rw [count, List.countP_eq_length_filter] at once
  have one := Nat.le_antisymm once (List.length_pos_of_mem present)
  obtain ⟨only, same⟩ := List.length_eq_one_iff.mp one
  rw [same] at present
  rw [hosts, same, List.mem_singleton.mp present, List.map_singleton]

/-- The length that is looked up is one the list states. -/
theorem find_contentLength
    {fields : List Field}
    (names : ∀ field ∈ fields, badName field.1 = false)
    {final : Head}
    (taken : Taken Head.empty fields final) :
    (∀ value, find final.headers "content-length" = some value →
      ∃ field ∈ fields, field.1 = "content-length" ∧ field.2 = value) ∧
    ((∃ field ∈ fields, field.1 = "content-length") →
      ∃ value, find final.headers "content-length" = some value) := by
  have length : Text.lowercase "content-length" = "content-length" := by decide
  have headers : final.headers = (hosts fields).reverse ++ regulars fields := by
    rw [taken.headers]
    exact congrArg (fun front => front ++ regulars fields) (List.append_nil _)
  rw [headers]
  constructor
  · intro value looked
    obtain ⟨field, member, named, same⟩ := Http.of_find looked
    rw [Names, length] at named
    rcases List.mem_append.mp member with host | regular
    · obtain ⟨source, _, rfl⟩ := List.mem_map.mp (List.mem_reverse.mp host)
      exact absurd named (by decide : Text.lowercase "host" ≠ "content-length")
    · have present := (List.mem_filter.mp regular).1
      rw [lowercase_of_not_badName (names field present)] at named
      exact ⟨field, present, named, same⟩
  · rintro ⟨field, member, named⟩
    refine Option.ne_none_iff_exists'.mp fun absent => ?_
    have plain : pseudo field = false := by
      rw [pseudo, named]
      decide
    have regular : field ∈ regulars fields := List.mem_filter.mpr ⟨member, by
      rw [plain]
      rfl⟩
    refine Http.find_eq_none_iff.mp absent field
      (List.mem_append_right _ regular) ?_
    rw [Names, named]

/-- What is not malformed is well formed, and the request is what it says. -/
theorem wellFormed_of_unrepeated
    {codec : Percent}
    {fields : List Field}
    {limit : Nat}
    {body : List UInt8}
    {request : Request}
    (checks : check fields limit = .ok ())
    (accepts : requestOf codec fields body = .ok request)
    (unrepeated : Unrepeated fields) :
    WellFormed fields body ∧ Holds codec request fields := by
  obtain ⟨names, ordered⟩ := of_check checks
  obtain ⟨methods, schemes, paths⟩ := counts_of_requestOf accepts
  obtain ⟨final, target, taken, method, scheme, path, split, headers, length⟩ :=
    of_requestOf accepts
  obtain ⟨found, finds⟩ := find_contentLength names taken
  have once : ∀ name ∈ requestPseudo, count name fields ≤ 1 := unrepeated.once
  have oneMethod := once ":method" (by decide)
  have oneScheme := once ":scheme" (by decide)
  have onePath := once ":path" (by decide)
  have oneAuthority := once ":authority" (by decide)
  refine ⟨⟨by omega, by omega, by omega, oneAuthority, taken.known, ordered, ?_⟩,
    ⟨?_, ?_, ?_, ?_⟩⟩
  · intro field member named
    have digits := unrepeated.digits field member named
    obtain ⟨value, looked⟩ := finds ⟨field, member, named⟩
    obtain ⟨first, present, states, rfl⟩ := found value looked
    refine ⟨digits, ?_⟩
    rw [unrepeated.agree field member first present named states]
    exact Text.decimal_of_parseUnsigned (unrepeated.digits first present states)
      (length first.2 looked)
  · intro field member named
    rw [taken.method, last_of_once oneMethod member named] at method
    exact (Option.some.inj method).symm
  · intro field member named
    rw [taken.path, last_of_once onePath member named] at path
    have same : field.2 = target := by
      split at path
      · cases path
      · exact Option.some.inj path
    rw [same]
    exact split
  · intro field member named
    rw [headers, taken.headers, hosts_of_once oneAuthority member named]
    rfl
  · intro field member regular
    rw [headers, taken.headers]
    exact List.mem_append_right _ (List.mem_filter.mpr ⟨member, by
      rw [regular]
      rfl⟩)

/-- A request that is accepted is well formed, and holds what its list says,
where and only where no pseudo-field is repeated and the lengths it states are
digits alone and of one number. -/
theorem wellFormed_iff
    {codec : Percent}
    {fields : List Field}
    {limit : Nat}
    {body : List UInt8}
    {request : Request}
    (checks : check fields limit = .ok ())
    (accepts : requestOf codec fields body = .ok request) :
    (WellFormed fields body ∧ Holds codec request fields) ↔
      Unrepeated fields := by
  refine ⟨?_, wellFormed_of_unrepeated checks accepts⟩
  rintro ⟨formed, _⟩
  refine ⟨?_, fun field member named => (formed.lengths field member named).1,
    ?_⟩
  · have all : ∀ name ∈ requestPseudo, count name fields ≤ 1 := by
      intro name member
      simp only [requestPseudo, List.mem_cons, List.not_mem_nil, or_false]
        at member
      rcases member with rfl | rfl | rfl | rfl
      · exact formed.method.le
      · exact formed.scheme.le
      · exact formed.path.le
      · exact formed.authority
    exact all
  · intro first member second present named states
    rw [(formed.lengths first member named).2,
      (formed.lengths second present states).2]

theorem wellFormed_iff_stated :
    (WellFormed
        [(":method", "PUT"), (":scheme", "http"), (":path", "/"),
          (":authority", "localhost"), ("content-length", "2")]
        [104, 105] ∧
      Holds Percent.bare
        { method := "PUT"
          path := "/"
          query := []
          headers := [("host", "localhost"), ("content-length", "2")]
          body := [104, 105] }
        [(":method", "PUT"), (":scheme", "http"), (":path", "/"),
          (":authority", "localhost"), ("content-length", "2")]) ↔
      Unrepeated
        [(":method", "PUT"), (":scheme", "http"), (":path", "/"),
          (":authority", "localhost"), ("content-length", "2")] := by
  have checks : check
      [(":method", "PUT"), (":scheme", "http"), (":path", "/"),
        (":authority", "localhost"), ("content-length", "2")] 16384 = .ok () :=
    rfl
  exact wellFormed_iff checks rfl

/-- A method that is stated twice is accepted, and the later overrides. -/
theorem overridden :
    ¬∀ (codec : Percent) (fields : List Field) (limit : Nat)
        (body : List UInt8) (request : Request),
      check fields limit = .ok () →
        requestOf codec fields body = .ok request →
          WellFormed fields body ∧ Holds codec request fields := by
  intro holds
  obtain ⟨formed, _⟩ := holds Percent.bare
    [(":method", "GET"), (":scheme", "http"), (":path", "/"),
      (":method", "PUT")] 16384 []
    { method := "PUT", path := "/", query := [], headers := [], body := [] }
    rfl rfl
  exact absurd formed.method (by decide)

end Message
end Http2
end XmipNet

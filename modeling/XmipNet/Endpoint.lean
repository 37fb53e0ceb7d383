import XmipNet.Target

/-!
# Where an HTTP server is

A host, a port and a path, read under the schemes a technology declares. What an
endpoint writes of itself is read as the same endpoint.
-/

namespace XmipNet

/-- The schemes an endpoint is written in: those that are plain HTTP on the wire
and those that are secure. -/
structure Schemes where
  plain : List String
  secure : List String
  deriving DecidableEq, Repr

namespace Schemes

/-- HTTP's own two. -/
def http : Schemes where
  plain := ["http"]
  secure := ["https"]

/-- The schemes as a refusal names them. -/
def named (schemes : Schemes) : String :=
  "an " ++ " or ".intercalate
    ((schemes.plain ++ schemes.secure).map (· ++ "://")) ++ " URL"

end Schemes

/-- Where an HTTP server is: whether it is asked for TLS, the host, the port
where one was named or given, and the path. -/
structure Endpoint where
  secure : Bool
  host : String
  port : Option Nat
  path : String
  deriving DecidableEq, Repr

namespace Endpoint

open Target (Free Parts opened information)

/-- Read `url` under the schemes a technology declares. -/
def parseUnder (url : String) (schemes : Schemes) : Except Halt Endpoint := do
  let target ← Halt.ok (Target.parse url)
  match target.filter fun target =>
      target.is schemes.plain || target.is schemes.secure with
  | none => .error (.refused (.new s!"'{url}' is not {schemes.named}"))
  | some target =>
      let (host, port) ← target.hostAndPort.mapError Halt.refused
      let absolute ← target.absolute
      let path ← Text.sliceFrom absolute (Text.size target.root)
      pure {
        secure := target.is schemes.secure
        host
        port
        path := if Text.opensWith path '/' then path else "/" ++ path }

/-- Read `url` under HTTP's own schemes. -/
def parse (url : String) : Except Halt Endpoint :=
  parseUnder url Schemes.http

/-- The same endpoint with `port` where none was named. -/
def orPort (endpoint : Endpoint) (port : Nat) : Endpoint :=
  { endpoint with port := some (endpoint.port.getD port) }

/-- The port of the scheme. -/
def schemePort (endpoint : Endpoint) : Nat :=
  if endpoint.secure then 443 else 80

/-- The port: the one named or given, or else the scheme's. -/
def portNumber (endpoint : Endpoint) : Nat :=
  endpoint.port.getD endpoint.schemePort

/-- The host and the port, always written. -/
def address (endpoint : Endpoint) : String :=
  Authority.bracketed endpoint.host ++ ":" ++ toString endpoint.portNumber

/-- The host, and the port unless it is the scheme's own. -/
def authority (endpoint : Endpoint) : String :=
  if endpoint.portNumber = endpoint.schemePort then
    Authority.bracketed endpoint.host
  else
    endpoint.address

/-- The same endpoint, refused where it asks for TLS. -/
def plain (endpoint : Endpoint) : Except NetError Endpoint :=
  if endpoint.secure then
    .error (.new (s!"'https://{endpoint.address}' asks for TLS, " ++
      "and this client speaks plain HTTP/1.1 only"))
  else
    .ok endpoint

/-! ## An authority and a path -/

theorem exists_parts
    {authority path : String}
    (free : Free ['/', '?', '#', '@'] authority)
    (opens : Text.opensWith path '/' = true)
    (noFragment : '#' ∉ path.toList) :
    ∃ parts : Parts, parts.authority = authority ∧ parts.fragment = none ∧
      parts.written = authority ∧ parts.whole = authority ++ path ∧
        parts.text = authority ++ path := by
  obtain ⟨rest, rfl⟩ := Text.exists_of_opensWith opens
  obtain ⟨first, query, noQuery, rfl⟩ := Target.exists_opened rest '?'
  obtain ⟨_, restPlain⟩ := Target.not_mem_append_iff.mp noFragment
  obtain ⟨firstPlain, queryPlain⟩ := Target.not_mem_append_iff.mp restPlain
  have pathFree : ∀ text ∈ some first, Free ['?', '#'] text := by
    rintro text ⟨⟩
    exact List.forall_mem_cons.mpr
      ⟨noQuery, List.forall_mem_singleton.mpr firstPlain⟩
  have queryFree : ∀ text ∈ query, Free ['#'] text := fun text has =>
    List.forall_mem_singleton.mpr
      (Target.not_mem_of_opened queryPlain text has)
  have userFree : ∀ text ∈ (none : Option String),
      Free ['/', '?', '#'] text := by
    rintro text ⟨⟩
  have written : information none ++ authority = authority :=
    String.empty_append
  have whole : information none ++ authority ++ opened '/' (some first) ++
      opened '?' query =
      authority ++ (String.singleton '/' ++ (first ++ opened '?' query)) := by
    rw [written, opened]
    simp only [String.append_assoc]
  refine ⟨⟨none, authority, some first, query, none, userFree, free,
    pathFree, queryFree⟩, rfl, rfl, written, whole, ?_⟩
  exact String.append_empty.trans whole

/-- Whether a scheme is one of some, in any case. -/
def among (schemes : List String) (scheme : String) : Bool :=
  schemes.any fun other => Text.lowercase other = Text.lowercase scheme

theorem among_of_mem
    {schemes : List String}
    {scheme : String}
    (member : scheme ∈ schemes) :
    among schemes scheme = true :=
  List.any_eq_true.mpr ⟨scheme, member, decide_eq_true rfl⟩

/-- An authority and a path are read under a scheme as the host and the port of
the authority, and the path. -/
theorem parseUnder_of_authority
    {schemes : Schemes}
    {scheme : String}
    (valid : Target.isScheme scheme = true)
    (named : scheme ∈ schemes.plain ++ schemes.secure)
    {authority host : String}
    {port : Option Nat}
    (free : Free ['/', '?', '#', '@'] authority)
    (reads : Authority.parse authority = .ok (host, port))
    {path : String}
    (opens : Text.opensWith path '/' = true)
    (noFragment : '#' ∉ path.toList) :
    parseUnder (scheme ++ "://" ++ (authority ++ path)) schemes = .ok {
      secure := among schemes.secure scheme
      host
      port
      path } := by
  obtain ⟨parts, rfl, noHash, written, whole, text⟩ :=
    exists_parts free opens noFragment
  have declared : (among schemes.plain scheme ||
      among schemes.secure scheme) = true := by
    rcases List.mem_append.mp named with plain | secure
    · rw [among_of_mem plain, Bool.true_or]
    · rw [among_of_mem secure, Bool.or_true]
  have host' : (parts.target (scheme ++ "://") scheme).hostAndPort =
      .ok (host, port) := by
    rw [Target.hostAndPort, show (parts.target (scheme ++ "://") scheme).authority
      = parts.authority from rfl, reads]
    rfl
  have path' : Text.sliceFrom (scheme ++ "://" ++ parts.whole)
      (Text.size (scheme ++ "://" ++ parts.written)) = .ok path := by
    rw [written, whole, ← String.append_assoc, Text.sliceFrom_append]
  have found : (some (parts.target (scheme ++ "://") scheme)).filter
      (fun target => target.is schemes.plain || target.is schemes.secure) =
      some (parts.target (scheme ++ "://") scheme) := by
    rw [Option.filter_some]
    exact if_pos declared
  have root : (parts.target (scheme ++ "://") scheme).root =
      scheme ++ "://" ++ parts.written := rfl
  rw [← text, parseUnder, Target.parse_scheme valid]
  simp only [Halt.ok, bind, Except.bind, found, host', Except.mapError,
    Parts.absolute_target, root, path', opens, if_true]
  rfl

/-! ## What is written of an endpoint -/

/-- A host as an endpoint writes it: no mark that ends an authority, and no
bracket. -/
structure Plain (host : String) : Prop where
  nonempty : host ≠ ""
  free : Free ['/', '?', '#', '@', '[', ']'] host

theorem Plain.noOpening
    {host : String}
    (plain : Plain host) :
    '[' ∉ host.toList :=
  plain.free '[' (by decide)

theorem Plain.noClosing
    {host : String}
    (plain : Plain host) :
    ']' ∉ host.toList :=
  plain.free ']' (by decide)

theorem free_bracketed
    {host : String}
    (plain : Plain host) :
    Free ['/', '?', '#', '@'] (Authority.bracketed host) := by
  intro mark member
  have absent : mark ∉ host.toList :=
    plain.free mark (List.mem_append_left ['[', ']'] member)
  have brackets : mark ≠ '[' ∧ mark ≠ ']' := by
    constructor
    · rintro rfl
      exact absurd member (by decide)
    · rintro rfl
      exact absurd member (by decide)
  rw [Authority.bracketed]
  split
  · refine Target.not_mem_append_iff.mpr
      ⟨Target.not_mem_append_iff.mpr ⟨?_, absent⟩, ?_⟩
    · exact fun same => brackets.1 (List.mem_singleton.mp same)
    · exact fun same => brackets.2 (List.mem_singleton.mp same)
  · exact absent

theorem free_number (number : Nat) :
    Free ['/', '?', '#', '@', ':'] (toString number) := by
  intro mark member present
  have digit := Text.isDigit_of_mem_toString present
  simp only [List.mem_cons, List.not_mem_nil, or_false] at member
  rcases member with rfl | rfl | rfl | rfl | rfl <;>
    exact absurd digit (by decide)

theorem free_address
    {host : String}
    (plain : Plain host)
    (port : Nat) :
    Free ['/', '?', '#', '@']
      (Authority.bracketed host ++ ":" ++ toString port) := by
  intro mark member
  have colon : mark ≠ ':' := by
    rintro rfl
    exact absurd member (by decide)
  exact Target.not_mem_append_iff.mpr ⟨Target.not_mem_append_iff.mpr
    ⟨free_bracketed plain mark member,
      fun same => colon (List.mem_singleton.mp same)⟩,
    free_number port mark (List.mem_append_left [':'] member)⟩

/-- A host alone is read without a port. -/
theorem parse_bracketed
    {host : String}
    (plain : Plain host) :
    Authority.parse (Authority.bracketed host) = .ok (host, none) := by
  refine Authority.parse_of_read ?_
  rw [Authority.bracketed]
  by_cases colon : ':' ∈ host.toList
  · rw [if_pos colon]
    have reads : Authority.Read ("[" ++ host ++ "]" ++ "") host none :=
      .bracketed plain.nonempty plain.noClosing (.nothing rfl)
    rwa [String.append_empty] at reads
  · rw [if_neg colon]
    exact .whole plain.nonempty
      (Authority.unbracketed_of_not_mem plain.noOpening) colon

/-- A host and a port are read as both. -/
theorem parse_address
    {host : String}
    (plain : Plain host)
    {port : Nat}
    (small : port ≤ 65535) :
    Authority.parse (Authority.bracketed host ++ ":" ++ toString port) =
      .ok (host, some port) := by
  have number : Text.parseUnsigned 16 (toString port) = some port :=
    Text.parseUnsigned_toString (Nat.lt_succ_of_le small)
  refine Authority.parse_of_read ?_
  rw [Authority.bracketed]
  by_cases colon : ':' ∈ host.toList
  · rw [if_pos colon, String.append_assoc]
    exact .bracketed plain.nonempty plain.noClosing (.port number)
  · rw [if_neg colon]
    exact .ported plain.nonempty
      (Authority.unbracketed_of_not_mem plain.noOpening)
      (free_number port ':' (by decide)) number

/-- Schemes that are schemes, none of them plain and secure at once. -/
structure Sound (schemes : Schemes) : Prop where
  valid : ∀ scheme ∈ schemes.plain ++ schemes.secure,
    Target.isScheme scheme = true
  disjoint : ∀ plain ∈ schemes.plain, ∀ secure ∈ schemes.secure,
    Text.lowercase secure ≠ Text.lowercase plain

theorem Sound.among_secure_iff
    {schemes : Schemes}
    (sound : Sound schemes)
    {scheme : String}
    (named : scheme ∈ schemes.plain ++ schemes.secure) :
    among schemes.secure scheme = true ↔ scheme ∈ schemes.secure := by
  refine ⟨fun found => ?_, among_of_mem⟩
  rcases List.mem_append.mp named with plain | secure
  · obtain ⟨other, member, same⟩ := List.any_eq_true.mp found
    exact absurd (of_decide_eq_true same)
      (sound.disjoint scheme plain other member)
  · exact secure

/-- Two endpoints are the same server to whoever asks them. -/
structure Alike (first second : Endpoint) : Prop where
  host : first.host = second.host
  port : first.portNumber = second.portNumber
  path : first.path = second.path
  secure : first.secure = second.secure

/-- An endpoint read back from its authority or its address, and its path. -/
theorem exists_again
    {schemes : Schemes}
    (sound : Sound schemes)
    {scheme : String}
    (named : scheme ∈ schemes.plain ++ schemes.secure)
    {endpoint : Endpoint}
    (plain : Plain endpoint.host)
    (small : endpoint.portNumber ≤ 65535)
    (opens : Text.opensWith endpoint.path '/' = true)
    (noFragment : '#' ∉ endpoint.path.toList)
    (secure : endpoint.secure = among schemes.secure scheme) :
    ∀ written ∈ [endpoint.authority, endpoint.address],
      ∃ again, parseUnder (scheme ++ "://" ++ (written ++ endpoint.path))
        schemes = .ok again ∧ Alike again endpoint := by
  have valid := sound.valid scheme named
  have addressed : ∃ again, parseUnder
      (scheme ++ "://" ++ (endpoint.address ++ endpoint.path)) schemes =
        .ok again ∧ Alike again endpoint := by
    exact ⟨_, parseUnder_of_authority valid named (free_address plain _)
      (parse_address plain small) opens noFragment, rfl, rfl, rfl, secure.symm⟩
  refine List.forall_mem_cons.mpr ⟨?_, List.forall_mem_singleton.mpr addressed⟩
  by_cases own : endpoint.portNumber = endpoint.schemePort
  · rw [authority, if_pos own]
    refine ⟨_, parseUnder_of_authority valid named (free_bracketed plain)
      (parse_bracketed plain) opens noFragment, rfl, ?_, rfl, secure.symm⟩
    rw [own, portNumber, schemePort, schemePort, secure]
    rfl
  · rw [authority, if_neg own]
    exact addressed

/-- An endpoint that is written is the endpoint that is read, and what it writes
of itself is read as it. -/
theorem parseUnder_written
    {schemes : Schemes}
    (sound : Sound schemes)
    {scheme : String}
    (named : scheme ∈ schemes.plain ++ schemes.secure)
    {host : String}
    (plain : Plain host)
    {port : Nat}
    (small : port ≤ 65535)
    {path : String}
    (opens : Text.opensWith path '/' = true)
    (noFragment : '#' ∉ path.toList) :
    ∃ endpoint, parseUnder (scheme ++ "://" ++ Authority.bracketed host ++ ":" ++
        toString port ++ path) schemes = .ok endpoint ∧
      endpoint.host = host ∧ endpoint.portNumber = port ∧
      endpoint.path = path ∧
      (endpoint.secure = true ↔ scheme ∈ schemes.secure) ∧
      ∀ written ∈ [endpoint.authority, endpoint.address],
        ∃ again, parseUnder (scheme ++ "://" ++ (written ++ endpoint.path))
          schemes = .ok again ∧ Alike again endpoint := by
  have reads := parseUnder_of_authority (sound.valid scheme named) named
    (free_address plain port) (parse_address plain small) opens noFragment
  have whole : scheme ++ "://" ++ Authority.bracketed host ++ ":" ++
      toString port ++ path = scheme ++ "://" ++
        (Authority.bracketed host ++ ":" ++ toString port ++ path) := by
    simp only [String.append_assoc]
  rw [whole]
  refine ⟨_, reads, rfl, rfl, rfl, sound.among_secure_iff named, ?_⟩
  exact exists_again sound named plain small opens noFragment rfl

theorem parseUnder_written_as2 :
    ∃ endpoint, parseUnder "as2s://[fe80::1]:80/a@b?reply=http://x"
        ⟨["http", "as2"], ["https", "as2s"]⟩ = .ok endpoint ∧
      endpoint.host = "fe80::1" ∧ endpoint.portNumber = 80 ∧
      endpoint.secure = true := by
  have sound : Sound ⟨["http", "as2"], ["https", "as2s"]⟩ :=
    ⟨by decide, by decide⟩
  have plain : Plain "fe80::1" := by
    refine ⟨by decide, ?_⟩
    exact Text.forall_mem_of_all (by decide)
  have written := parseUnder_written sound
    (show "as2s" ∈ ["http", "as2"] ++ ["https", "as2s"] by decide) plain
    (show 80 ≤ 65535 by decide)
    (show Text.opensWith "/a@b?reply=http://x" '/' = true by decide)
    (by decide)
  obtain ⟨endpoint, reads, host, port, _, secure, _⟩ := written
  exact ⟨endpoint, reads, host, port, secure.mpr (by decide)⟩

end Endpoint
end XmipNet

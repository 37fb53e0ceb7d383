import XmipNet.Slices

/-!
# An authority as a URI writes it

A host, and a port where one is given. What is written is a name and its port or
a literal in brackets and its port; what is read besides is told kind by kind.
-/

namespace XmipNet
namespace Authority

/-- The host and the port text, brackets taken off an IPv6 literal. -/
def parts (authority : String) : String × Option String :=
  match (Text.stripPrefix authority "[").bind fun bracketed =>
      Text.splitOnce bracketed ']' with
  | some (host, after) => (host, Text.stripPrefix after ":")
  | none =>
      match Text.rsplitOnce authority ':' with
      | some (host, port) => (host, some port)
      | none => (authority, none)

/-- The host without its port, and without the brackets an IPv6 literal
carries. -/
def hostOf (authority : String) : String :=
  (parts authority).1

/-- The authority with `default` as its port where it does not carry one. -/
def withDefaultPort (authority : String) (default : Nat) : String :=
  if (parts authority).2.isSome then
    authority
  else
    authority ++ ":" ++ toString default

/-- What refuses an authority says. -/
def refused (authority why : String) : NetError :=
  .new s!"the authority '{authority}' {why}"

/-- The port a port text names, where there is one. -/
def portOf (authority : String) :
    Option String → Except NetError (Option Nat)
  | none => .ok none
  | some port =>
      match Text.parseUnsigned 16 port with
      | some number => .ok (some number)
      | none => .error (refused authority "names a port that is not one")

/-- The host, brackets off, and the port where one is given. -/
def parse (authority : String) : Except NetError (String × Option Nat) :=
  if Text.opensWith authority '[' ∧ ']' ∉ authority.toList then
    .error (refused authority "opens a bracket it does not close")
  else if (parts authority).1 = "" then
    .error (refused authority "names no host")
  else do
    let port ← portOf authority (parts authority).2
    .ok ((parts authority).1, port)

/-- The host as a `Host` header or a URI writes it: an IPv6 literal in brackets,
anything else as it is. -/
def bracketed (host : String) : String :=
  if ':' ∈ host.toList then "[" ++ host ++ "]" else host

/-! ## What is written -/

/-- A port as it is written: digits, of a number a port may have. -/
structure Port (text : String) (number : Nat) : Prop where
  digits : Text.allDigits text = true
  value : Text.decimal text.toList = number
  small : number ≤ 65535

/-- A host written as it is: a name, without colons and brackets. -/
structure Name (host : String) : Prop where
  nonempty : host ≠ ""
  noColon : ':' ∉ host.toList
  noOpening : '[' ∉ host.toList
  noClosing : ']' ∉ host.toList

/-- A host written in brackets, of which it has none. -/
structure Literal (host : String) : Prop where
  nonempty : host ≠ ""
  noOpening : '[' ∉ host.toList
  noClosing : ']' ∉ host.toList

/-- `text` is an authority of `host` and `port`. -/
inductive Written : String → String → Option Nat → Prop
  | name
      {host : String}
      (named : Name host) :
      Written host host none
  | namePort
      {host port : String}
      {number : Nat}
      (named : Name host)
      (ported : Port port number) :
      Written (host ++ ":" ++ port) host (some number)
  | literal
      {host : String}
      (bare : Literal host) :
      Written ("[" ++ host ++ "]" ++ "") host none
  | literalPort
      {host port : String}
      {number : Nat}
      (bare : Literal host)
      (ported : Port port number) :
      Written ("[" ++ host ++ "]" ++ (":" ++ port)) host (some number)

/-! ## What is read -/

/-- What may follow a closing bracket where `port` is read: anything that is no
port text, or a port text of a number. -/
inductive Follows : String → Option Nat → Prop
  | nothing
      {after : String}
      (closed : Text.opensWith after ':' = false) :
      Follows after none
  | port
      {port : String}
      {number : Nat}
      (reads : Text.parseUnsigned 16 port = some number) :
      Follows (":" ++ port) (some number)

/-- `text` is read as `host` and `port`. -/
inductive Read : String → String → Option Nat → Prop
  | bracketed
      {host after : String}
      {port : Option Nat}
      (nonempty : host ≠ "")
      (inside : ']' ∉ host.toList)
      (follows : Follows after port) :
      Read ("[" ++ host ++ "]" ++ after) host port
  | whole
      {host : String}
      (nonempty : host ≠ "")
      (unbracketed : Text.opensWith host '[' = false)
      (noColon : ':' ∉ host.toList) :
      Read host host none
  | ported
      {host port : String}
      {number : Nat}
      (nonempty : host ≠ "")
      (unbracketed : Text.opensWith host '[' = false)
      (last : ':' ∉ port.toList)
      (reads : Text.parseUnsigned 16 port = some number) :
      Read (host ++ ":" ++ port) host (some number)

theorem parts_bracketed
    {host : String}
    (inside : ']' ∉ host.toList)
    (after : String) :
    parts ("[" ++ host ++ "]" ++ after) = (host, Text.stripPrefix after ":") := by
  have opens : Text.stripPrefix ("[" ++ host ++ "]" ++ after) "[" =
      some (host ++ "]" ++ after) := by
    rw [String.append_assoc, String.append_assoc, Text.stripPrefix_append,
      String.append_assoc]
  have closes : Text.splitOnce (host ++ "]" ++ after) ']' =
      some (host, after) :=
    Text.splitOnce_append inside after
  rw [parts, opens, Option.bind_some, closes]

theorem parts_whole
    {text : String}
    (unbracketed : Text.opensWith text '[' = false)
    (noColon : ':' ∉ text.toList) :
    parts text = (text, none) := by
  rw [parts, show "[" = String.singleton '[' from rfl,
    Text.stripPrefix_eq_none unbracketed, Option.bind_none,
    Text.rsplitOnce_eq_none_iff.mpr noColon]

theorem parts_ported
    {host port : String}
    (unbracketed : Text.opensWith (host ++ ":" ++ port) '[' = false)
    (last : ':' ∉ port.toList) :
    parts (host ++ ":" ++ port) = (host, some port) := by
  have splits : Text.rsplitOnce (host ++ ":" ++ port) ':' = some (host, port) :=
    Text.rsplitOnce_eq_some_iff.mpr ⟨rfl, last⟩
  rw [parts, show "[" = String.singleton '[' from rfl,
    Text.stripPrefix_eq_none unbracketed, Option.bind_none, splits]

theorem opensWith_bracketed (rest : String) :
    Text.opensWith ("[" ++ rest) '[' = true :=
  Text.opensWith_singleton_append '[' rest

theorem closing_mem_bracketed (host after : String) :
    ']' ∈ ("[" ++ host ++ "]" ++ after).toList := by
  have characters := Text.toList_append_singleton_append ("[" ++ host) ']' after
  rw [show "]" = String.singleton ']' from rfl, characters]
  exact List.mem_append_right _ List.mem_cons_self

/-- A text that opens a bracket and closes one is a host in brackets and what
follows it. -/
theorem exists_of_closed
    {text : String}
    (opens : Text.opensWith text '[' = true)
    (closes : ']' ∈ text.toList) :
    ∃ host after, ']' ∉ host.toList ∧ text = "[" ++ host ++ "]" ++ after := by
  obtain ⟨rest, rfl⟩ := Text.exists_of_opensWith opens
  rw [String.toList_append, String.toList_singleton, List.singleton_append,
    List.mem_cons] at closes
  have later : ']' ∈ rest.toList := closes.resolve_left (by decide)
  cases splits : Text.splitOnce rest ']' with
  | none => exact absurd later (Text.splitOnce_eq_none_iff.mp splits)
  | some parts =>
      obtain ⟨host, after⟩ := parts
      obtain ⟨rfl, inside⟩ := Text.splitOnce_eq_some_iff.mp splits
      refine ⟨host, after, inside, ?_⟩
      rw [← String.append_assoc, ← String.append_assoc]
      rfl

theorem parse_of_parts
    {authority host : String}
    {port : Option String}
    (closed : Text.opensWith authority '[' = true → ']' ∈ authority.toList)
    (taken : parts authority = (host, port))
    (nonempty : host ≠ "") :
    parse authority = (do
      let port ← portOf authority port
      .ok (host, port)) := by
  have open' : ¬(Text.opensWith authority '[' = true ∧
      ']' ∉ authority.toList) := fun both => both.2 (closed both.1)
  rw [parse, if_neg open', taken, if_neg nonempty]

theorem portOf_of_follows
    {after : String}
    {port : Option Nat}
    (follows : Follows after port)
    (authority : String) :
    portOf authority (Text.stripPrefix after ":") = .ok port := by
  cases follows with
  | nothing closed =>
      rw [show ":" = String.singleton ':' from rfl,
        Text.stripPrefix_eq_none closed]
      rfl
  | port reads =>
      rw [Text.stripPrefix_append, portOf, reads]

/-- What may be read is read. -/
theorem parse_of_read
    {text host : String}
    {port : Option Nat}
    (reads : Read text host port) :
    parse text = .ok (host, port) := by
  cases reads with
  | @bracketed _ after _ nonempty inside follows =>
      have closed := closing_mem_bracketed host after
      rw [parse_of_parts (fun _ => closed) (parts_bracketed inside after)
        nonempty, portOf_of_follows follows]
      rfl
  | whole nonempty unbracketed noColon =>
      have closed : Text.opensWith text '[' = true → ']' ∈ text.toList :=
        fun opens => by
          rw [unbracketed] at opens
          cases opens
      rw [parse_of_parts closed (parts_whole unbracketed noColon) nonempty]
      rfl
  | @ported _ digits number nonempty unbracketed last reads =>
      have same : Text.opensWith (host ++ ":" ++ digits) '[' = false := by
        rw [String.append_assoc, Text.opensWith_append nonempty]
        exact unbracketed
      have closed : Text.opensWith (host ++ ":" ++ digits) '[' = true →
          ']' ∈ (host ++ ":" ++ digits).toList := fun opens => by
        rw [same] at opens
        cases opens
      rw [parse_of_parts closed (parts_ported same last) nonempty, portOf,
        reads]
      rfl

theorem follows_of_portOf
    {after authority : String}
    {port : Option Nat}
    (reads : portOf authority (Text.stripPrefix after ":") = .ok port) :
    Follows after port := by
  cases strips : Text.stripPrefix after ":" with
  | none =>
      rw [strips] at reads
      cases reads
      refine .nothing ?_
      cases opens : Text.opensWith after ':' with
      | false => rfl
      | true =>
          obtain ⟨rest, rfl⟩ := Text.exists_of_opensWith opens
          have strip := Text.stripPrefix_append (String.singleton ':') rest
          cases strips.symm.trans strip
  | some digits =>
      rw [strips, portOf] at reads
      rw [Text.stripPrefix_eq_some_iff.mp strips]
      split at reads
      next number parses =>
        cases reads
        exact .port parses
      · cases reads

theorem read_of_unbracketed
    {text : String}
    {port : Option Nat}
    (unbracketed : Text.opensWith text '[' = false)
    (nonempty : (parts text).1 ≠ "")
    (reads : portOf text (parts text).2 = .ok port) :
    Read text (parts text).1 port := by
  cases splits : Text.rsplitOnce text ':' with
  | none =>
      have noColon := Text.rsplitOnce_eq_none_iff.mp splits
      rw [parts_whole unbracketed noColon] at nonempty reads ⊢
      cases reads
      exact .whole nonempty unbracketed noColon
  | some taken =>
      obtain ⟨host, digits⟩ := taken
      obtain ⟨rfl, last⟩ := Text.rsplitOnce_eq_some_iff.mp splits
      have both := parts_ported unbracketed last
      rw [show ":" = String.singleton ':' from rfl] at both
      rw [both] at nonempty reads ⊢
      rw [String.append_assoc, Text.opensWith_append nonempty] at unbracketed
      rw [portOf] at reads
      split at reads
      next number parses =>
        cases reads
        exact .ported nonempty unbracketed last parses
      · cases reads

/-- What is read may be read. -/
theorem read_of_parse
    {text host : String}
    {port : Option Nat}
    (accepts : parse text = .ok (host, port)) :
    Read text host port := by
  rw [parse] at accepts
  split at accepts
  · cases accepts
  next open' =>
    split at accepts
    · cases accepts
    next nonempty =>
      cases reads : portOf text (parts text).2 with
      | error failure =>
          rw [reads] at accepts
          cases accepts
      | ok found =>
          rw [reads] at accepts
          obtain ⟨rfl, rfl⟩ := Prod.mk.inj (Except.ok.inj accepts)
          cases opens : Text.opensWith text '[' with
          | true =>
              have closes : ']' ∈ text.toList := by
                by_contra absent
                exact open' ⟨opens, absent⟩
              obtain ⟨host, after, inside, rfl⟩ := exists_of_closed opens closes
              rw [parts_bracketed inside] at reads nonempty ⊢
              exact .bracketed nonempty inside (follows_of_portOf reads)
          | false => exact read_of_unbracketed opens nonempty reads

/-- What is read, in which way. -/
theorem parse_eq_ok_iff
    {text host : String}
    {port : Option Nat} :
    parse text = .ok (host, port) ↔ Read text host port :=
  ⟨read_of_parse, parse_of_read⟩

/-! ## What is read and not written -/

/-- A port text of a number is the port it is written as, or that after a plus
sign. -/
theorem parseUnsigned_iff_port {text : String} {number : Nat} :
    Text.parseUnsigned 16 text = some number ↔
      ∃ digits, (text = digits ∨ text = "+" ++ digits) ∧
        Port digits number := by
  rw [Text.parseUnsigned_eq_some_iff]
  constructor
  · rintro ⟨digits, same, all, value, small⟩
    exact ⟨digits, same, all, value, Nat.le_of_lt_succ small⟩
  · rintro ⟨digits, same, ported⟩
    exact ⟨digits, same, ported.digits, ported.value,
      Nat.lt_succ_of_le ported.small⟩

theorem Port.parses
    {text : String}
    {number : Nat}
    (ported : Port text number) :
    Text.parseUnsigned 16 text = some number :=
  parseUnsigned_iff_port.mpr ⟨text, Or.inl rfl, ported⟩

theorem Port.not_mem
    {text : String}
    {number : Nat}
    (ported : Port text number)
    {character : Char}
    (other : character.isDigit = false) :
    character ∉ text.toList := by
  intro member
  have digits := ported.digits
  rw [Text.allDigits, decide_eq_true_iff] at digits
  have digit := List.all_eq_true.mp digits.2 character member
  rw [other] at digit
  cases digit

theorem Port.noColon
    {text : String}
    {number : Nat}
    (ported : Port text number) :
    ':' ∉ text.toList :=
  ported.not_mem rfl

/-- What a text that is read is, where it is not an authority as one is written:
brackets and colons in what is no literal, a bracket in a literal, something
other than a port after the closing bracket, or a port with a sign. -/
inductive Misread : String → Prop
  | trailing
      {host after : String}
      (nonempty : host ≠ "")
      (inside : ']' ∉ host.toList)
      (more : after ≠ "")
      (closed : Text.opensWith after ':' = false) :
      Misread ("[" ++ host ++ "]" ++ after)
  | literalSigned
      {host digits : String}
      {number : Nat}
      (nonempty : host ≠ "")
      (inside : ']' ∉ host.toList)
      (ported : Port digits number) :
      Misread ("[" ++ host ++ "]" ++ (":" ++ ("+" ++ digits)))
  | nested
      {host : String}
      (inside : ']' ∉ host.toList)
      (opening : '[' ∈ host.toList) :
      Misread ("[" ++ host ++ "]" ++ "")
  | nestedPort
      {host port : String}
      {number : Nat}
      (inside : ']' ∉ host.toList)
      (opening : '[' ∈ host.toList)
      (ported : Port port number) :
      Misread ("[" ++ host ++ "]" ++ (":" ++ port))
  | stray
      {host : String}
      (unbracketed : Text.opensWith host '[' = false)
      (noColon : ':' ∉ host.toList)
      (bracket : '[' ∈ host.toList ∨ ']' ∈ host.toList) :
      Misread host
  | strayPort
      {host port : String}
      {number : Nat}
      (unbracketed : Text.opensWith host '[' = false)
      (foreign : ':' ∈ host.toList ∨ '[' ∈ host.toList ∨ ']' ∈ host.toList)
      (ported : Port port number) :
      Misread (host ++ ":" ++ port)
  | signed
      {host digits : String}
      {number : Nat}
      (nonempty : host ≠ "")
      (unbracketed : Text.opensWith host '[' = false)
      (ported : Port digits number) :
      Misread (host ++ ":" ++ ("+" ++ digits))

theorem ne_empty_of_mem
    {text : String}
    {character : Char}
    (member : character ∈ text.toList) :
    text ≠ "" := by
  rintro rfl
  exact List.not_mem_nil member

theorem noColon_signed
    {digits : String}
    {number : Nat}
    (ported : Port digits number) :
    ':' ∉ ("+" ++ digits).toList := by
  rw [String.toList_append, List.mem_append, not_or]
  exact ⟨by decide, ported.noColon⟩

theorem unbracketed_of_not_mem
    {text : String}
    (absent : '[' ∉ text.toList) :
    Text.opensWith text '[' = false := by
  cases opens : Text.opensWith text '[' with
  | false => rfl
  | true => exact absurd (Text.mem_of_opensWith opens) absent

/-- What is written is read. -/
theorem read_of_written
    {text host : String}
    {port : Option Nat}
    (written : Written text host port) :
    Read text host port := by
  cases written with
  | name named =>
      exact .whole named.nonempty (unbracketed_of_not_mem named.noOpening)
        named.noColon
  | namePort named ported =>
      exact .ported named.nonempty (unbracketed_of_not_mem named.noOpening)
        ported.noColon ported.parses
  | literal bare =>
      exact .bracketed bare.nonempty bare.noClosing (.nothing rfl)
  | literalPort bare ported =>
      exact .bracketed bare.nonempty bare.noClosing (.port ported.parses)

/-- What is read is written, but for what is misread. -/
theorem written_of_read
    {text host : String}
    {port : Option Nat}
    (reads : Read text host port)
    (plain : ¬Misread text) :
    Written text host port := by
  cases reads with
  | @bracketed _ after _ nonempty inside follows =>
      cases follows with
      | nothing closed =>
          by_cases more : after = ""
          · subst more
            refine .literal ⟨nonempty, fun opening => ?_, inside⟩
            exact plain (.nested inside opening)
          · exact absurd (.trailing nonempty inside more closed) plain
      | @port _ number reads =>
          obtain ⟨digits, rfl | rfl, ported⟩ := parseUnsigned_iff_port.mp reads
          · refine .literalPort ⟨nonempty, fun opening => ?_, inside⟩ ported
            exact plain (.nestedPort inside opening ported)
          · exact absurd (.literalSigned nonempty inside ported) plain
  | whole nonempty unbracketed noColon =>
      refine .name ⟨nonempty, noColon, fun opening => ?_, fun closing => ?_⟩
      · exact plain (.stray unbracketed noColon (Or.inl opening))
      · exact plain (.stray unbracketed noColon (Or.inr closing))
  | ported nonempty unbracketed last reads =>
      obtain ⟨digits, rfl | rfl, ported⟩ := parseUnsigned_iff_port.mp reads
      · refine .namePort ⟨nonempty, fun colon => ?_, fun opening => ?_,
          fun closing => ?_⟩ ported
        · exact plain (.strayPort unbracketed (Or.inl colon) ported)
        · exact plain (.strayPort unbracketed (Or.inr (Or.inl opening)) ported)
        · exact plain (.strayPort unbracketed (Or.inr (Or.inr closing)) ported)
      · exact absurd (.signed nonempty unbracketed ported) plain

/-- What is misread is read. -/
theorem Misread.exists_read
    {text : String}
    (misread : Misread text) :
    ∃ host port, Read text host port := by
  have signs : ∀ {digits : String} {number : Nat}, Port digits number →
      Text.parseUnsigned 16 ("+" ++ digits) = some number :=
    fun ported => parseUnsigned_iff_port.mpr ⟨_, Or.inr rfl, ported⟩
  cases misread with
  | trailing nonempty inside more closed =>
      exact ⟨_, _, .bracketed nonempty inside (.nothing closed)⟩
  | literalSigned nonempty inside ported =>
      exact ⟨_, _, .bracketed nonempty inside (.port (signs ported))⟩
  | nested inside opening =>
      exact ⟨_, _, .bracketed (ne_empty_of_mem opening) inside (.nothing rfl)⟩
  | nestedPort inside opening ported =>
      exact ⟨_, _, .bracketed (ne_empty_of_mem opening) inside
        (.port ported.parses)⟩
  | stray unbracketed noColon bracket =>
      have nonempty : text ≠ "" :=
        bracket.elim ne_empty_of_mem ne_empty_of_mem
      exact ⟨_, _, .whole nonempty unbracketed noColon⟩
  | @strayPort host _ _ unbracketed foreign ported =>
      have nonempty : host ≠ "" :=
        foreign.elim ne_empty_of_mem
          fun bracket => bracket.elim ne_empty_of_mem ne_empty_of_mem
      exact ⟨_, _, .ported nonempty unbracketed ported.noColon ported.parses⟩
  | signed nonempty unbracketed ported =>
      exact ⟨_, _, .ported nonempty unbracketed (noColon_signed ported)
        (signs ported)⟩

theorem bracketed_inj
    {host other after later : String}
    (inside : ']' ∉ host.toList)
    (within : ']' ∉ other.toList)
    (same : "[" ++ host ++ "]" ++ after = "[" ++ other ++ "]" ++ later) :
    host = other ∧ after = later := by
  have opened : ∀ {host : String}, ']' ∉ host.toList →
      ']' ∉ ("[" ++ host).toList := by
    intro host inside
    rw [String.toList_append, List.mem_append, not_or]
    exact ⟨by decide, inside⟩
  have first := Text.splitOnce_append (opened inside) after
  have second := Text.splitOnce_append (opened within) later
  rw [show String.singleton ']' = "]" from rfl] at first second
  rw [same, second] at first
  obtain ⟨hosts, afters⟩ := Prod.mk.inj (Option.some.inj first)
  exact ⟨(String.append_right_inj "[").mp hosts.symm, afters.symm⟩

theorem ported_inj
    {host port other later : String}
    (last : ':' ∉ port.toList)
    (final : ':' ∉ later.toList)
    (same : host ++ ":" ++ port = other ++ ":" ++ later) :
    host = other ∧ port = later := by
  have first : Text.rsplitOnce (host ++ ":" ++ port) ':' = some (host, port) :=
    Text.rsplitOnce_eq_some_iff.mpr ⟨rfl, last⟩
  have second : Text.rsplitOnce (other ++ ":" ++ later) ':' =
      some (other, later) :=
    Text.rsplitOnce_eq_some_iff.mpr ⟨rfl, final⟩
  rw [same, second] at first
  obtain ⟨hosts, ports⟩ := Prod.mk.inj (Option.some.inj first)
  exact ⟨hosts.symm, ports.symm⟩

/-- An authority that opens a bracket is a literal and what may follow one. -/
theorem of_written_bracketed
    {host after other : String}
    {port : Option Nat}
    (inside : ']' ∉ host.toList)
    (written : Written ("[" ++ host ++ "]" ++ after) other port) :
    Literal host ∧ (after = "" ∨
      ∃ digits number, after = ":" ++ digits ∧ Port digits number) := by
  have opens : Text.opensWith ("[" ++ host ++ "]" ++ after) '[' = true := by
    rw [String.append_assoc, String.append_assoc]
    exact opensWith_bracketed (host ++ ("]" ++ after))
  generalize text : "[" ++ host ++ "]" ++ after = whole at written opens
  cases written with
  | name named =>
      rw [unbracketed_of_not_mem named.noOpening] at opens
      cases opens
  | namePort named ported =>
      rw [String.append_assoc, Text.opensWith_append named.nonempty,
        unbracketed_of_not_mem named.noOpening] at opens
      cases opens
  | literal bare =>
      obtain ⟨rfl, rfl⟩ := bracketed_inj inside bare.noClosing text
      exact ⟨bare, Or.inl rfl⟩
  | literalPort bare ported =>
      obtain ⟨rfl, rfl⟩ := bracketed_inj inside bare.noClosing text
      exact ⟨bare, Or.inr ⟨_, _, rfl, ported⟩⟩

/-- An authority that opens none is a name and what may follow one. -/
theorem of_written_unbracketed
    {text other : String}
    {port : Option Nat}
    (unbracketed : Text.opensWith text '[' = false)
    (written : Written text other port) :
    Name text ∨ ∃ host digits number, text = host ++ ":" ++ digits ∧
      Name host ∧ Port digits number := by
  cases written with
  | name named => exact Or.inl named
  | namePort named ported =>
      exact Or.inr ⟨_, _, _, rfl, named, ported⟩
  | literal bare =>
      rw [String.append_assoc, String.append_assoc, opensWith_bracketed]
        at unbracketed
      cases unbracketed
  | literalPort bare ported =>
      rw [String.append_assoc, String.append_assoc, opensWith_bracketed]
        at unbracketed
      cases unbracketed

theorem sign_not_port
    {digits : String}
    {number : Nat} :
    ¬Port ("+" ++ digits) number := by
  intro ported
  have sign : '+' ∈ ("+" ++ digits).toList := by
    rw [String.toList_append]
    exact List.mem_append_left _ List.mem_cons_self
  exact ported.not_mem rfl sign

theorem not_written_of_ported
    {host port other : String}
    {number : Option Nat}
    (nonempty : host ≠ "")
    (unbracketed : Text.opensWith host '[' = false)
    (last : ':' ∉ port.toList)
    (written : Written (host ++ ":" ++ port) other number) :
    Name host ∧ ∃ number, Port port number := by
  have same : Text.opensWith (host ++ ":" ++ port) '[' = false := by
    rw [String.append_assoc, Text.opensWith_append nonempty]
    exact unbracketed
  rcases of_written_unbracketed same written with named |
    ⟨first, digits, number, split, named, ported⟩
  · refine absurd ?_ named.noColon
    rw [show ":" = String.singleton ':' from rfl,
      Text.toList_append_singleton_append]
    exact List.mem_append_right _ List.mem_cons_self
  · obtain ⟨rfl, rfl⟩ := ported_inj last ported.noColon split
    exact ⟨named, number, ported⟩

/-- What is misread is no authority. -/
theorem Misread.not_written
    {text : String}
    (misread : Misread text)
    {host : String}
    {port : Option Nat} :
    ¬Written text host port := by
  intro written
  cases misread with
  | trailing nonempty inside more closed =>
      obtain ⟨_, rfl | ⟨digits, number, rfl, _⟩⟩ :=
        of_written_bracketed inside written
      · exact more rfl
      · have opens := Text.opensWith_singleton_append ':' digits
        rw [show String.singleton ':' = ":" from rfl, closed] at opens
        cases opens
  | @literalSigned _ signed _ nonempty inside ported =>
      have colon : ':' ∈ (":" ++ ("+" ++ signed)).toList := by
        rw [String.toList_append]
        exact List.mem_append_left _ List.mem_cons_self
      obtain ⟨_, none | ⟨digits, number, same, other⟩⟩ :=
        of_written_bracketed inside written
      · exact absurd none (ne_empty_of_mem colon)
      · rw [String.append_right_inj] at same
        rw [← same] at other
        exact sign_not_port other
  | nested inside opening =>
      exact (of_written_bracketed inside written).1.noOpening opening
  | nestedPort inside opening ported =>
      exact (of_written_bracketed inside written).1.noOpening opening
  | stray unbracketed noColon bracket =>
      rcases of_written_unbracketed unbracketed written with named |
        ⟨first, digits, number, rfl, named, ported⟩
      · exact bracket.elim named.noOpening named.noClosing
      · refine noColon ?_
        rw [show ":" = String.singleton ':' from rfl,
          Text.toList_append_singleton_append]
        exact List.mem_append_right _ List.mem_cons_self
  | @strayPort host _ _ unbracketed foreign ported =>
      have nonempty : host ≠ "" :=
        foreign.elim ne_empty_of_mem
          fun bracket => bracket.elim ne_empty_of_mem ne_empty_of_mem
      obtain ⟨named, _⟩ := not_written_of_ported nonempty unbracketed
        ported.noColon written
      rcases foreign with colon | opening | closing
      · exact named.noColon colon
      · exact named.noOpening opening
      · exact named.noClosing closing
  | signed nonempty unbracketed ported =>
      obtain ⟨_, number, other⟩ := not_written_of_ported nonempty unbracketed
        (noColon_signed ported) written
      exact sign_not_port other

/-- Reading accepts exactly the authorities, with their hosts and their ports,
where and only where the text is none of those that are misread. -/
theorem parse_exact_iff (text : String) :
    (∀ host port, parse text = .ok (host, port) ↔ Written text host port) ↔
      ¬Misread text := by
  constructor
  · intro exactly misread
    obtain ⟨host, port, reads⟩ := misread.exists_read
    exact misread.not_written ((exactly host port).mp (parse_of_read reads))
  · intro plain host port
    rw [parse_eq_ok_iff]
    exact ⟨fun reads => written_of_read reads plain, read_of_written⟩

/-- What follows the closing bracket is dropped where it is not a port: the
authority is read, and is none. -/
theorem not_parse_exact_trailing :
    ¬∀ text host port, parse text = .ok (host, port) ↔
      Written text host port := by
  intro exactly
  have accepts : parse "[::1]8181" = .ok ("::1", none) := by decide
  have misread : Misread ("[" ++ "::1" ++ "]" ++ "8181") :=
    .trailing (by decide) (by decide) (by decide) (by decide)
  exact misread.not_written ((exactly "[::1]8181" "::1" none).mp accepts)

end Authority
end XmipNet

import XmipNet.Authority

/-!
# A target as a URI writes it

The scheme, the authority with its user information, the path, the query and the
fragment. A target is a text taken apart; what it is taken apart into is told by
the marks each part may not hold, and put together again the parts are the text.
-/

namespace XmipNet

/-- A target as a URI writes it, and the text it was read from. -/
structure Target where
  text : String
  scheme : String
  rest : String
  root : String
  user : Option String
  authority : String
  path : String
  query : String
  fragment : Option String
  deriving DecidableEq, Repr

namespace Target

/-- Whether `text` is a scheme. -/
def isScheme (text : String) : Bool :=
  match text.toList with
  | [] => false
  | first :: others =>
      first.isAlpha && others.all fun character =>
        character.isAlphanum || character = '+' || character = '-' ||
          character = '.'

/-- What is before the fragment, and the fragment. -/
def cutFragment (rest : String) : String × Option String :=
  match Text.splitOnce rest '#' with
  | some (hier, fragment) => (hier, some fragment)
  | none => (rest, none)

/-- The user information, and the authority after it. -/
def cutUser (written : String) : Option String × String :=
  match Text.rsplitOnce written '@' with
  | some (user, authority) => (some user, authority)
  | none => (none, written)

/-- What follows a scheme, taken apart at the first `#`, the first `?` and the
first `/`, and what is before them at the last `@`. -/
def split (text scheme rest : String) : Except Halt Target := do
  let (hier, fragment) := cutFragment rest
  let (hier, query) := (Text.splitOnce hier '?').getD (hier, "")
  let (written, path) := (Text.splitOnce hier '/').getD (hier, "")
  let (user, authority) := cutUser written
  let before ← Text.minus (Text.size text) (Text.size rest)
  let root ← Text.sliceTo text (before + Text.size written)
  pure { text, scheme, rest, root, user, authority, path, query, fragment }

/-- Read `text` as a scheme, `://` and the rest. -/
def parse (text : String) : Except Halt Target :=
  match (Text.splitOnceAt text "://").filter fun parts => isScheme parts.1 with
  | some (scheme, rest) => split text scheme rest
  | none => .error (.refused (.new s!"'{text}' is not scheme://…"))

/-- Whether the scheme is one of `schemes`, in any case. -/
def is (target : Target) (schemes : List String) : Bool :=
  schemes.any fun scheme =>
    Text.lowercase scheme = Text.lowercase target.scheme

/-- Read `text` where it opens with one of `schemes`. -/
def under (schemes : List String) (text : String) :
    Except Halt (Option Target) := do
  let target ← Halt.ok (parse text)
  pure (target.filter fun target => target.is schemes)

/-- Read `text` as a target without a scheme. -/
def bare (text : String) : Except Halt Target :=
  split text "" text

/-- Read `text` where it names its own server: under one of `schemes`, or bare,
an authority with a port and then a slash. -/
def namingServer (schemes : List String) (text : String) :
    Except Halt (Option Target) :=
  if Text.contains text "://" then
    under schemes text
  else do
    let target ← bare text
    if ':' ∈ target.authority.toList then
      let after ← Text.sliceFrom text (Text.size target.root)
      pure (if Text.opensWith after '/' then some target else none)
    else
      pure none

/-- What `text` has before its first `?` or `#`. -/
def pathOf (text : String) : String :=
  String.ofList
    (text.toList.takeWhile fun character => character ≠ '?' ∧ character ≠ '#')

/-- Read `text` as a relative reference: a path alone, with its query and its
fragment. -/
def relative (text : String) : Except Halt Target := do
  let path := pathOf text
  let after ← Text.sliceFrom text (Text.size path)
  let target ← split text "" after
  pure { target with rest := text, root := "", path := path }

/-- The host, brackets off an IPv6 literal, and the port where the authority
names one. -/
def hostAndPort (target : Target) : Except NetError (String × Option Nat) :=
  (Authority.parse target.authority).mapError fun refused =>
    .new s!"'{target.text}': {refused.message}"

/-- The user name the authority carries, decoded. -/
def userName (decode : String → String) (target : Target) : Option String :=
  target.user.map fun user =>
    decode (((Text.splitOnce user ':').map Prod.fst).getD user)

/-- The password the user information carries, decoded. -/
def password (decode : String → String) (target : Target) : Option String :=
  (target.user.bind fun user => Text.splitOnce user ':').map fun parts =>
    decode parts.2

/-- The path's segments, still encoded; none where there is no path. -/
def segments (target : Target) : Except NetError (List String) :=
  if target.path = "" then
    .ok []
  else if "" ∈ Text.split target.path '/' then
    .error (.new s!"'{target.text}' has an empty path segment")
  else
    .ok (Text.split target.path '/')

/-- The target without its fragment. -/
def absolute (target : Target) : Except Halt String :=
  match target.fragment with
  | some fragment => do
      let whole ← Text.minus (Text.size target.text) (Text.size fragment)
      let before ← Text.minus whole 1
      Text.sliceTo target.text before
  | none => .ok target.text

/-- Everything after the scheme, whole. -/
def afterScheme (target : Target) : String :=
  target.rest

/-- The scheme an address names where it writes none. -/
def pathScheme : String := "file"

/-- The scheme `text` is entered with, in small letters. -/
def schemeOf (text : String) : Except Halt String := do
  let target ← Halt.ok (parse text)
  pure (match target with
    | some named => Text.lowercase named.scheme
    | none => pathScheme)

/-! ## The parts of a target -/

/-- `mark` and the part it opens, where there is one. -/
def opened (mark : Char) : Option String → String
  | none => ""
  | some part => String.singleton mark ++ part

/-- User information and the mark it ends with, where there is any. -/
def information : Option String → String
  | none => ""
  | some user => user ++ "@"

/-- None of `marks` is in `text`. -/
def Free (marks : List Char) (text : String) : Prop :=
  ∀ mark ∈ marks, mark ∉ text.toList

/-- What follows a scheme, in its parts. Each is free of the marks that would
end it. -/
structure Parts where
  user : Option String
  authority : String
  path : Option String
  query : Option String
  fragment : Option String
  user_free : ∀ text ∈ user, Free ['/', '?', '#'] text
  authority_free : Free ['/', '?', '#', '@'] authority
  path_free : ∀ text ∈ path, Free ['?', '#'] text
  query_free : ∀ text ∈ query, Free ['#'] text

theorem not_mem_append_iff
    {mark : Char}
    {first second : String} :
    mark ∉ (first ++ second).toList ↔
      mark ∉ first.toList ∧ mark ∉ second.toList := by
  rw [String.toList_append, List.mem_append, not_or]

theorem not_mem_opened
    {mark other : Char}
    (differs : other ≠ mark)
    {part : Option String}
    (free : ∀ text ∈ part, other ∉ text.toList) :
    other ∉ (opened mark part).toList := by
  cases part with
  | none => exact List.not_mem_nil
  | some text =>
      rw [opened, not_mem_append_iff, String.toList_singleton,
        List.mem_singleton]
      exact ⟨differs, free text rfl⟩

theorem not_mem_of_opened
    {mark other : Char}
    {part : Option String}
    (absent : other ∉ (opened mark part).toList) :
    ∀ text ∈ part, other ∉ text.toList := by
  rintro text ⟨⟩
  exact (not_mem_append_iff.mp absent).2

theorem not_mem_information
    {other : Char}
    (differs : other ≠ '@')
    {user : Option String}
    (free : ∀ text ∈ user, other ∉ text.toList) :
    other ∉ (information user).toList := by
  cases user with
  | none => exact List.not_mem_nil
  | some text =>
      refine not_mem_append_iff.mpr ⟨free text rfl, ?_⟩
      exact fun member => differs (List.mem_singleton.mp member)

theorem not_mem_of_information
    {other : Char}
    {user : Option String}
    (absent : other ∉ (information user).toList) :
    ∀ text ∈ user, other ∉ text.toList := by
  rintro text ⟨⟩
  exact (not_mem_append_iff.mp absent).1

/-- A text is what it has before a mark and what the mark opens. -/
theorem splitOnce_opened
    {first : String}
    {mark : Char}
    (absent : mark ∉ first.toList)
    (part : Option String) :
    Text.splitOnce (first ++ opened mark part) mark =
      part.map fun text => (first, text) := by
  cases part with
  | none =>
      rw [opened, String.append_empty]
      exact Text.splitOnce_eq_none_iff.mpr absent
  | some text =>
      rw [opened, ← String.append_assoc]
      exact Text.splitOnce_append absent text

theorem splitOnce_opened_getD
    {first : String}
    {mark : Char}
    (absent : mark ∉ first.toList)
    (part : Option String) :
    (Text.splitOnce (first ++ opened mark part) mark).getD
        (first ++ opened mark part, "") =
      (first, part.getD "") := by
  rw [splitOnce_opened absent]
  cases part with
  | none => exact congrArg (fun text => (text, "")) String.append_empty
  | some text => rfl

theorem cutFragment_opened
    {whole : String}
    (absent : '#' ∉ whole.toList)
    (fragment : Option String) :
    cutFragment (whole ++ opened '#' fragment) = (whole, fragment) := by
  rw [cutFragment, splitOnce_opened absent]
  cases fragment with
  | none => exact congrArg (fun text => (text, none)) String.append_empty
  | some text => rfl

theorem cutUser_information
    {authority : String}
    (absent : '@' ∉ authority.toList)
    (user : Option String) :
    cutUser (information user ++ authority) = (user, authority) := by
  cases user with
  | none =>
      rw [information, String.empty_append, cutUser,
        Text.rsplitOnce_eq_none_iff.mpr absent]
  | some text =>
      have splits : Text.rsplitOnce (text ++ "@" ++ authority) '@' =
          some (text, authority) :=
        Text.rsplitOnce_eq_some_iff.mpr ⟨rfl, absent⟩
      rw [information, cutUser, splits]

theorem exists_opened (text : String) (mark : Char) :
    ∃ first part, mark ∉ first.toList ∧ text = first ++ opened mark part := by
  cases splits : Text.splitOnce text mark with
  | none =>
      exact ⟨text, none, Text.splitOnce_eq_none_iff.mp splits,
        String.append_empty.symm⟩
  | some parts =>
      obtain ⟨first, part⟩ := parts
      obtain ⟨rfl, absent⟩ := Text.splitOnce_eq_some_iff.mp splits
      exact ⟨first, some part, absent, String.append_assoc⟩

theorem exists_information (text : String) :
    ∃ user authority, '@' ∉ authority.toList ∧
      text = information user ++ authority := by
  cases splits : Text.rsplitOnce text '@' with
  | none =>
      exact ⟨none, text, Text.rsplitOnce_eq_none_iff.mp splits,
        String.empty_append.symm⟩
  | some parts =>
      obtain ⟨user, authority⟩ := parts
      obtain ⟨rfl, absent⟩ := Text.rsplitOnce_eq_some_iff.mp splits
      exact ⟨some user, authority, absent, rfl⟩

namespace Parts

/-- The user information and the authority. -/
def written (parts : Parts) : String :=
  information parts.user ++ parts.authority

/-- What is before the query. -/
def hierarchy (parts : Parts) : String :=
  parts.written ++ opened '/' parts.path

/-- What is before the fragment. -/
def whole (parts : Parts) : String :=
  parts.hierarchy ++ opened '?' parts.query

/-- The parts put together. -/
def text (parts : Parts) : String :=
  parts.whole ++ opened '#' parts.fragment

/-- The target of the parts after `opening`, which ends the scheme. -/
def target (parts : Parts) (opening scheme : String) : Target where
  text := opening ++ parts.text
  scheme := scheme
  rest := parts.text
  root := opening ++ parts.written
  user := parts.user
  authority := parts.authority
  path := parts.path.getD ""
  query := parts.query.getD ""
  fragment := parts.fragment

theorem written_free (parts : Parts) : Free ['/', '?', '#'] parts.written := by
  intro mark member
  have among : mark ∈ ['/', '?', '#', '@'] :=
    List.mem_append_left ['@'] member
  have other : mark ≠ '@' := by
    rintro rfl
    exact absurd member (by decide)
  exact not_mem_append_iff.mpr
    ⟨not_mem_information other fun text has => parts.user_free text has mark
      member, parts.authority_free mark among⟩

theorem hierarchy_free (parts : Parts) : Free ['?', '#'] parts.hierarchy := by
  intro mark member
  have other : mark ≠ '/' := by
    rintro rfl
    exact absurd member (by decide)
  exact not_mem_append_iff.mpr
    ⟨parts.written_free mark (List.mem_cons_of_mem '/' member),
      not_mem_opened other fun text has => parts.path_free text has mark member⟩

theorem whole_free (parts : Parts) : '#' ∉ parts.whole.toList :=
  not_mem_append_iff.mpr
    ⟨parts.hierarchy_free '#' (by decide),
      not_mem_opened (by decide) fun text has =>
        parts.query_free text has '#' (by decide)⟩

/-- Every text is the parts it is taken apart into. -/
theorem exists_text_eq (text : String) : ∃ parts : Parts, parts.text = text := by
  obtain ⟨whole, fragment, noFragment, rfl⟩ := exists_opened text '#'
  obtain ⟨hierarchy, query, noQuery, rfl⟩ := exists_opened whole '?'
  obtain ⟨written, path, noPath, rfl⟩ := exists_opened hierarchy '/'
  obtain ⟨user, authority, noUser, rfl⟩ := exists_information written
  obtain ⟨hierarchyFree, queryFree⟩ := not_mem_append_iff.mp noFragment
  obtain ⟨writtenFree, pathFree⟩ := not_mem_append_iff.mp hierarchyFree
  obtain ⟨userFree, authorityFree⟩ := not_mem_append_iff.mp writtenFree
  obtain ⟨written', path'⟩ := not_mem_append_iff.mp noQuery
  obtain ⟨user', authority'⟩ := not_mem_append_iff.mp written'
  obtain ⟨user'', authority''⟩ := not_mem_append_iff.mp noPath
  refine ⟨⟨user, authority, path, query, fragment, ?_, ?_, ?_, ?_⟩, rfl⟩
  · intro text has
    exact List.forall_mem_cons.mpr ⟨not_mem_of_information user'' text has,
      List.forall_mem_cons.mpr ⟨not_mem_of_information user' text has,
        List.forall_mem_singleton.mpr
          (not_mem_of_information userFree text has)⟩⟩
  · exact List.forall_mem_cons.mpr ⟨authority'',
      List.forall_mem_cons.mpr ⟨authority',
        List.forall_mem_cons.mpr ⟨authorityFree,
          List.forall_mem_singleton.mpr noUser⟩⟩⟩
  · intro text has
    exact List.forall_mem_cons.mpr ⟨not_mem_of_opened path' text has,
      List.forall_mem_singleton.mpr (not_mem_of_opened pathFree text has)⟩
  · intro text has
    exact List.forall_mem_singleton.mpr (not_mem_of_opened queryFree text has)

theorem minus_size (opening rest : String) :
    Text.minus (Text.size (opening ++ rest)) (Text.size rest) =
      .ok (Text.size opening) := by
  rw [Text.size_append, Text.minus_eq_ok (Nat.le_add_left _ _),
    Nat.add_sub_cancel]

theorem sliceTo_written (parts : Parts) (opening : String) :
    Text.sliceTo (opening ++ parts.text)
        (Text.size opening + Text.size parts.written) =
      .ok (opening ++ parts.written) := by
  have split : opening ++ parts.text = opening ++ parts.written ++
      (opened '/' parts.path ++ opened '?' parts.query ++
        opened '#' parts.fragment) := by
    simp only [text, whole, hierarchy, String.append_assoc]
  rw [split, ← Text.size_append, Text.sliceTo_append]

/-- A text is taken apart into its parts. -/
theorem split_text (parts : Parts) (opening scheme : String) :
    split (opening ++ parts.text) scheme parts.text =
      .ok (parts.target opening scheme) := by
  have fragments : cutFragment parts.text = (parts.whole, parts.fragment) :=
    cutFragment_opened parts.whole_free parts.fragment
  have queries : (Text.splitOnce parts.whole '?').getD (parts.whole, "") =
      (parts.hierarchy, parts.query.getD "") :=
    splitOnce_opened_getD (parts.hierarchy_free '?' (by decide)) parts.query
  have paths : (Text.splitOnce parts.hierarchy '/').getD (parts.hierarchy, "") =
      (parts.written, parts.path.getD "") :=
    splitOnce_opened_getD (parts.written_free '/' (by decide)) parts.path
  have users : cutUser parts.written = (parts.user, parts.authority) :=
    cutUser_information (parts.authority_free '@' (by decide)) parts.user
  have before := minus_size opening parts.text
  have root := sliceTo_written parts opening
  simp only [split, fragments, queries, paths, users, before, bind, Except.bind,
    root]
  rfl

/-- What is before the fragment's mark is the target without its fragment. -/
theorem absolute_target (parts : Parts) (opening scheme : String) :
    (parts.target opening scheme).absolute = .ok (opening ++ parts.whole) := by
  cases fragment : parts.fragment with
  | none =>
      have all : parts.text = parts.whole := by
        rw [text, fragment, opened, String.append_empty]
      rw [absolute, target, fragment, all]
  | some found =>
      have all : opening ++ parts.text = opening ++ parts.whole ++
          (String.singleton '#' ++ found) := by
        rw [text, fragment, opened, String.append_assoc]
      have long : Text.size (opening ++ parts.text) =
          Text.size (opening ++ parts.whole) + (1 + Text.size found) := by
        rw [all, Text.size_append, Text.size_append (String.singleton '#')]
        rfl
      have place : Text.size (opening ++ parts.text) - Text.size found - 1 =
          Text.size (opening ++ parts.whole) := by
        omega
      have first : Text.size found ≤ Text.size (opening ++ parts.text) := by
        omega
      have second : 1 ≤ Text.size (opening ++ parts.text) - Text.size found := by
        omega
      rw [absolute, target, fragment]
      simp only [Text.minus_eq_ok first, Text.minus_eq_ok second, bind,
        Except.bind, place]
      rw [all, Text.sliceTo_append]

end Parts

/-! ## Targets that are read -/

/-- A scheme holds letters, digits and three marks. -/
theorem not_mem_of_isScheme
    {scheme : String}
    (valid : isScheme scheme = true)
    {mark : Char}
    (letter : mark.isAlphanum = false)
    (other : mark ∉ ['+', '-', '.']) :
    mark ∉ scheme.toList := by
  intro member
  rw [isScheme] at valid
  split at valid
  · cases valid
  next first others characters =>
    rw [characters] at member
    rw [Bool.and_eq_true] at valid
    simp only [List.mem_cons, List.not_mem_nil, or_false, not_or] at other
    rcases List.mem_cons.mp member with rfl | later
    · rw [Char.isAlphanum, valid.1] at letter
      cases letter
    · have kept := List.all_eq_true.mp valid.2 mark later
      simp only [letter, other, decide_false, Bool.or_self] at kept
      cases kept

theorem colon_of_isScheme
    {scheme : String}
    (valid : isScheme scheme = true) :
    ':' ∉ scheme.toList :=
  not_mem_of_isScheme valid rfl (by decide)

theorem splitOnceAt_scheme
    {scheme : String}
    (absent : ':' ∉ scheme.toList)
    (rest : String) :
    Text.splitOnceAt (scheme ++ "://" ++ rest) "://" = some (scheme, rest) :=
  Text.splitOnceAt_append absent "//" rest

theorem parse_scheme
    {scheme : String}
    (valid : isScheme scheme = true)
    (parts : Parts) :
    parse (scheme ++ "://" ++ parts.text) =
      .ok (parts.target (scheme ++ "://") scheme) := by
  have splits := splitOnceAt_scheme (colon_of_isScheme valid) parts.text
  rw [parse, splits, Option.filter_some, if_pos valid]
  exact parts.split_text (scheme ++ "://") scheme

/-- What is read under a scheme is the scheme, its mark and the parts. -/
theorem exists_of_parse
    {text : String}
    {target : Target}
    (reads : parse text = .ok target) :
    ∃ scheme, ∃ parts : Parts, isScheme scheme = true ∧
      text = scheme ++ "://" ++ parts.text ∧
        target = parts.target (scheme ++ "://") scheme := by
  cases splits : (Text.splitOnceAt text "://").filter
      fun parts => isScheme parts.1 with
  | none =>
      rw [parse, splits] at reads
      cases reads
  | some found =>
      obtain ⟨scheme, rest⟩ := found
      obtain ⟨once, valid⟩ := Option.filter_eq_some_iff.mp splits
      obtain ⟨parts, rfl⟩ := Parts.exists_text_eq rest
      obtain rfl := Text.of_splitOnceAt once
      rw [parse_scheme valid] at reads
      exact ⟨scheme, parts, valid, rfl, (Except.ok.inj reads).symm⟩

/-- Reading under a scheme takes no slice out of range. -/
theorem parse_ne_panicked (text : String) : parse text ≠ .error .panicked := by
  intro panics
  cases splits : (Text.splitOnceAt text "://").filter
      fun parts => isScheme parts.1 with
  | none =>
      rw [parse, splits] at panics
      cases panics
  | some found =>
      obtain ⟨scheme, rest⟩ := found
      obtain ⟨once, valid⟩ := Option.filter_eq_some_iff.mp splits
      obtain ⟨parts, rfl⟩ := Parts.exists_text_eq rest
      obtain rfl := Text.of_splitOnceAt once
      rw [parse_scheme valid] at panics
      cases panics

theorem bare_text (parts : Parts) :
    bare parts.text = .ok (parts.target "" "") := by
  have reads := parts.split_text "" ""
  rwa [String.empty_append] at reads

/-! ## What a target keeps of its text -/

/-- A target's parts are free of the marks that would end them, its fragment is
what comes after the first `#`, and its segments joined are its path. -/
structure Separated (target : Target) : Prop where
  user : ∀ user ∈ target.user, Free ['/', '?', '#'] user
  authority : Free ['/', '?', '#', '@'] target.authority
  path : Free ['?', '#'] target.path
  query : Free ['#'] target.query
  absolute : ∃ whole, target.absolute = .ok whole ∧ '#' ∉ whole.toList ∧
    target.text = whole ++ opened '#' target.fragment
  segments : ∀ segments, target.segments = .ok segments →
    "/".intercalate segments = target.path

/-- A target's text is `opening`, the user information where there is any, the
authority, the path where there is a slash, the query where there is a question
mark, and the fragment where there is a hash; and its root ends with the
authority. -/
structure Reassembled (opening : String) (target : Target) : Prop where
  text : ∃ path query, target.path = path.getD "" ∧
    target.query = query.getD "" ∧
      target.text = opening ++ information target.user ++ target.authority ++
        opened '/' path ++ opened '?' query ++ opened '#' target.fragment
  root : target.root = opening ++ information target.user ++ target.authority
  rest : target.text = opening ++ target.afterScheme

/-- A relative target's text is its path, its query and its fragment alone. -/
structure Alone (target : Target) : Prop where
  text : ∃ query, target.query = query.getD "" ∧
    target.text = target.path ++ opened '?' query ++ opened '#' target.fragment
  root : target.root = ""
  user : target.user = none
  authority : target.authority = ""
  rest : target.text = target.afterScheme

theorem free_getD
    {marks : List Char}
    {part : Option String}
    (free : ∀ text ∈ part, Free marks text) :
    Free marks (part.getD "") := by
  cases part with
  | none => exact fun _ _ => List.not_mem_nil
  | some text => exact free text rfl

/-- Segments joined are the path they were taken from. -/
theorem intercalate_segments
    {target : Target}
    {segments : List String}
    (given : target.segments = .ok segments) :
    "/".intercalate segments = target.path := by
  rw [Target.segments] at given
  split at given
  next empty =>
    cases given
    rw [empty]
    rfl
  next nonempty =>
    split at given
    · cases given
    · cases given
      rw [← String.toList_inj, String.toList_intercalate, Text.split,
        List.map_map]
      have plain : String.toList ∘ String.ofList = id :=
        funext fun _ => String.toList_ofList
      rw [plain, List.map_id]
      exact List.intercalate_splitOn '/'

theorem Parts.separated
    (parts : Parts)
    {opening : String}
    (plain : '#' ∉ opening.toList)
    (scheme : String) :
    Separated (parts.target opening scheme) where
  user := parts.user_free
  authority := parts.authority_free
  path := free_getD parts.path_free
  query := free_getD parts.query_free
  absolute := by
    refine ⟨opening ++ parts.whole, parts.absolute_target opening scheme,
      not_mem_append_iff.mpr ⟨plain, parts.whole_free⟩, ?_⟩
    rw [String.append_assoc]
    rfl
  segments _ := intercalate_segments

theorem Parts.reassembled (parts : Parts) (opening scheme : String) :
    Reassembled opening (parts.target opening scheme) where
  text := by
    refine ⟨parts.path, parts.query, rfl, rfl, ?_⟩
    simp only [Parts.target, Parts.text, Parts.whole, Parts.hierarchy,
      Parts.written, String.append_assoc]
  root := String.append_assoc.symm
  rest := rfl

/-- User information is a user name and the password it opens with a colon. -/
theorem credentials
    {target : Target}
    {user : String}
    (has : target.user = some user)
    (decode : String → String) :
    ∃ name secret, ':' ∉ name.toList ∧ user = name ++ opened ':' secret ∧
      target.userName decode = some (decode name) ∧
        target.password decode = secret.map decode := by
  obtain ⟨name, secret, absent, rfl⟩ := exists_opened user ':'
  have splits := splitOnce_opened absent secret
  refine ⟨name, secret, absent, rfl, ?_, ?_⟩
  · rw [userName, has, Option.map_some, splits]
    cases secret with
    | none => exact congrArg (some ∘ decode) String.append_empty
    | some text => rfl
  · rw [password, has, Option.bind_some, splits, Option.map_map]
    rfl

/-! ## Relative targets -/

/-- What comes after a path is none of it. -/
theorem pathOf_append
    {path after : String}
    (free : Free ['?', '#'] path)
    (ends : after = "" ∨ Text.opensWith after '?' = true ∨
      Text.opensWith after '#' = true) :
    pathOf (path ++ after) = path := by
  have goes : ∀ character ∈ path.toList,
      decide (character ≠ '?' ∧ character ≠ '#') = true := by
    intro character member
    refine decide_eq_true ⟨?_, ?_⟩
    · rintro rfl
      exact free '?' (by decide) member
    · rintro rfl
      exact free '#' (by decide) member
  have stops : after.toList.takeWhile
      (fun character => decide (character ≠ '?' ∧ character ≠ '#')) = [] := by
    rcases ends with rfl | opens | opens
    · rfl
    · obtain ⟨rest, rfl⟩ := Text.exists_of_opensWith opens
      rw [String.toList_append, String.toList_singleton, List.singleton_append]
      rfl
    · obtain ⟨rest, rfl⟩ := Text.exists_of_opensWith opens
      rw [String.toList_append, String.toList_singleton, List.singleton_append]
      rfl
  rw [pathOf, String.toList_append, List.takeWhile_append_of_pos goes, stops,
    List.append_nil, String.ofList_toList]

theorem opensWith_references (query fragment : Option String) :
    let after := opened '?' query ++ opened '#' fragment
    after = "" ∨ Text.opensWith after '?' = true ∨
      Text.opensWith after '#' = true := by
  cases query with
  | some text =>
      refine Or.inr (Or.inl ?_)
      rw [opened, String.append_assoc]
      exact Text.opensWith_singleton_append '?' _
  | none =>
      cases fragment with
      | none => exact Or.inl rfl
      | some text =>
          refine Or.inr (Or.inr ?_)
          rw [opened, String.empty_append]
          exact Text.opensWith_singleton_append '#' text

/-- A query and a fragment, and nothing before them. -/
def Parts.references
    (query fragment : Option String)
    (free : ∀ text ∈ query, Free ['#'] text) : Parts where
  user := none
  authority := ""
  path := none
  query := query
  fragment := fragment
  user_free := by rintro text ⟨⟩
  authority_free := fun _ _ => List.not_mem_nil
  path_free := by rintro text ⟨⟩
  query_free := free

theorem Parts.text_references
    (query fragment : Option String)
    (free : ∀ text ∈ query, Free ['#'] text) :
    (Parts.references query fragment free).text =
      opened '?' query ++ opened '#' fragment := by
  rw [Parts.text, Parts.whole, Parts.hierarchy, Parts.written]
  simp only [Parts.references, information, opened, String.empty_append]

theorem relative_text
    {path : String}
    (pathFree : Free ['?', '#'] path)
    (query fragment : Option String)
    (free : ∀ text ∈ query, Free ['#'] text) :
    relative (path ++ (Parts.references query fragment free).text) =
      .ok { (Parts.references query fragment free).target path "" with
        rest := path ++ (Parts.references query fragment free).text
        root := ""
        path := path } := by
  have first : pathOf (path ++ (Parts.references query fragment free).text) =
      path := by
    rw [Parts.text_references]
    exact pathOf_append pathFree (opensWith_references query fragment)
  rw [relative, first]
  simp only [Text.sliceFrom_append, Parts.split_text, bind, Except.bind]
  rfl

/-- A relative target keeps its text. -/
theorem exists_relative (text : String) :
    ∃ target, relative text = .ok target ∧ target.scheme = "" ∧
      target.text = text ∧ Alone target ∧ Separated target := by
  obtain ⟨whole, fragment, noFragment, rfl⟩ := exists_opened text '#'
  obtain ⟨path, query, noQuery, rfl⟩ := exists_opened whole '?'
  obtain ⟨pathFree, queryFree⟩ := not_mem_append_iff.mp noFragment
  have free : ∀ text ∈ query, Free ['#'] text := fun text has =>
    List.forall_mem_singleton.mpr (not_mem_of_opened queryFree text has)
  have marks : Free ['?', '#'] path := List.forall_mem_cons.mpr
    ⟨noQuery, List.forall_mem_singleton.mpr pathFree⟩
  have references := Parts.text_references query fragment free
  have reads := relative_text marks query fragment free
  have same : path ++ opened '?' query ++ opened '#' fragment =
      path ++ (Parts.references query fragment free).text := by
    rw [references, String.append_assoc]
  have separated := (Parts.references query fragment free).separated pathFree ""
  rw [same]
  refine ⟨_, reads, rfl, rfl, ⟨?_, rfl, rfl, rfl, rfl⟩, ?_⟩
  · exact ⟨query, rfl, same.symm⟩
  · exact {
      user := separated.user
      authority := separated.authority
      path := marks
      query := separated.query
      absolute := separated.absolute
      segments := fun _ => intercalate_segments }

/-- Reading takes no slice out of range, and every part of a target is what its
text has there: put together again, the parts are the text. -/
theorem read_lossless (text : String) :
    (parse text ≠ .error .panicked ∧
      ∀ target, parse text = .ok target → isScheme target.scheme = true ∧
        target.text = text ∧ Reassembled (target.scheme ++ "://") target ∧
          Separated target) ∧
    (∃ target, bare text = .ok target ∧ target.scheme = "" ∧
      target.text = text ∧ Reassembled "" target ∧ Separated target) ∧
    ∃ target, relative text = .ok target ∧ target.scheme = "" ∧
      target.text = text ∧ Alone target ∧ Separated target := by
  refine ⟨⟨parse_ne_panicked text, ?_⟩, ?_, exists_relative text⟩
  · intro target reads
    obtain ⟨scheme, parts, valid, rfl, rfl⟩ := exists_of_parse reads
    have plain : '#' ∉ (scheme ++ "://").toList := not_mem_append_iff.mpr
      ⟨not_mem_of_isScheme valid rfl (by decide), by decide⟩
    exact ⟨valid, rfl, parts.reassembled _ scheme,
      parts.separated plain scheme⟩
  · obtain ⟨parts, rfl⟩ := Parts.exists_text_eq text
    exact ⟨_, bare_text parts, rfl, String.empty_append,
      parts.reassembled "" "", parts.separated List.not_mem_nil ""⟩

theorem read_lossless_node :
    ∃ target, parse "opc.tcp://plant:4840/line/a?x=1#ns=2;s=Orders" = .ok target ∧
      Reassembled "opc.tcp://" target ∧ Separated target := by
  have kept := read_lossless "opc.tcp://plant:4840/line/a?x=1#ns=2;s=Orders"
  obtain ⟨target, reads, scheme⟩ : ∃ target,
      parse "opc.tcp://plant:4840/line/a?x=1#ns=2;s=Orders" = .ok target ∧
        target.scheme = "opc.tcp" := ⟨_, rfl, rfl⟩
  obtain ⟨_, _, reassembled, separated⟩ := kept.1.2 target reads
  rw [scheme] at reassembled
  exact ⟨target, reads, reassembled, separated⟩

end Target
end XmipNet

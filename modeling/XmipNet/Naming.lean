import XmipNet.Target

/-!
# Whether a target names its server

What decides it is what comes before the query and the fragment, but for one
thing: a scheme's mark is looked for in the whole text. A query or a fragment
that holds one hides the host and the port of a target that writes no scheme.
-/

namespace XmipNet
namespace Target

/-- What a target tells of the server it names. -/
def server (target : Target) : String × String × String :=
  (target.scheme, target.authority, target.path)

/-- The server a target names, where it names one. -/
def serverOf (schemes : List String) (text : String) :
    Except Halt (Option (String × String × String)) :=
  (namingServer schemes text).map (Option.map server)

/-- `text` opens with a host and a port, and a slash after them. -/
def NamesPeer (text : String) : Prop :=
  ∃ user authority path, text = information user ++ authority ++ "/" ++ path ∧
    '/' ∉ (information user ++ authority).toList ∧ '@' ∉ authority.toList ∧
      ':' ∈ authority.toList

/-- What ends a target's path, or nothing. -/
def Suffix (text : String) : Prop :=
  text = "" ∨ Text.opensWith text '?' = true ∨ Text.opensWith text '#' = true

/-! ## A query and a fragment after what has none -/

theorem exists_references
    {suffix : String}
    (ends : Suffix suffix) :
    ∃ query fragment, (∀ text ∈ query, Free ['#'] text) ∧
      suffix = opened '?' query ++ opened '#' fragment := by
  obtain ⟨whole, fragment, noFragment, rfl⟩ := exists_opened suffix '#'
  obtain ⟨first, query, noQuery, rfl⟩ := exists_opened whole '?'
  obtain ⟨firstFree, queryFree⟩ := not_mem_append_iff.mp noFragment
  have empty : first = "" := by
    by_contra nonempty
    have opens := Text.opensWith_append nonempty
      (opened '?' query ++ opened '#' fragment)
    rw [← String.append_assoc] at opens
    rcases ends with none | mark | mark
    · rw [String.append_assoc, String.append_eq_empty_iff] at none
      exact nonempty none.1
    · rw [opens] at mark
      exact noQuery (Text.mem_of_opensWith mark)
    · rw [opens] at mark
      exact firstFree (Text.mem_of_opensWith mark)
  refine ⟨query, fragment, fun text has => ?_, ?_⟩
  · exact List.forall_mem_singleton.mpr (not_mem_of_opened queryFree text has)
  · rw [empty, String.empty_append]

namespace Parts

/-- The same parts before a query and a fragment. -/
def followed
    (parts : Parts)
    (query fragment : Option String)
    (free : ∀ text ∈ query, Free ['#'] text) : Parts :=
  { parts with query := query, fragment := fragment, query_free := free }

theorem exists_hierarchy_eq
    {text : String}
    (plain : Free ['?', '#'] text) :
    ∃ parts : Parts, parts.query = none ∧ parts.fragment = none ∧
      parts.text = text := by
  obtain ⟨parts, rfl⟩ := exists_text_eq text
  obtain ⟨wholePlain, fragmentPlain⟩ :=
    not_mem_append_iff.mp (plain '#' (by decide))
  obtain ⟨noQuery, _⟩ := not_mem_append_iff.mp (plain '?' (by decide))
  obtain ⟨_, queryPlain⟩ := not_mem_append_iff.mp noQuery
  refine ⟨parts, ?_, ?_, rfl⟩
  · cases query : parts.query with
    | none => rfl
    | some given =>
        rw [query, opened, not_mem_append_iff, String.toList_singleton]
          at queryPlain
        exact absurd List.mem_cons_self queryPlain.1
  · cases fragment : parts.fragment with
    | none => rfl
    | some given =>
        rw [fragment, opened, not_mem_append_iff, String.toList_singleton]
          at fragmentPlain
        exact absurd List.mem_cons_self fragmentPlain.1

theorem text_followed
    {parts : Parts}
    (noQuery : parts.query = none)
    (noFragment : parts.fragment = none)
    (query fragment : Option String)
    (free : ∀ text ∈ query, Free ['#'] text) :
    (parts.followed query fragment free).text =
      parts.text ++ (opened '?' query ++ opened '#' fragment) := by
  have plain : parts.text = parts.hierarchy := by
    rw [text, whole, noQuery, noFragment, opened, String.append_empty, opened,
      String.append_empty]
  rw [plain, ← String.append_assoc]
  rfl

/-- Parts are written as a host and a port and a slash where their authority
has a port and they have a path. -/
theorem namesPeer_iff
    {parts : Parts}
    (noQuery : parts.query = none)
    (noFragment : parts.fragment = none) :
    NamesPeer parts.text ↔
      ':' ∈ parts.authority.toList ∧ parts.path.isSome = true := by
  have plain : parts.text = parts.written ++ opened '/' parts.path := by
    rw [text, whole, noQuery, noFragment, opened, String.append_empty, opened,
      String.append_empty, hierarchy]
  constructor
  · rintro ⟨user, authority, path, same, noSlash, noAt, colon⟩
    have first := splitOnce_opened (parts.written_free '/' (by decide))
      parts.path
    have second := Text.splitOnce_append noSlash path
    rw [← plain, same, show "/" = String.singleton '/' from rfl, second]
      at first
    cases has : parts.path with
    | none =>
        rw [has] at first
        cases first
    | some given =>
        rw [has, Option.map_some] at first
        have taken := (Prod.mk.inj (Option.some.inj first)).1
        have users := cutUser_information noAt user
        rw [taken, written, cutUser_information
          (parts.authority_free '@' (by decide))] at users
        rw [(Prod.mk.inj users).2]
        exact ⟨colon, rfl⟩
  · rintro ⟨colon, has⟩
    obtain ⟨path, same⟩ := Option.isSome_iff_exists.mp has
    refine ⟨parts.user, parts.authority, path, ?_,
      parts.written_free '/' (by decide),
      parts.authority_free '@' (by decide), colon⟩
    rw [plain, same, String.append_assoc]
    rfl

end Parts

/-! ## The two ways a target names its server -/

theorem sliceFrom_root (parts : Parts) :
    Text.sliceFrom parts.text (Text.size parts.written) =
      .ok (opened '/' parts.path ++ opened '?' parts.query ++
        opened '#' parts.fragment) := by
  rw [Parts.text, Parts.whole, Parts.hierarchy, String.append_assoc,
    String.append_assoc, Text.sliceFrom_append, String.append_assoc]

theorem not_opensWith_of_opensWith
    {text : String}
    {mark other : Char}
    (opens : Text.opensWith text mark = true)
    (differs : mark ≠ other) :
    Text.opensWith text other = false := by
  obtain ⟨rest, rfl⟩ := Text.exists_of_opensWith opens
  rw [Text.opensWith, String.toList_append, String.toList_singleton,
    List.singleton_append, List.head?_cons]
  exact decide_eq_false fun same => differs (Option.some.inj same)

theorem opensWith_slash (parts : Parts) :
    Text.opensWith (opened '/' parts.path ++ opened '?' parts.query ++
      opened '#' parts.fragment) '/' = parts.path.isSome := by
  cases parts.path with
  | some path =>
      rw [opened, String.append_assoc, String.append_assoc]
      exact Text.opensWith_singleton_append '/' _
  | none =>
      rw [opened, String.empty_append]
      rcases opensWith_references parts.query parts.fragment with
        empty | opens | opens
      · rw [empty]
        rfl
      · exact not_opensWith_of_opensWith opens (by decide)
      · exact not_opensWith_of_opensWith opens (by decide)

/-- A text without a scheme's mark names its server as a host and a port. -/
theorem serverOf_bare
    {parts : Parts}
    (unmarked : Text.contains parts.text "://" = false)
    (schemes : List String) :
    serverOf schemes parts.text = .ok
      (if ':' ∈ parts.authority.toList ∧ parts.path.isSome = true then
        some ("", parts.authority, parts.path.getD "")
      else
        none) := by
  have root : (parts.target "" "").root = parts.written := String.empty_append
  have marked : ¬Text.contains parts.text "://" = true := by
    rw [unmarked]
    exact Bool.false_ne_true
  have authority : (parts.target "" "").authority = parts.authority := rfl
  rw [serverOf, namingServer, if_neg marked, bare_text]
  simp only [bind, Except.bind, root, sliceFrom_root, opensWith_slash,
    authority]
  by_cases colon : ':' ∈ parts.authority.toList
  · cases slash : parts.path.isSome with
    | true =>
        simp only [colon, and_self, if_true]
        rfl
    | false =>
        simp only [colon, if_true, Bool.false_eq_true, if_false, and_false]
        rfl
  · simp only [colon, if_false, false_and]
    rfl

/-- A text with a scheme's mark names its server under its scheme. -/
theorem serverOf_scheme
    {text scheme : String}
    {parts : Parts}
    (splits : Text.splitOnceAt text "://" = some (scheme, parts.text))
    (schemes : List String) :
    serverOf schemes text = .ok
      (if isScheme scheme = true ∧
          (parts.target (scheme ++ "://") scheme).is schemes = true then
        some (scheme, parts.authority, parts.path.getD "")
      else
        none) := by
  have marked : Text.contains text "://" = true := by
    rw [Text.contains_eq_isSome, splits]
    rfl
  rw [serverOf, namingServer, if_pos marked, under, parse, splits]
  cases valid : isScheme scheme with
  | false =>
      rw [Option.filter_some, if_neg (by rw [valid]; exact Bool.false_ne_true)]
      simp only [Bool.false_eq_true, false_and, if_false]
      rfl
  | true =>
      rw [Option.filter_some, if_pos valid, Text.of_splitOnceAt splits]
      simp only [Parts.split_text, Halt.ok, bind, Except.bind,
        Option.filter_some]
      cases named : (parts.target (scheme ++ "://") scheme).is schemes with
      | true =>
          simp only [and_self, if_true]
          rfl
      | false =>
          simp only [Bool.false_eq_true, and_false, if_false]
          rfl

/-! ## What a suffix changes -/

/-- A suffix changes nothing of a text that holds a scheme's mark. -/
theorem serverOf_append_of_contains
    {text suffix : String}
    (plain : Free ['?', '#'] text)
    (ends : Suffix suffix)
    (marked : Text.contains text "://" = true)
    (schemes : List String) :
    serverOf schemes (text ++ suffix) = serverOf schemes text := by
  obtain ⟨query, fragment, free, rfl⟩ := exists_references ends
  obtain ⟨⟨first, rest⟩, cuts⟩ := Option.isSome_iff_exists.mp marked
  have splits : Text.splitOnceAt text "://" =
      some (String.ofList first, String.ofList rest) := by
    rw [Text.splitOnceAt, cuts]
    rfl
  have restPlain : Free ['?', '#'] (String.ofList rest) := by
    intro mark member
    have absent := plain mark member
    rw [Text.of_splitOnceAt splits, not_mem_append_iff] at absent
    exact absent.2
  obtain ⟨parts, noQuery, noFragment, same⟩ :=
    Parts.exists_hierarchy_eq restPlain
  have goes : Text.splitOnceAt
      (text ++ (opened '?' query ++ opened '#' fragment)) "://" =
      some (String.ofList first, (parts.followed query fragment free).text) := by
    rw [Text.splitOnceAt, String.toList_append,
      Splitting.cutAt_append_of_some cuts,
      Parts.text_followed noQuery noFragment, same, Option.map_some,
      String.ofList_append, String.ofList_toList]
  rw [← same] at splits
  rw [serverOf_scheme splits, serverOf_scheme goes]
  rfl

/-- A text that holds no scheme's mark names its server where it opens with a
host and a port. -/
theorem serverOf_eq_none_iff
    {text : String}
    (plain : Free ['?', '#'] text)
    (unmarked : Text.contains text "://" = false)
    (schemes : List String) :
    serverOf schemes text = .ok none ↔ ¬NamesPeer text := by
  obtain ⟨parts, noQuery, noFragment, rfl⟩ := Parts.exists_hierarchy_eq plain
  rw [serverOf_bare unmarked, Parts.namesPeer_iff noQuery noFragment]
  constructor
  · intro none names
    rw [if_pos names] at none
    cases none
  · intro names
    rw [if_neg names]

theorem exists_mark
    {suffix : String}
    (ends : Suffix suffix) :
    suffix = "" ∨ ∃ mark more, mark ∈ ['?', '#'] ∧
      suffix = String.singleton mark ++ more := by
  rcases ends with empty | opens | opens
  · exact Or.inl empty
  · obtain ⟨more, same⟩ := Text.exists_of_opensWith opens
    exact Or.inr ⟨'?', more, by decide, same⟩
  · obtain ⟨more, same⟩ := Text.exists_of_opensWith opens
    exact Or.inr ⟨'#', more, by decide, same⟩

/-- A scheme's mark is found in a suffix where it is not before it, and what is
before it is no scheme. -/
theorem splitOnceAt_mark
    {text : String}
    (unmarked : Text.contains text "://" = false)
    {mark : Char}
    (isMark : mark ∈ ['?', '#'])
    (more : String) :
    Text.splitOnceAt (text ++ (String.singleton mark ++ more)) "://" =
      (Text.splitOnceAt more "://").map fun parts =>
        (text ++ (String.singleton mark ++ parts.1), parts.2) := by
  have uncut : Splitting.cutAt "://".toList text.toList = none := by
    rw [Text.contains, Option.isSome_eq_false_iff] at unmarked
    exact Option.isNone_iff_eq_none.mp unmarked
  have foreign : mark ∉ "://".toList := by
    intro member
    simp only [List.mem_cons, List.not_mem_nil, or_false] at isMark
    rcases isMark with rfl | rfl <;> exact absurd member (by decide)
  have found := Splitting.cutAt_append_of_none uncut foreign (by decide)
    more.toList
  have whole : (text ++ (String.singleton mark ++ more)).toList =
      text.toList ++ mark :: more.toList := by
    rw [String.toList_append, String.toList_append, String.toList_singleton,
      List.singleton_append]
  rw [Text.splitOnceAt, whole, found, Text.splitOnceAt, Option.map_map,
    Option.map_map]
  congr 1
  funext parts
  refine Prod.ext ?_ rfl
  rw [Function.comp_apply, ← String.toList_inj, String.toList_ofList,
    Function.comp_apply, String.toList_append, String.toList_append,
    String.toList_singleton, String.toList_ofList, List.singleton_append]

theorem contains_mark
    {text : String}
    (unmarked : Text.contains text "://" = false)
    {mark : Char}
    (isMark : mark ∈ ['?', '#'])
    (more : String) :
    Text.contains (text ++ (String.singleton mark ++ more)) "://" =
      Text.contains more "://" := by
  rw [Text.contains_eq_isSome, splitOnceAt_mark unmarked isMark,
    Option.isSome_map, Text.contains_eq_isSome]

/-- A suffix holds a scheme's mark past its own. -/
theorem contains_suffix
    {mark : Char}
    (isMark : mark ∈ ['?', '#'])
    (more : String) :
    Text.contains (String.singleton mark ++ more) "://" =
      Text.contains more "://" := by
  have empty : Text.contains "" "://" = false := rfl
  have same := contains_mark empty isMark more
  rwa [String.empty_append] at same

/-- A scheme's mark in a suffix hides the server of a text that has none. -/
theorem serverOf_append_of_hidden
    {text suffix : String}
    (unmarked : Text.contains text "://" = false)
    (ends : Suffix suffix)
    (marked : Text.contains suffix "://" = true)
    (schemes : List String) :
    serverOf schemes (text ++ suffix) = .ok none := by
  rcases exists_mark ends with rfl | ⟨mark, more, isMark, rfl⟩
  · cases marked
  · rw [contains_suffix isMark, Text.contains_eq_isSome] at marked
    obtain ⟨⟨first, rest⟩, cuts⟩ := Option.isSome_iff_exists.mp marked
    obtain ⟨parts, rfl⟩ := Parts.exists_text_eq rest
    have splits := splitOnceAt_mark unmarked isMark more
    rw [cuts, Option.map_some] at splits
    have member : mark ∈ (text ++ (String.singleton mark ++ first)).toList := by
      rw [String.toList_append, String.toList_append, String.toList_singleton]
      exact List.mem_append_right _ List.mem_cons_self
    have invalid : ¬isScheme (text ++ (String.singleton mark ++ first)) =
        true := by
      intro valid
      simp only [List.mem_cons, List.not_mem_nil, or_false] at isMark
      rcases isMark with rfl | rfl
      · exact not_mem_of_isScheme valid rfl (by decide) member
      · exact not_mem_of_isScheme valid rfl (by decide) member
    rw [serverOf_scheme splits, if_neg fun both => invalid both.1]

/-- A suffix without a scheme's mark changes nothing of a text without one. -/
theorem serverOf_append_of_unmarked
    {text suffix : String}
    (plain : Free ['?', '#'] text)
    (unmarked : Text.contains text "://" = false)
    (ends : Suffix suffix)
    (clean : Text.contains suffix "://" = false)
    (schemes : List String) :
    serverOf schemes (text ++ suffix) = serverOf schemes text := by
  have whole : Text.contains (text ++ suffix) "://" = false := by
    rcases exists_mark ends with rfl | ⟨mark, more, isMark, rfl⟩
    · rwa [String.append_empty]
    · rwa [contains_mark unmarked isMark, ← contains_suffix isMark]
  obtain ⟨query, fragment, free, rfl⟩ := exists_references ends
  obtain ⟨parts, noQuery, noFragment, rfl⟩ := Parts.exists_hierarchy_eq plain
  rw [← Parts.text_followed noQuery noFragment query fragment free] at whole ⊢
  rw [serverOf_bare whole, serverOf_bare unmarked]
  rfl

/-- What comes before the query and the fragment alone decides the server a
target names, where and only where it is not the query or the fragment that
holds a scheme's mark beside a host and a port written without one. -/
theorem serverOf_append_iff
    {text suffix : String}
    (plain : Free ['?', '#'] text)
    (ends : Suffix suffix)
    (schemes : List String) :
    serverOf schemes (text ++ suffix) = serverOf schemes text ↔
      (Text.contains suffix "://" = false ∨
        Text.contains text "://" = true ∨ ¬NamesPeer text) := by
  cases marked : Text.contains text "://" with
  | true =>
      have same := serverOf_append_of_contains plain ends marked schemes
      exact ⟨fun _ => Or.inr (Or.inl rfl), fun _ => same⟩
  | false =>
      cases hides : Text.contains suffix "://" with
      | false =>
          have same := serverOf_append_of_unmarked plain marked ends hides
            schemes
          exact ⟨fun _ => Or.inl rfl, fun _ => same⟩
      | true =>
          rw [serverOf_append_of_hidden marked ends hides]
          constructor
          · intro same
            exact Or.inr (Or.inr
              ((serverOf_eq_none_iff plain marked schemes).mp same.symm))
          · rintro (⟨⟨⟩⟩ | ⟨⟨⟩⟩ | unnamed)
            exact ((serverOf_eq_none_iff plain marked schemes).mpr
              unnamed).symm

/-- A reply address in the query changes nothing where the scheme is written. -/
theorem serverOf_append_iff_schemed :
    serverOf ["mq"] ("mq://h:1414/QM1/Q" ++ "?reply=http://x") =
      serverOf ["mq"] "mq://h:1414/QM1/Q" := by
  have plain : Free ['?', '#'] "mq://h:1414/QM1/Q" :=
    Text.forall_mem_of_all (by decide)
  exact (serverOf_append_iff plain (Or.inr (Or.inl rfl)) ["mq"]).mpr
    (Or.inr (Or.inl rfl))

/-- A reply address in the query hides a host and a port. -/
theorem not_serverOf_append_reply :
    ¬∀ schemes text suffix, Free ['?', '#'] text → Suffix suffix →
      serverOf schemes (text ++ suffix) = serverOf schemes text := by
  intro same
  have plain : Free ['?', '#'] "h:1414/QM1/Q" :=
    Text.forall_mem_of_all (by decide)
  have before : serverOf ["mq"] "h:1414/QM1/Q" =
      .ok (some ("", "h:1414", "QM1/Q")) := rfl
  have after : serverOf ["mq"] ("h:1414/QM1/Q" ++ "?reply=http://x") =
      .ok none := rfl
  have equal := same ["mq"] "h:1414/QM1/Q" "?reply=http://x" plain
    (Or.inr (Or.inl rfl))
  rw [before, after] at equal
  cases equal

end Target
end XmipNet

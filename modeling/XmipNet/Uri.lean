import XmipNet.Naming

/-!
# A file's path in a URI

A path is written after a scheme with forward slashes and one before it, and is
read back by taking the slash before a drive's letter off. Which paths come back
through a whole target is told exactly, and which of a URI's paths.
-/

namespace XmipNet
namespace Uri

open Target (Free)

/-- `text` with forward slashes. -/
def slashed (text : String) : String :=
  String.ofList (text.toList.map fun character =>
    if character = '\\' then '/' else character)

/-- `path` as the path part of a URI. -/
def pathOf (path : String) : String :=
  let text := slashed path
  if Text.opensWith text '/' then text else "/" ++ text

/-- Whether these characters open with a drive's letter and its colon. -/
def opensDrive : List Char → Bool
  | letter :: mark :: _ => letter.isAlpha ∧ mark = ':'
  | _ => false

/-- The file a URI's path names, as text. -/
def fileTextOf (uriPath : String) : String :=
  if Text.opensWith uriPath '/' ∧ opensDrive uriPath.toList.tail then
    String.ofList uriPath.toList.tail
  else
    uriPath

/-- A path of one root: a slash that no drive follows, or a drive. -/
def Rooted (text : String) : Prop :=
  Text.opensWith text '/' = true ∧ opensDrive text.toList.tail = false ∨
    opensDrive text.toList = true

theorem not_opensWith_of_opensDrive
    {text : String}
    (drive : opensDrive text.toList = true) :
    ¬Text.opensWith text '/' = true := by
  intro opens
  obtain ⟨rest, rfl⟩ := Text.exists_of_opensWith opens
  rw [String.toList_append, String.toList_singleton, List.singleton_append]
    at drive
  cases more : rest.toList with
  | nil =>
      rw [more] at drive
      cases drive
  | cons mark others =>
      rw [more, opensDrive, decide_eq_true_iff] at drive
      exact absurd drive.1 (by decide)

theorem fileTextOf_slash (rest : String) :
    fileTextOf ("/" ++ rest) =
      if opensDrive rest.toList then rest else "/" ++ rest := by
  have tail : ("/" ++ rest).toList.tail = rest.toList := by
    rw [String.toList_append]
    rfl
  rw [fileTextOf, tail, String.ofList_toList]
  have opens := Text.opensWith_singleton_append '/' rest
  simp only [show ("/" : String) = String.singleton '/' from rfl, opens, true_and]

theorem ne_slash (text : String) : "/" ++ text ≠ text := by
  intro same
  have lengths := congrArg (fun text => text.toList.length) same
  simp only [String.toList_append, List.length_append] at lengths
  have one : ("/" : String).toList.length = 1 := rfl
  omega

/-- Only the path of one root comes back. -/
theorem fileTextOf_pathOf_iff (path : String) :
    fileTextOf (pathOf path) = slashed path ↔ Rooted (slashed path) := by
  simp only [pathOf]
  by_cases opens : Text.opensWith (slashed path) '/' = true
  · rw [if_pos opens]
    obtain ⟨rest, same⟩ := Text.exists_of_opensWith opens
    have slash : slashed path = "/" ++ rest := same
    have undriven : ¬opensDrive (slashed path).toList = true :=
      fun drive => not_opensWith_of_opensDrive drive opens
    have tail : (slashed path).toList.tail = rest.toList := by
      rw [slash, String.toList_append]
      rfl
    rw [Rooted, tail]
    conv_lhs => rw [slash, fileTextOf_slash]
    cases drive : opensDrive rest.toList with
    | true =>
        rw [if_pos rfl]
        constructor
        · exact fun back => absurd back.symm (ne_slash rest)
        · rintro (⟨_, none⟩ | driven)
          · cases none
          · exact absurd driven undriven
    | false =>
        rw [if_neg Bool.false_ne_true]
        exact ⟨fun _ => Or.inl ⟨opens, rfl⟩, fun _ => rfl⟩
  · rw [if_neg opens, fileTextOf_slash, Rooted]
    cases drive : opensDrive (slashed path).toList with
    | true =>
        rw [if_pos rfl]
        exact ⟨fun _ => Or.inr rfl, fun _ => rfl⟩
    | false =>
        rw [if_neg Bool.false_ne_true]
        constructor
        · exact fun back => absurd back (ne_slash _)
        · rintro (⟨slash, _⟩ | driven)
          · exact absurd slash opens
          · cases driven

/-! ## Slashes alone -/

theorem mem_slashed_iff
    {character : Char}
    (plain : character ≠ '\\')
    (other : character ≠ '/')
    (path : String) :
    character ∈ (slashed path).toList ↔ character ∈ path.toList := by
  rw [slashed, String.toList_ofList, List.mem_map]
  constructor
  · rintro ⟨before, member, becomes⟩
    by_cases back : before = '\\'
    · rw [if_pos back] at becomes
      exact absurd becomes.symm other
    · rw [if_neg back] at becomes
      exact becomes ▸ member
  · exact fun member => ⟨character, member, if_neg plain⟩

theorem not_mem_slashed (path : String) : '\\' ∉ (slashed path).toList := by
  rw [slashed, String.toList_ofList, List.mem_map]
  rintro ⟨before, _, becomes⟩
  by_cases back : before = '\\'
  · rw [if_pos back] at becomes
    exact absurd becomes (by decide)
  · rw [if_neg back] at becomes
    exact back becomes

theorem slashed_of_not_mem
    {text : String}
    (absent : '\\' ∉ text.toList) :
    slashed text = text := by
  have same : text.toList.map (fun character =>
      if character = '\\' then '/' else character) = text.toList := by
    refine (List.map_congr_left fun character member => ?_).trans
      (List.map_id text.toList)
    refine if_neg ?_
    rintro rfl
    exact absent member
  rw [slashed, same, String.ofList_toList]

theorem pathOf_spec (path : String) :
    Text.opensWith (pathOf path) '/' = true ∧ '\\' ∉ (pathOf path).toList := by
  simp only [pathOf]
  split
  next opens => exact ⟨opens, not_mem_slashed path⟩
  · refine ⟨Text.opensWith_singleton_append '/' _, ?_⟩
    rw [String.toList_append, List.mem_append]
    rintro (slash | member)
    · exact absurd slash (by decide)
    · exact not_mem_slashed path member

/-- Only a URI's path with forward slashes, one of them first, comes back. -/
theorem pathOf_fileTextOf_iff (uriPath : String) :
    pathOf (fileTextOf uriPath) = uriPath ↔
      Text.opensWith uriPath '/' = true ∧ '\\' ∉ uriPath.toList := by
  constructor
  · intro back
    rw [← back]
    exact pathOf_spec _
  · rintro ⟨opens, absent⟩
    obtain ⟨rest, same⟩ := Text.exists_of_opensWith opens
    obtain rfl : uriPath = "/" ++ rest := same
    have clear : '\\' ∉ rest.toList := fun member => absent (by
      rw [String.toList_append]
      exact List.mem_append_right _ member)
    rw [fileTextOf_slash]
    cases drive : opensDrive rest.toList with
    | true =>
        rw [if_pos rfl, pathOf, slashed_of_not_mem clear,
          if_neg (not_opensWith_of_opensDrive drive)]
    | false =>
        rw [if_neg Bool.false_ne_true, pathOf, slashed_of_not_mem absent,
          if_pos opens]

/-! ## A whole target -/

theorem free_slashed_iff (path : String) :
    Free ['?', '#'] (slashed path) ↔ Free ['?', '#'] path := by
  have other : ∀ mark ∈ ['?', '#'], mark ≠ '\\' ∧ mark ≠ '/' :=
    List.forall_mem_cons.mpr
      ⟨by decide, List.forall_mem_singleton.mpr (by decide)⟩
  constructor
  · intro free mark among member
    obtain ⟨plain, slash⟩ := other mark among
    exact free mark among ((mem_slashed_iff plain slash path).mpr member)
  · intro free mark among member
    obtain ⟨plain, slash⟩ := other mark among
    exact free mark among ((mem_slashed_iff plain slash path).mp member)

theorem free_slash {marks : List Char} {text : String}
    (other : '/' ∉ marks)
    (free : Free marks text) :
    Free marks ("/" ++ text) := by
  intro mark among member
  rw [String.toList_append, List.mem_append] at member
  rcases member with slash | inside
  · obtain rfl : mark = '/' := List.mem_singleton.mp slash
    exact other among
  · exact free mark among inside

theorem free_pathOf
    {path : String}
    (free : Free ['?', '#'] path) :
    Free ['?', '#'] (pathOf path) := by
  have kept := (free_slashed_iff path).mpr free
  simp only [pathOf]
  split
  · exact kept
  · exact free_slash (by decide) kept

theorem free_fileTextOf
    {rest : String}
    (free : Free ['?', '#'] rest) :
    Free ['?', '#'] (fileTextOf ("/" ++ rest)) := by
  rw [fileTextOf_slash]
  split
  · exact free
  · exact free_slash (by decide) free

theorem opened_eq_empty
    {mark : Char}
    {part : Option String}
    (absent : mark ∉ (Target.opened mark part).toList) :
    Target.opened mark part = "" := by
  cases part with
  | none => rfl
  | some text =>
      exact absurd (Text.mem_of_opensWith
        (Text.opensWith_singleton_append mark text)) absent

/-- What opens with a slash has no authority. -/
theorem rootless
    {parts : Target.Parts}
    (opens : Text.opensWith parts.text '/' = true) :
    parts.user = none ∧ parts.authority = "" ∧
      ∃ path, parts.path = some path := by
  have written : parts.written = "" := by
    by_contra some
    rw [Target.Parts.text, Target.Parts.whole, Target.Parts.hierarchy,
      String.append_assoc, String.append_assoc, Text.opensWith_append some]
      at opens
    exact parts.written_free '/' (by decide) (Text.mem_of_opensWith opens)
  obtain ⟨user, authority⟩ := String.append_eq_empty_iff.mp written
  refine ⟨?_, authority, ?_⟩
  · cases named : parts.user with
    | none => rfl
    | some name =>
        rw [named, Target.information, String.append_eq_empty_iff] at user
        exact absurd user.2 (by decide)
  · rw [Target.Parts.text, Target.Parts.whole, Target.Parts.hierarchy, written,
      String.empty_append, Target.opensWith_slash] at opens
    exact Option.isSome_iff_exists.mp opens

/-- A path written after a scheme is read as a target without an authority, and
the target names the same file exactly where the path is of one root and holds
nothing that ends a path; and a URI's path is written again from the file it names
exactly where it opens with a slash and holds no other one. -/
theorem files_named
    {scheme : String}
    (valid : Target.isScheme scheme = true)
    (path uriPath : String) :
    (∃ target, Target.parse (scheme ++ "://" ++ pathOf path) = .ok target ∧
      target.scheme = scheme ∧ target.user = none ∧ target.authority = "" ∧
        (fileTextOf ("/" ++ target.path) = slashed path ↔
          Rooted (slashed path) ∧ Free ['?', '#'] path)) ∧
      (pathOf (fileTextOf uriPath) = uriPath ↔
        Text.opensWith uriPath '/' = true ∧ '\\' ∉ uriPath.toList) := by
  refine ⟨?_, pathOf_fileTextOf_iff uriPath⟩
  obtain ⟨parts, whole⟩ := Target.Parts.exists_text_eq (pathOf path)
  have opens : Text.opensWith parts.text '/' = true := by
    rw [whole]
    exact (pathOf_spec path).1
  obtain ⟨user, authority, rest, has⟩ := rootless opens
  have text : "/" ++ rest ++ (Target.opened '?' parts.query ++
      Target.opened '#' parts.fragment) = pathOf path := by
    rw [← whole, Target.Parts.text, Target.Parts.whole, Target.Parts.hierarchy,
      Target.Parts.written, user, authority, has]
    exact String.append_assoc.symm
  rw [← whole, Target.parse_scheme valid]
  refine ⟨_, rfl, rfl, user, authority, ?_⟩
  simp only [Target.Parts.target, has, Option.getD_some]
  have ends (free : Free ['?', '#'] path) : "/" ++ rest = pathOf path := by
    have clear := free_pathOf free
    rw [← text] at clear
    have absent {mark : Char} (among : mark ∈ ['?', '#']) :
        mark ∉ (Target.opened '?' parts.query).toList ∧
          mark ∉ (Target.opened '#' parts.fragment).toList :=
      Target.not_mem_append_iff.mp
        (Target.not_mem_append_iff.mp (clear mark among)).2
    rw [← text, opened_eq_empty (absent (by decide)).1,
      opened_eq_empty (absent (by decide)).2, String.append_empty,
      String.append_empty]
  constructor
  · intro back
    have free : Free ['?', '#'] path := by
      rw [← free_slashed_iff, ← back]
      exact free_fileTextOf (parts.path_free rest has)
    rw [ends free, fileTextOf_pathOf_iff] at back
    exact ⟨back, free⟩
  · rintro ⟨rooted, free⟩
    rw [ends free]
    exact (fileTextOf_pathOf_iff path).mpr rooted

theorem files_named_drive :
    (∃ target, Target.parse ("file" ++ "://" ++ pathOf "C:\\in\\a.edi") =
        .ok target ∧
      target.scheme = "file" ∧ target.user = none ∧ target.authority = "" ∧
        (fileTextOf ("/" ++ target.path) = slashed "C:\\in\\a.edi" ↔
          Rooted (slashed "C:\\in\\a.edi") ∧
            Free ['?', '#'] "C:\\in\\a.edi")) ∧
      (pathOf (fileTextOf "/C:/in/a.edi") = "/C:/in/a.edi" ↔
        Text.opensWith "/C:/in/a.edi" '/' = true ∧
          '\\' ∉ "/C:/in/a.edi".toList) :=
  files_named (by decide) "C:\\in\\a.edi" "/C:/in/a.edi"

end Uri
end XmipNet

import XmipNet.Http2.Hpack.Table

/-!
# The dynamic table as a queue

Whatever is inserted and however the table is resized, it holds the newest of
what was inserted, none left out between, and as much of it as there is room
for. What finding a field says agrees with what getting an index gives.
-/

namespace XmipNet
namespace Http2
namespace Hpack
namespace Table

open FittingPrefix

/-- What is done to a table. -/
inductive Change
  | insert (field : Field)
  | resize (maxSize : Nat)

/-- What a change asks to be inserted. -/
def Change.inserted : Change → List Field
  | .insert field => [field]
  | .resize _ => []

/-- A table after a change. -/
def perform (table : Table) : Change → Table
  | .insert field => table.insert field
  | .resize maxSize => table.resize maxSize

/-- A table after changes, one after another. -/
def performAll : Table → List Change → Table
  | table, [] => table
  | table, change :: rest => performAll (table.perform change) rest

/-- What a change adds: no entry that is larger than the whole table. -/
def added (table : Table) : Change → List Field
  | .insert field => if cost field ≤ table.maxSize then [field] else []
  | .resize _ => []

/-- The room a change leaves for the entries there are. -/
def roomFor (table : Table) : Change → Nat
  | .insert field => table.maxSize - cost field
  | .resize maxSize => maxSize

/-- What each of some changes puts in front, the newest first. -/
def gathered (front : Table → Change → List Field) :
    Table → List Change → List Field
  | _, [] => []
  | table, change :: rest =>
      gathered front (table.perform change) rest ++ front table change

/-- Eviction with a subtraction that can fail. -/
def evictChecked (entries : List Field) (size room : Nat) :
    Option (List Field × Nat) :=
  if room < size then
    match _found : entries.getLast? with
    | some oldest =>
        if cost oldest ≤ size then
          evictChecked entries.dropLast (size - cost oldest) room
        else
          none
    | none => some (entries, size)
  else
    some (entries, size)
termination_by entries.length
decreasing_by
  have nonempty : entries ≠ [] := by
    rintro rfl
    cases _found
  have positive := List.length_pos_of_ne_nil nonempty
  rw [List.length_dropLast]
  omega

/-! ## One change -/

theorem cost_le_of_getLast?
    {entries : List Field}
    {oldest : Field}
    (found : entries.getLast? = some oldest) :
    cost oldest ≤ total cost entries := by
  obtain ⟨front, rfl⟩ := List.getLast?_eq_some_iff.mp found
  rw [total_append, total_cons, total_nil]
  omega

/-- No subtraction fails where the size is what the entries cost. -/
theorem evictChecked_eq
    (entries : List Field)
    (room : Nat) :
    evictChecked entries (total cost entries) room =
      some (evict entries (total cost entries) room) := by
  generalize counted : total cost entries = size
  fun_induction evict entries size room with
  | case1 entries size exceeds oldest found inductionHypothesis =>
      have within : cost oldest ≤ size :=
        counted ▸ cost_le_of_getLast? found
      have left : total cost entries.dropLast = size - cost oldest := by
        rw [total_dropLast found, counted]
      rw [evictChecked, if_pos exceeds]
      split
      next other foundOther =>
        obtain rfl : other = oldest := Option.some.inj (foundOther ▸ found)
        rw [if_pos within, inductionHypothesis left]
      next foundNone => cases foundNone ▸ found
  | case2 entries size exceeds found =>
      rw [List.getLast?_eq_none_iff.mp found] at counted
      simp at counted
      omega
  | case3 entries size fits =>
      rw [evictChecked, if_neg fits]

/-- An item past what is kept would exceed the room. -/
theorem lt_total_take_of_keep
    {room place : Nat}
    {entries : List Field}
    (past : (keep cost room entries).length ≤ place)
    (within : place < entries.length) :
    room < total cost (entries.take (place + 1)) := by
  by_contra fits
  have kept := isPrefix_keep (List.take_prefix (place + 1) entries)
    (not_lt.mp fits)
  have length := kept.length_le
  rw [List.length_take] at length
  omega

/-- A change keeps the longest beginning of the entries that there is room
for, behind what it adds. -/
theorem entries_perform
    (table : Table)
    (change : Change) :
    (table.perform change).entries =
      table.added change ++ keep cost (table.roomFor change) table.entries := by
  cases change with
  | resize maxSize => exact table.entries_resize maxSize
  | insert field =>
      rw [perform, entries_insert, keep, added, roomFor]
      by_cases within : cost field ≤ table.maxSize
      · rw [if_pos within, if_pos within]
        rfl
      · have noRoom : table.maxSize - cost field = 0 := by omega
        rw [if_neg within, if_neg within, noRoom]
        cases table.entries with
        | nil => rfl
        | cons entry rest =>
            have positive := cost_pos entry
            rw [keep, if_neg (by omega)]
            rfl

/-- An entry larger than the whole table empties it. -/
theorem entries_insert_of_lt
    {table : Table}
    {field : Field}
    (large : table.maxSize < cost field) :
    (table.insert field).entries = [] := by
  rw [entries_insert, keep, if_neg (not_le.mpr large)]

theorem isPrefix_added
    (table : Table)
    (change : Change) :
    (table.perform change).entries <+: table.added change ++ table.entries := by
  rw [entries_perform, List.prefix_append_right_inj]
  exact keep_isPrefix _ _

theorem isPrefix_inserted
    (table : Table)
    (change : Change) :
    (table.perform change).entries <+: change.inserted ++ table.entries := by
  cases change with
  | resize maxSize => exact table.isPrefix_added (.resize maxSize)
  | insert field =>
      rcases lt_or_ge table.maxSize (cost field) with large | within
      · rw [perform, entries_insert_of_lt large]
        exact List.nil_prefix
      · have begins := table.isPrefix_added (.insert field)
        rwa [added, if_pos within] at begins

/-! ## Changes one after another -/

/-- Where a change leaves a beginning of what it puts in front and of what was
there, all of them together do. -/
theorem isPrefix_gathered
    {front : Table → Change → List Field}
    (begins : ∀ table change,
      (perform table change).entries <+: front table change ++ table.entries)
    (table : Table)
    (changes : List Change) :
    (table.performAll changes).entries <+:
      gathered front table changes ++ table.entries := by
  induction changes generalizing table with
  | nil => exact List.prefix_refl _
  | cons change rest inductionHypothesis =>
      refine (inductionHypothesis (table.perform change)).trans ?_
      rw [gathered, List.append_assoc, List.prefix_append_right_inj]
      exact begins table change

/-! ## Finding and getting -/

/-- What is at some index is in the static table or among the entries. -/
theorem exists_get_iff
    (table : Table)
    (field : Field) :
    (∃ index, table.get index = .ok field) ↔
      field ∈ static ∨ field ∈ table.entries := by
  simp only [get_eq_ok_iff, List.mem_iff_getElem?]
  constructor
  · rintro ⟨_, ⟨place, _, held⟩ | ⟨place, _, held⟩⟩
    · exact Or.inl ⟨place, held⟩
    · exact Or.inr ⟨place, held⟩
  · rintro (⟨place, held⟩ | ⟨place, held⟩)
    · exact ⟨place + 1, Or.inl ⟨place, rfl, held⟩⟩
    · exact ⟨place + static.length + 1, Or.inr ⟨place, rfl, held⟩⟩

theorem exists_findIdx?
    {fields : List Field}
    (wanted : Field → Bool)
    {field : Field}
    (held : field ∈ fields)
    (holds : wanted field = true) :
    ∃ place, fields.findIdx? wanted = some place := by
  cases found : fields.findIdx? wanted with
  | some place => exact ⟨place, rfl⟩
  | none =>
      rw [List.findIdx?_eq_none_iff] at found
      rw [found field held] at holds
      cases holds

/-- A field that the table holds is found whole. -/
theorem find_of_get
    {table : Table}
    {name value : String}
    {index : Nat}
    (held : table.get index = .ok (name, value)) :
    ∃ place, table.find name value = some (.field place) := by
  rw [find]
  rcases (exists_get_iff table _).mp ⟨index, held⟩ with inStatic | inEntries
  · obtain ⟨place, found⟩ := exists_findIdx?
      (fun field => field.1 = name ∧ field.2 = value) inStatic (by simp)
    exact ⟨place + 1, by rw [found]; rfl⟩
  · obtain ⟨place, found⟩ := exists_findIdx?
      (fun field => field.1 = name ∧ field.2 = value) inEntries (by simp)
    simp only [found]
    cases static.findIdx? fun field => field.1 = name ∧ field.2 = value with
    | some earlier => exact ⟨earlier + 1, rfl⟩
    | none => exact ⟨place + static.length + 1, rfl⟩

/-- A name that the table holds is found. -/
theorem find_ne_none_of_get
    {table : Table}
    {name other : String}
    {index : Nat}
    (held : table.get index = .ok (name, other))
    (value : String) :
    table.find name value ≠ none := by
  intro missed
  simp only [find, Option.or_eq_none_iff, Option.map_eq_none_iff] at missed
  rcases (exists_get_iff table _).mp ⟨index, held⟩ with inStatic | inEntries
  · obtain ⟨place, found⟩ := exists_findIdx?
      (fun field => field.1 = name) inStatic (by simp)
    cases missed.2.2.1 ▸ found
  · obtain ⟨place, found⟩ := exists_findIdx?
      (fun field => field.1 = name) inEntries (by simp)
    cases missed.2.2.2 ▸ found

/-- What is found as a name alone is held as no whole field. -/
theorem absent_of_find_name
    {table : Table}
    {name value : String}
    {index : Nat}
    (finds : table.find name value = some (.name index))
    (place : Nat) :
    table.get place ≠ .ok (name, value) := by
  intro held
  obtain ⟨whole, found⟩ := find_of_get held
  cases finds ▸ found

/-- From an empty table on, whatever is inserted and however the table is
resized, it holds the newest of what was inserted and of what was added, counts
it, is within its size, and keeps what there is room for; no subtraction fails,
and what is found is what an index gives. -/
theorem bounded_fifo
    (maxSize : Nat)
    (changes : List Change) :
    let table := (new maxSize).performAll changes
    table.entries <+: gathered (fun _ => Change.inserted) (new maxSize) changes ∧
    table.entries <+: gathered added (new maxSize) changes ∧
    table.size = total cost table.entries ∧ table.size ≤ table.maxSize ∧
    (∀ change, ∃ kept, kept <+: table.entries ∧
      (table.perform change).entries = table.added change ++ kept ∧
      ∀ place < table.entries.length, kept.length ≤ place →
        table.roomFor change < total cost (table.entries.take (place + 1))) ∧
    (∀ field, table.maxSize < cost field →
      (table.insert field).entries = []) ∧
    (∀ room, evictChecked table.entries table.size room =
      some (evict table.entries table.size room)) ∧
    ∀ name value,
      (∀ index, table.find name value = some (.field index) →
        table.get index = .ok (name, value)) ∧
      ((∃ index, table.get index = .ok (name, value)) →
        ∃ index, table.find name value = some (.field index)) ∧
      (∀ index, table.find name value = some (.name index) →
        (∃ other, table.get index = .ok (name, other)) ∧
          ∀ place, table.get place ≠ .ok (name, value)) ∧
      (table.find name value = none →
        ∀ place other, table.get place ≠ .ok (name, other)) := by
  intro table
  have newest := isPrefix_gathered isPrefix_inserted (new maxSize) changes
  have newestAdded := isPrefix_gathered isPrefix_added (new maxSize) changes
  rw [entries_new, List.append_nil] at newest newestAdded
  refine ⟨newest, newestAdded, table.sized, table.fits, fun change => ?_,
    fun field large => entries_insert_of_lt large, fun room => ?_,
    fun name value => ⟨fun index finds => ?_, ?_, fun index finds => ?_, ?_⟩⟩
  · exact ⟨keep cost (table.roomFor change) table.entries,
      keep_isPrefix _ _, table.entries_perform change,
      fun place within past => lt_total_take_of_keep past within⟩
  · rw [table.sized]
    exact evictChecked_eq table.entries room
  · exact holds_of_find finds
  · rintro ⟨index, held⟩
    exact find_of_get held
  · exact ⟨holds_of_find finds, absent_of_find_name finds⟩
  · intro missed place other held
    exact find_ne_none_of_get held value missed

end Table
end Hpack
end Http2
end XmipNet

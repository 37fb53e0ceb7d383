import XmipNet.Text
import XmipNet.Foundation.FittingPrefix
import XmipNet.Http2.Error

/-!
# The header table of HPACK

RFC 7541 section 2.3: the static table of Appendix A at indices 1 to 61, and the
dynamic table after it, newest first, each entry counted at its name, its value
and 32 octets, the oldest evicted to make room. A table carries the proofs that
its size is what its entries cost and within what it may hold.
-/

namespace XmipNet
namespace Http2
namespace Hpack

open FittingPrefix

/-- A header field: its name and its value. -/
abbrev Field := String × String

/-- The static table of Appendix A, index 1 first. -/
def static : List Field := [
    (":authority", ""), (":method", "GET"), (":method", "POST"),
    (":path", "/"), (":path", "/index.html"), (":scheme", "http"),
    (":scheme", "https"), (":status", "200"), (":status", "204"),
    (":status", "206"), (":status", "304"), (":status", "400"),
    (":status", "404"), (":status", "500"), ("accept-charset", ""),
    ("accept-encoding", "gzip, deflate"), ("accept-language", ""),
    ("accept-ranges", ""), ("accept", ""),
    ("access-control-allow-origin", ""), ("age", ""), ("allow", ""),
    ("authorization", ""), ("cache-control", ""), ("content-disposition", ""),
    ("content-encoding", ""), ("content-language", ""),
    ("content-length", ""), ("content-location", ""), ("content-range", ""),
    ("content-type", ""), ("cookie", ""), ("date", ""), ("etag", ""),
    ("expect", ""), ("expires", ""), ("from", ""), ("host", ""),
    ("if-match", ""), ("if-modified-since", ""), ("if-none-match", ""),
    ("if-range", ""), ("if-unmodified-since", ""), ("last-modified", ""),
    ("link", ""), ("location", ""), ("max-forwards", ""),
    ("proxy-authenticate", ""), ("proxy-authorization", ""), ("range", ""),
    ("referer", ""), ("refresh", ""), ("retry-after", ""), ("server", ""),
    ("set-cookie", ""), ("strict-transport-security", ""),
    ("transfer-encoding", ""), ("user-agent", ""), ("vary", ""), ("via", ""),
    ("www-authenticate", "")]

theorem length_static : static.length = 61 := by
  decide

namespace Table

/-- What an entry costs beside its name and value. -/
def overhead : Nat := 32

/-- What a field costs in the table. -/
def cost (field : Field) : Nat :=
  (Text.octets field.1).length + (Text.octets field.2).length + overhead

/-- Drop the oldest entries until the size is within `room`. -/
def evict (entries : List Field) (size room : Nat) : List Field × Nat :=
  if room < size then
    match _found : entries.getLast? with
    | some oldest => evict entries.dropLast (size - cost oldest) room
    | none => (entries, size)
  else
    (entries, size)
termination_by entries.length
decreasing_by
  have nonempty : entries ≠ [] := by
    rintro rfl
    cases _found
  have positive := List.length_pos_of_ne_nil nonempty
  rw [List.length_dropLast]
  omega

/-- Eviction leaves the longest beginning of the entries that fits. -/
theorem evict_eq
    (entries : List Field)
    (room : Nat) :
    evict entries (total cost entries) room =
      (keep cost room entries, total cost (keep cost room entries)) := by
  generalize counted : total cost entries = size
  fun_induction evict entries size room with
  | case1 entries size exceeds oldest found inductionHypothesis =>
      rw [inductionHypothesis (by rw [total_dropLast found, counted]),
        keep_dropLast_of_lt_total (by omega)]
  | case2 entries size exceeds found =>
      rw [List.getLast?_eq_none_iff.mp found] at counted
      simp at counted
      omega
  | case3 entries size fits =>
      rw [keep_of_total_le (by omega), counted]

end Table

/-- Where a field was found: the index of the whole field, or only of its
name. -/
inductive Found
  | field (index : Nat)
  | name (index : Nat)
  deriving DecidableEq

/-- The static table and one side's dynamic table. -/
structure Table where
  entries : List Field
  size : Nat
  maxSize : Nat
  sized : size = total Table.cost entries
  fits : size ≤ maxSize
  deriving DecidableEq

namespace Table

/-- An empty dynamic table of at most `maxSize` octets. -/
def new (maxSize : Nat) : Table where
  entries := []
  size := 0
  maxSize := maxSize
  sized := rfl
  fits := Nat.zero_le _

/-- The field at `index`, static or dynamic. -/
def get (table : Table) (index : Nat) : Except Violation Field :=
  match if 1 ≤ index then static[index - 1]? else none with
  | some field => .ok field
  | none =>
      match
        if static.length + 1 ≤ index then
          table.entries[index - (static.length + 1)]?
        else
          none with
      | some field => .ok field
      | none => .error (.compression s!"no header at index {index}")

/-- Where `name` and `value` are: the whole field wherever it is, else the
name, the static table before the dynamic one. -/
def find (table : Table) (name value : String) : Option Found :=
  let atStatic := fun place : Nat => place + 1
  let atDynamic := fun place : Nat => place + static.length + 1
  ((static.findIdx? fun field => field.1 = name ∧ field.2 = value).map
      fun place => Found.field (atStatic place)).or
    (((table.entries.findIdx? fun field =>
        field.1 = name ∧ field.2 = value).map
      fun place => Found.field (atDynamic place)).or
    (((static.findIdx? fun field => field.1 = name).map
      fun place => Found.name (atStatic place)).or
    ((table.entries.findIdx? fun field => field.1 = name).map
      fun place => Found.name (atDynamic place))))

/-- Add a field at the front, evicting the oldest until it fits; one larger
than the whole table empties it and is not added. -/
def insert (table : Table) (field : Field) : Table :=
  let room := table.maxSize - cost field
  let evicted := evict table.entries table.size room
  have kept : evicted = (keep cost room table.entries,
      total cost (keep cost room table.entries)) := by
    rw [← evict_eq, ← table.sized]
  have small : total cost (keep cost room table.entries) ≤ room :=
    total_keep_le room table.entries
  if within : cost field ≤ table.maxSize then
    { entries := field :: evicted.1
      size := evicted.2 + cost field
      maxSize := table.maxSize
      sized := by
        rw [kept, total_cons]
        exact Nat.add_comm _ _
      fits := by
        rw [kept]
        omega }
  else
    { entries := evicted.1
      size := evicted.2
      maxSize := table.maxSize
      sized := by rw [kept]
      fits := by
        rw [kept]
        omega }

/-- Change the size it may hold, evicting what no longer fits. -/
def resize (table : Table) (maxSize : Nat) : Table :=
  let evicted := evict table.entries table.size maxSize
  have kept : evicted = (keep cost maxSize table.entries,
      total cost (keep cost maxSize table.entries)) := by
    rw [← evict_eq, ← table.sized]
  { entries := evicted.1
    size := evicted.2
    maxSize
    sized := by rw [kept]
    fits := by
      rw [kept]
      exact total_keep_le maxSize table.entries }

/-! ## What the operations leave -/

/-- A table is given by its entries and what it may hold. -/
theorem ext_entries
    {table other : Table}
    (entries : table.entries = other.entries)
    (maxSize : table.maxSize = other.maxSize) :
    table = other := by
  have size : table.size = other.size := by
    rw [table.sized, other.sized, entries]
  cases table
  cases other
  simp_all

@[simp] theorem entries_new (maxSize : Nat) :
    (new maxSize).entries = [] := rfl

@[simp] theorem maxSize_new (maxSize : Nat) :
    (new maxSize).maxSize = maxSize := rfl

@[simp] theorem entries_resize
    (table : Table)
    (maxSize : Nat) :
    (table.resize maxSize).entries = keep cost maxSize table.entries := by
  simp only [resize]
  rw [table.sized, evict_eq]

@[simp] theorem maxSize_resize
    (table : Table)
    (maxSize : Nat) :
    (table.resize maxSize).maxSize = maxSize := rfl

theorem cost_pos (field : Field) : 0 < cost field := by
  rw [cost, overhead]
  omega

/-- Inserting leaves the longest beginning that fits of the new field and the
entries before it. -/
theorem entries_insert
    (table : Table)
    (field : Field) :
    (table.insert field).entries =
      keep cost table.maxSize (field :: table.entries) := by
  have evicted := evict_eq table.entries (table.maxSize - cost field)
  rw [← table.sized] at evicted
  simp only [insert, evicted]
  by_cases within : cost field ≤ table.maxSize
  · rw [dif_pos within, keep, if_pos within]
  · have noRoom : table.maxSize - cost field = 0 := by omega
    rw [dif_neg within, keep, if_neg within]
    change keep cost (table.maxSize - cost field) table.entries = []
    rw [noRoom]
    cases table.entries with
    | nil => rfl
    | cons entry rest => rw [keep, if_neg (by have := cost_pos entry; omega)]

@[simp] theorem maxSize_insert
    (table : Table)
    (field : Field) :
    (table.insert field).maxSize = table.maxSize := by
  simp only [insert]
  split <;> rfl

/-- The entries of a table fit what it may hold. -/
theorem total_entries_le (table : Table) :
    total cost table.entries ≤ table.maxSize :=
  table.sized ▸ table.fits

/-- Each entry costs its overhead at least, so a table holds few of them. -/
theorem overhead_mul_length_le (table : Table) :
    overhead * table.entries.length ≤ table.maxSize :=
  (length_mul_le_total (fun _ => Nat.le_add_left _ _)
    table.entries).trans table.total_entries_le

/-! ## Finding and getting -/

theorem get_static
    (table : Table)
    {place : Nat}
    {field : Field}
    (found : static[place]? = some field) :
    table.get (place + 1) = .ok field := by
  simp [get, found]

theorem get_dynamic
    (table : Table)
    {place : Nat}
    {field : Field}
    (found : table.entries[place]? = some field) :
    table.get (place + static.length + 1) = .ok field := by
  have past : static[place + static.length]? = none :=
    List.getElem?_eq_none (by omega)
  have offset : place + static.length + 1 - (static.length + 1) = place := by
    omega
  simp only [get, Nat.le_add_left, if_true, Nat.add_sub_cancel, past, offset,
    found, show static.length + 1 ≤ place + static.length + 1 by omega]

/-- An index holds a field where the static or the dynamic table does. -/
theorem get_eq_ok_iff
    (table : Table)
    (index : Nat)
    (field : Field) :
    table.get index = .ok field ↔
      (∃ place, index = place + 1 ∧ static[place]? = some field) ∨
        ∃ place, index = place + static.length + 1 ∧
          table.entries[place]? = some field := by
  constructor
  · intro found
    unfold get at found
    split at found
    next held place =>
      cases found
      refine Or.inl ⟨index - 1, ?_, ?_⟩
      · split at place <;> [omega; cases place]
      · split at place <;> [exact place; cases place]
    next =>
      split at found
      next held place =>
        cases found
        refine Or.inr ⟨index - (static.length + 1), ?_, ?_⟩
        · split at place <;> [omega; cases place]
        · split at place <;> [exact place; cases place]
      next => cases found
  · rintro (⟨place, rfl, found⟩ | ⟨place, rfl, found⟩)
    · exact get_static table found
    · exact get_dynamic table found

/-- What one table holds at an index, a table that continues it holds too. -/
theorem get_of_isPrefix
    {table other : Table}
    (begins : table.entries <+: other.entries)
    {index : Nat}
    {field : Field}
    (found : table.get index = .ok field) :
    other.get index = .ok field := by
  rw [get_eq_ok_iff] at found ⊢
  refine found.imp_right ?_
  rintro ⟨place, rfl, held⟩
  obtain ⟨rest, split⟩ := begins
  have within := (List.getElem?_eq_some_iff.mp held).1
  exact ⟨place, rfl, by rw [← split, List.getElem?_append_left within, held]⟩

/-- A held index is positive and no further than the last entry. -/
theorem get_bounds
    {table : Table}
    {index : Nat}
    {field : Field}
    (found : table.get index = .ok field) :
    0 < index ∧ index ≤ static.length + table.entries.length := by
  rcases (get_eq_ok_iff table index field).mp found with
    ⟨place, rfl, held⟩ | ⟨place, rfl, held⟩
  · have within := (List.getElem?_eq_some_iff.mp held).1
    omega
  · have within := (List.getElem?_eq_some_iff.mp held).1
    omega

theorem getElem?_of_findIdx?
    {fields : List Field}
    {wanted : Field → Bool}
    {place : Nat}
    (found : fields.findIdx? wanted = some place) :
    ∃ field, fields[place]? = some field ∧ wanted field = true := by
  obtain ⟨within, holds, _⟩ := List.findIdx?_eq_some_iff_getElem.mp found
  exact ⟨fields[place], List.getElem?_eq_getElem within, holds⟩

/-- What finding a field says: the whole field is at its index, or the name
is. -/
def Holds (table : Table) (name value : String) : Found → Prop
  | .field index => table.get index = .ok (name, value)
  | .name index => ∃ other, table.get index = .ok (name, other)

theorem holds_of_find
    {table : Table}
    {name value : String}
    {found : Found}
    (finds : table.find name value = some found) :
    table.Holds name value found := by
  simp only [find, Option.or_eq_some_iff, Option.map_eq_some_iff] at finds
  rcases finds with ⟨place, finds, rfl⟩ | ⟨_, finds⟩
  · obtain ⟨field, held, wanted⟩ := getElem?_of_findIdx? finds
    obtain ⟨rfl, rfl⟩ := of_decide_eq_true wanted
    exact get_static table held
  rcases finds with ⟨place, finds, rfl⟩ | ⟨_, finds⟩
  · obtain ⟨field, held, wanted⟩ := getElem?_of_findIdx? finds
    obtain ⟨rfl, rfl⟩ := of_decide_eq_true wanted
    exact get_dynamic table held
  rcases finds with ⟨place, finds, rfl⟩ | ⟨_, place, finds, rfl⟩
  · obtain ⟨field, held, wanted⟩ := getElem?_of_findIdx? finds
    obtain rfl := of_decide_eq_true wanted
    exact ⟨field.2, get_static table held⟩
  · obtain ⟨field, held, wanted⟩ := getElem?_of_findIdx? finds
    obtain rfl := of_decide_eq_true wanted
    exact ⟨field.2, get_dynamic table held⟩

end Table
end Hpack
end Http2
end XmipNet

import Mathlib.Data.Finset.Card

/-!
# Ordered maps over numbers

The lookups of the standard library's tree map where the keys are numbers, with
equality of keys in place of their comparison, what holds of every value
whatever is done to a map, and the keys whose values pass a test.
-/

namespace XmipNet
namespace NatMap

variable {β : Type} {entries : Std.TreeMap Nat β}

theorem getElem?_insert
    (key other : Nat)
    (value : β) :
    (entries.insert key value)[other]? =
      if key = other then some value else entries[other]? := by
  rw [Std.TreeMap.getElem?_insert]
  simp only [Nat.compare_eq_eq]

@[simp] theorem getElem?_insert_self
    (key : Nat)
    (value : β) :
    (entries.insert key value)[key]? = some value := by
  rw [getElem?_insert, if_pos rfl]

theorem getElem?_insert_ne
    {key other : Nat}
    (different : key ≠ other)
    (value : β) :
    (entries.insert key value)[other]? = entries[other]? := by
  rw [getElem?_insert, if_neg different]

theorem getElem?_insertIfNew_self
    {key : Nat}
    (absent : entries[key]? = none)
    (value : β) :
    (entries.insertIfNew key value)[key]? = some value := by
  have missing : key ∉ entries := by
    rw [Std.TreeMap.mem_iff_isSome_getElem?, absent]
    exact Bool.false_ne_true
  rw [Std.TreeMap.getElem?_insertIfNew, if_pos ⟨Nat.compare_eq_eq.mpr rfl, missing⟩]

theorem getElem?_insertIfNew_ne
    {key other : Nat}
    (different : key ≠ other)
    (value : β) :
    (entries.insertIfNew key value)[other]? = entries[other]? := by
  rw [Std.TreeMap.getElem?_insertIfNew,
    if_neg (fun same => different (Nat.compare_eq_eq.mp same.1))]

theorem getElem?_modify
    (key other : Nat)
    (change : β → β) :
    (entries.modify key change)[other]? =
      if key = other then entries[key]?.map change else entries[other]? := by
  rw [Std.TreeMap.getElem?_modify]
  simp only [Nat.compare_eq_eq]

theorem getElem?_erase
    (key other : Nat) :
    (entries.erase key)[other]? =
      if key = other then none else entries[other]? := by
  rw [Std.TreeMap.getElem?_erase]
  simp only [Nat.compare_eq_eq]

theorem getElem?_map
    (change : Nat → β → β)
    (key : Nat) :
    (entries.map change)[key]? = entries[key]?.map (change key) :=
  Std.TreeMap.getElem?_map

theorem getElem?_empty (key : Nat) :
    (∅ : Std.TreeMap Nat β)[key]? = none :=
  Std.TreeMap.getElem?_emptyc

theorem mem_toList_iff
    {key : Nat}
    {value : β} :
    (key, value) ∈ entries.toList ↔ entries[key]? = some value :=
  Std.TreeMap.mem_toList_iff_getElem?_eq_some

/-- The keys come in increasing order. -/
theorem pairwise_toList :
    entries.toList.Pairwise fun first second => first.1 < second.1 := by
  have ordered := Std.TreeMap.ordered_keys_toList (t := entries)
  exact ordered.imp Nat.compare_eq_lt.mp

theorem contains_of_found
    {key : Nat}
    {value : β}
    (found : entries[key]? = some value) :
    entries.contains key = true := by
  rw [← Std.TreeMap.mem_iff_contains, Std.TreeMap.mem_iff_isSome_getElem?,
    found]
  rfl

/-- A present entry erased makes the map smaller. -/
theorem size_erase_lt
    {key : Nat}
    {value : β}
    (found : entries[key]? = some value) :
    (entries.erase key).size < entries.size := by
  have present := contains_of_found found
  have positive : entries.size ≠ 0 := by
    intro empty
    have absent := Std.TreeMap.getElem?_of_isEmpty (a := key)
      (Std.TreeMap.isEmpty_eq_size_eq_zero ▸ by simpa using empty :
        entries.isEmpty = true)
    rw [found] at absent
    cases absent
  rw [Std.TreeMap.size_erase, if_pos present]
  omega

/-- A present entry written over leaves the size. -/
theorem size_insert_of_found
    {key : Nat}
    {value : β}
    (found : entries[key]? = some value)
    (other : β) :
    (entries.insert key other).size = entries.size := by
  have present := contains_of_found found
  rw [Std.TreeMap.size_insert, if_pos present]

/-! ## What every value is -/

/-- Every value of `entries` is one that `holds` holds of. -/
def All (holds : β → Prop) (entries : Std.TreeMap Nat β) : Prop :=
  ∀ (key : Nat) (value : β), entries[key]? = some value → holds value

section All

variable {holds : β → Prop}

theorem all_empty : All holds (∅ : Std.TreeMap Nat β) := by
  intro key value found
  rw [getElem?_empty] at found
  cases found

theorem All.insert
    (all : All holds entries)
    (key : Nat)
    {value : β}
    (held : holds value) :
    All holds (entries.insert key value) := by
  intro other present found
  rw [getElem?_insert] at found
  split at found
  · exact Option.some.inj found ▸ held
  · exact all other present found

theorem All.insertIfNew
    (all : All holds entries)
    (key : Nat)
    {value : β}
    (held : holds value) :
    All holds (entries.insertIfNew key value) := by
  intro other present found
  rw [Std.TreeMap.getElem?_insertIfNew] at found
  split at found
  · exact Option.some.inj found ▸ held
  · exact all other present found

theorem All.erase
    (all : All holds entries)
    (key : Nat) :
    All holds (entries.erase key) := by
  intro other present found
  rw [getElem?_erase] at found
  split at found
  · cases found
  · exact all other present found

theorem All.modify
    (all : All holds entries)
    (key : Nat)
    {change : β → β}
    (keeps : ∀ value, holds value → holds (change value)) :
    All holds (entries.modify key change) := by
  intro other present found
  rw [getElem?_modify] at found
  split at found
  · obtain ⟨before, there, rfl⟩ := Option.map_eq_some_iff.mp found
    exact keeps before (all key before there)
  · exact all other present found

theorem All.map
    (all : All holds entries)
    {change : Nat → β → β}
    (keeps : ∀ key value, holds value → holds (change key value)) :
    All holds (entries.map change) := by
  intro key present found
  rw [getElem?_map] at found
  obtain ⟨before, there, rfl⟩ := Option.map_eq_some_iff.mp found
  exact keeps key before (all key before there)

end All

/-! ## The keys whose values pass a test -/

/-- The keys whose values pass `test`. -/
def keysWhere (entries : Std.TreeMap Nat β) (test : β → Bool) : Finset Nat :=
  ((entries.toList.filter fun entry => test entry.2).map Prod.fst).toFinset

theorem mem_keysWhere
    {test : β → Bool}
    {key : Nat} :
    key ∈ keysWhere entries test ↔
      ∃ value, entries[key]? = some value ∧ test value = true := by
  rw [keysWhere, List.mem_toFinset, List.mem_map]
  constructor
  · rintro ⟨⟨_, value⟩, member, rfl⟩
    obtain ⟨listed, passes⟩ := List.mem_filter.mp member
    exact ⟨value, mem_toList_iff.mp listed, passes⟩
  · rintro ⟨value, found, passes⟩
    exact ⟨(key, value),
      List.mem_filter.mpr ⟨mem_toList_iff.mpr found, passes⟩, rfl⟩

/-- No key is listed twice. -/
theorem card_keysWhere (test : β → Bool) :
    (keysWhere entries test).card =
      (entries.toList.filter fun entry => test entry.2).length := by
  have ordered : (entries.toList.filter fun entry => test entry.2).Pairwise
      fun first second => first.1 < second.1 :=
    pairwise_toList.filter _
  have once : ((entries.toList.filter fun entry =>
      test entry.2).map Prod.fst).Nodup :=
    List.pairwise_map.mpr (ordered.imp Nat.ne_of_lt)
  rw [keysWhere, List.toFinset_card_of_nodup once, List.length_map]

end NatMap
end XmipNet

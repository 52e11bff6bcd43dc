import Mathlib.Data.List.Nodup
import Mathlib.Data.List.Perm.Basic

/-! Finite maps that keep their keys in the order of first insertion. -/

/-- A finite map whose items stand in insertion order, no key appearing twice. -/
structure OrderedMap (κ α : Type) where
  /-- The bindings, oldest first. -/
  items : List (κ × α)
  /-- No key is bound twice. -/
  distinct : (items.map Prod.fst).Nodup

namespace OrderedMap

variable {κ α : Type}

/-- The map with no bindings. -/
def empty : OrderedMap κ α := ⟨[], List.nodup_nil⟩

/-- The keys in insertion order. -/
def keys (map : OrderedMap κ α) : List κ := map.items.map Prod.fst

/-- The values in the insertion order of their keys. -/
def values (map : OrderedMap κ α) : List α := map.items.map Prod.snd

/-- The number of bindings. -/
def size (map : OrderedMap κ α) : Nat := map.items.length

variable [DecidableEq κ]

/-- The value bound to a key. -/
def get? (map : OrderedMap κ α) (key : κ) : Option α :=
  (map.items.find? fun item => item.1 = key).map Prod.snd

/-- Whether a key is bound. -/
def has (map : OrderedMap κ α) (key : κ) : Bool := (map.get? key).isSome

/-- Rebinding every item of a key keeps the keys. -/
theorem map_rebind_fst (items : List (κ × α)) (key : κ) (value : α) :
    (items.map fun item => if item.1 = key then (key, value) else item).map Prod.fst =
      items.map Prod.fst := by
  -- Each rebound item keeps the key it is found by.
  simp only [List.map_map]
  refine List.map_congr_left fun item _ => ?_
  simp only [Function.comp_apply]
  split <;> simp_all

/-- Bind a key: a bound key keeps its position, a new key goes to the end. -/
def set (map : OrderedMap κ α) (key : κ) (value : α) : OrderedMap κ α :=
  -- A bound key keeps its place in the order, as in the `Map` of the language.
  if bound : key ∈ map.items.map Prod.fst then
    ⟨map.items.map fun item => if item.1 = key then (key, value) else item, by
      rw [map_rebind_fst]; exact map.distinct⟩
  else
    ⟨map.items ++ [(key, value)], by
      simpa [List.nodup_append] using ⟨map.distinct, fun k v member => by
        rintro rfl; exact bound (List.mem_map.mpr ⟨_, member, rfl⟩)⟩⟩

/-- Remove the binding of a key. -/
def delete (map : OrderedMap κ α) (key : κ) : OrderedMap κ α :=
  ⟨map.items.filter fun item => item.1 ≠ key,
    (List.Sublist.map Prod.fst List.filter_sublist).nodup map.distinct⟩

/-- Remove the binding of a key only where it is to the given value. -/
def deleteBinding [DecidableEq α] (map : OrderedMap κ α) (key : κ) (value : α) :
    OrderedMap κ α :=
  if map.get? key = some value then map.delete key else map

/-- A key is bound to exactly the value it is listed with. -/
theorem get?_eq_some_iff {map : OrderedMap κ α} {key : κ} {value : α} :
    map.get? key = some value ↔ (key, value) ∈ map.items := by
  -- The keys are distinct, so the first match is the only one.
  obtain ⟨items, distinct⟩ := map
  simp only [get?]
  induction items with
  | nil => simp
  | cons item rest ih =>
    obtain ⟨other, stored⟩ := item
    simp only [List.map_cons, List.nodup_cons] at distinct
    by_cases same : other = key
    · subst other
      have absent : (key, value) ∉ rest := fun member =>
        distinct.1 (List.mem_map.mpr ⟨_, member, rfl⟩)
      simp [absent, eq_comm]
    · simp [same, ih distinct.2, Ne.symm same]

/-- A key is unbound exactly when it is not listed. -/
theorem get?_eq_none_iff {map : OrderedMap κ α} {key : κ} :
    map.get? key = none ↔ key ∉ map.items.map Prod.fst := by
  -- Nothing is bound exactly when no value is listed.
  rw [Option.eq_none_iff_forall_not_mem]
  simp [get?_eq_some_iff, Option.mem_def]

@[simp] theorem get?_empty (key : κ) : (empty : OrderedMap κ α).get? key = none := rfl

/-- Looking up after binding a key finds the new value there and the old ones elsewhere. -/
theorem get?_set (map : OrderedMap κ α) (key other : κ) (value : α) :
    (map.set key value).get? other = if other = key then some value else map.get? other := by
  apply Option.ext
  intro found
  rw [get?_eq_some_iff]
  unfold set
  split
  · rename_i bound
    obtain ⟨present, member, atKey⟩ := List.mem_map.mp bound
    -- A bound key is rewritten in place.
    by_cases same : other = key
    · subst other
      rw [if_pos rfl, Option.some.injEq, List.mem_map]
      constructor
      · rintro ⟨item, _, rewritten⟩
        split at rewritten
        · exact (Prod.mk.inj rewritten).2
        · exact absurd (congrArg Prod.fst rewritten) ‹_›
      · rintro rfl
        exact ⟨present, member, by simp [atKey]⟩
    · rw [if_neg same, get?_eq_some_iff, List.mem_map]
      constructor
      · rintro ⟨item, inside, rewritten⟩
        split at rewritten
        · exact absurd (Prod.mk.inj rewritten).1.symm same
        · exact rewritten ▸ inside
      · intro inside
        exact ⟨(other, found), inside, by simp [same]⟩
  · rename_i unbound
    -- A new key is appended.
    by_cases same : other = key
    · subst other
      have absent : (key, found) ∉ map.items := fun member =>
        unbound (List.mem_map.mpr ⟨_, member, rfl⟩)
      simp [absent, eq_comm]
    · simp [same, get?_eq_some_iff]

@[simp] theorem get?_set_self (map : OrderedMap κ α) (key : κ) (value : α) :
    (map.set key value).get? key = some value := by
  -- The law for any key, at the key itself.
  simp [get?_set]

/-- Binding a key leaves the others alone. -/
theorem get?_set_ne (map : OrderedMap κ α) {key other : κ} (value : α) (differ : other ≠ key) :
    (map.set key value).get? other = map.get? other := by
  -- The law for any key, at a key that differs.
  simp [get?_set, differ]

/-- Looking up after removing a key finds nothing there and the old values elsewhere. -/
theorem get?_delete (map : OrderedMap κ α) (key other : κ) :
    (map.delete key).get? other = if other = key then none else map.get? other := by
  -- The filter keeps exactly the items of the other keys.
  apply Option.ext
  intro found
  rw [get?_eq_some_iff]
  by_cases same : other = key
  · simp [delete, same]
  · simp [delete, same, get?_eq_some_iff]

@[simp] theorem get?_delete_self (map : OrderedMap κ α) (key : κ) :
    (map.delete key).get? key = none := by
  -- The law for any key, at the key itself.
  simp [get?_delete]

/-- Removing a key leaves the others alone. -/
theorem get?_delete_ne (map : OrderedMap κ α) {key other : κ} (differ : other ≠ key) :
    (map.delete key).get? other = map.get? other := by
  -- The law for any key, at a key that differs.
  simp [get?_delete, differ]

/-- What is bound after a removal was bound before it. -/
theorem get?_of_delete {map : OrderedMap κ α} {key other : κ} {value : α}
    (found : (map.delete key).get? other = some value) :
    other ≠ key ∧ map.get? other = some value := by
  -- What is left after the removal sits under another key.
  rw [get?_delete] at found
  split at found
  · simp at found
  · exact ⟨‹_›, found⟩

/-- A removal unbinds nothing that was unbound and binds nothing. -/
theorem get?_delete_eq_none {map : OrderedMap κ α} {key other : κ}
    (absent : map.get? other = none) : (map.delete key).get? other = none := by
  -- Where the key is the one removed nothing is read, and elsewhere nothing was.
  rw [get?_delete]
  split <;> simp [absent]

/-- What is bound after removing one binding was bound before it, and is not that binding. -/
theorem get?_deleteBinding_eq_some [DecidableEq α] {map : OrderedMap κ α} {key other : κ}
    {value found : α} :
    (map.deleteBinding key value).get? other = some found ↔
      map.get? other = some found ∧ ¬(other = key ∧ found = value) := by
  unfold deleteBinding
  split
  -- The binding was there, so the key is removed.
  · rename_i bound
    rw [get?_delete]
    by_cases same : other = key
    · subst same
      simp [bound, eq_comm]
    · simp [same]
  -- The binding was not there, so nothing is removed.
  · rename_i unbound
    constructor
    · rintro present
      refine ⟨present, ?_⟩
      rintro ⟨rfl, rfl⟩
      exact unbound present
    · exact And.left

/-- Removing one binding binds nothing. -/
theorem get?_deleteBinding_eq_none [DecidableEq α] {map : OrderedMap κ α} {key other : κ}
    {value : α} (absent : map.get? other = none) :
    (map.deleteBinding key value).get? other = none := by
  -- Either the binding is removed as a key would be, or nothing is.
  unfold deleteBinding
  split
  · exact get?_delete_eq_none absent
  · exact absent

@[simp] theorem has_eq_true {map : OrderedMap κ α} {key : κ} :
    map.has key = true ↔ ∃ value, map.get? key = some value := by
  -- A key is there if reading it yields something.
  simp [has, Option.isSome_iff_exists]

/-- Removing an unbound key changes nothing. -/
theorem delete_of_none {map : OrderedMap κ α} {key : κ} (absent : map.get? key = none) :
    map.delete key = map := by
  -- No item carries the key, so the filter keeps them all.
  obtain ⟨items, distinct⟩ := map
  rw [get?_eq_none_iff] at absent
  simp only [delete, mk.injEq, List.filter_eq_self]
  rintro item inside
  simp only [ne_eq, decide_eq_true_eq]
  rintro rfl
  exact absent (List.mem_map.mpr ⟨item, inside, rfl⟩)

/-- Binding a new key adds one to the size. -/
theorem size_set_of_none {map : OrderedMap κ α} {key : κ} (value : α)
    (absent : map.get? key = none) : (map.set key value).size = map.size + 1 := by
  -- A new key is appended.
  rw [get?_eq_none_iff] at absent
  simp only [set, dif_neg absent, size, List.length_append, List.length_singleton]

/-- Binding a bound key keeps the size. -/
theorem size_set_of_some {map : OrderedMap κ α} {key : κ} {old : α} (value : α)
    (bound : map.get? key = some old) : (map.set key value).size = map.size := by
  -- A bound key is rewritten in place.
  have listed : key ∈ map.items.map Prod.fst := by
    by_contra absent
    simp [get?_eq_none_iff.mpr absent] at bound
  simp only [set, dif_pos listed, size, List.length_map]

/-- Binding a key adds at most one to the size. -/
theorem size_set_le (map : OrderedMap κ α) (key : κ) (value : α) :
    (map.set key value).size ≤ map.size + 1 := by
  -- The size grows only where the key is new.
  cases bound : map.get? key with
  | none => exact Nat.le_of_eq (size_set_of_none value bound)
  | some old => rw [size_set_of_some value bound]; omega

/-- Removing a bound key takes one off the size. -/
theorem size_delete_of_some {map : OrderedMap κ α} {key : κ} {value : α}
    (bound : map.get? key = some value) : (map.delete key).size + 1 = map.size := by
  obtain ⟨items, distinct⟩ := map
  rw [get?_eq_some_iff] at bound
  simp only [size, delete]
  -- Exactly one item carries the key, and the filter drops exactly that one.
  induction items with
  | nil => simp at bound
  | cons item rest ih =>
    obtain ⟨other, stored⟩ := item
    simp only [List.map_cons, List.nodup_cons] at distinct
    by_cases same : other = key
    · subst other
      have kept : rest.filter (fun item => item.1 ≠ key) = rest := by
        rw [List.filter_eq_self]
        intro item inside
        simp only [ne_eq, decide_eq_true_eq]
        rintro rfl
        exact distinct.1 (List.mem_map.mpr ⟨item, inside, rfl⟩)
      simpa using congrArg List.length kept
    · have inside : (key, value) ∈ rest := by simpa [Ne.symm same] using bound
      have shorter := ih distinct.2 inside
      simp only [ne_eq, decide_not] at shorter
      simp [same, shorter]

/-- Removing a key never grows the map. -/
theorem size_delete_le (map : OrderedMap κ α) (key : κ) : (map.delete key).size ≤ map.size :=
  -- The entries are filtered.
  List.length_filter_le _ _

/-- Removing a key takes at most one off the size. -/
theorem size_le_delete (map : OrderedMap κ α) (key : κ) :
    map.size ≤ (map.delete key).size + 1 := by
  -- A key that is bound takes exactly one entry with it, and any other takes none.
  cases bound : map.get? key with
  | none => rw [delete_of_none bound]; omega
  | some value => exact Nat.le_of_eq (size_delete_of_some bound).symm

/-- Removing one binding never grows the map. -/
theorem size_deleteBinding_le [DecidableEq α] (map : OrderedMap κ α) (key : κ) (value : α) :
    (map.deleteBinding key value).size ≤ map.size := by
  -- Either the key is removed or nothing happens.
  unfold deleteBinding
  split
  · exact size_delete_le map key
  · exact Nat.le_refl _

/-- The values are what the keys are bound to. -/
theorem mem_values {map : OrderedMap κ α} {value : α} :
    value ∈ map.values ↔ ∃ key, map.get? key = some value := by
  -- The values are read off the entries, and a key is bound to what its entry has.
  simp [values, get?_eq_some_iff]

/-- Values bound under one key only are listed once. -/
theorem nodup_values {map : OrderedMap κ α}
    (once : ∀ key other value, map.get? key = some value → map.get? other = some value →
      key = other) : map.values.Nodup := by
  -- Two items with one value would have one key, and keys are distinct.
  refine List.Nodup.map_on ?_ map.distinct.of_map
  rintro ⟨key, value⟩ member ⟨other, stored⟩ inside same
  simp only at same
  subst stored
  rw [once key other value (get?_eq_some_iff.mpr member) (get?_eq_some_iff.mpr inside)]

/-- The empty map is the one that binds nothing. -/
theorem items_eq_nil_iff {map : OrderedMap κ α} :
    map.items = [] ↔ ∀ key, map.get? key = none := by
  -- A listed item is a bound key.
  constructor
  · intro none key
    simp [get?, none]
  · intro unbound
    rw [List.eq_nil_iff_forall_not_mem]
    rintro ⟨key, value⟩ member
    exact absurd (get?_eq_some_iff.mpr member) (by simp [unbound key])

end OrderedMap

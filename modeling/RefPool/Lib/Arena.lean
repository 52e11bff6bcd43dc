import Mathlib.Data.List.Basic
import Mathlib.Data.List.Perm.Basic
import Mathlib.Algebra.GroupWithZero.Nat

/-! Records addressed by the position they were allocated at, and counts over them. -/

namespace Arena

variable {α β : Type*}

/-- The last record allocated sits at the old length, and the older ones keep their addresses. -/
theorem getElem?_push (records : List α) (fresh : α) (i : Nat) :
    (records ++ [fresh])[i]? = if i = records.length then some fresh else records[i]? := by
  -- An address is below, at, or past the old length.
  rcases Nat.lt_trichotomy i records.length with below | same | above
  · rw [List.getElem?_append_left below, if_neg (by omega)]
  · subst same
    simp
  · rw [if_neg (by omega), List.getElem?_eq_none (by simp; omega),
      List.getElem?_eq_none (by omega)]

/-- A record found before an allocation is found after it. -/
theorem getElem?_push_of_some {records : List α} {record : α} {i : Nat} (fresh : α)
    (found : records[i]? = some record) : (records ++ [fresh])[i]? = some record := by
  rw [getElem?_push, if_neg, found]
  -- An address that was found lies below the old length.
  intro same
  simp [same] at found

/-- A record found after an allocation is the fresh one or was there before. -/
theorem getElem?_push_cases {records : List α} {fresh record : α} {i : Nat}
    (found : (records ++ [fresh])[i]? = some record) :
    (i = records.length ∧ record = fresh) ∨ records[i]? = some record := by
  -- Reading the new list is a case split on the address.
  rw [getElem?_push] at found
  split at found
  · exact .inl ⟨‹_›, by simpa using found.symm⟩
  · exact .inr found

/-- Updating one record updates what is read there and nothing else. -/
theorem getElem?_modify_cases {records : List α} {update : α → α} {i j : Nat} {record : α}
    (found : (records.modify i update)[j]? = some record) :
    (i = j ∧ ∃ old, records[j]? = some old ∧ record = update old) ∨
      (i ≠ j ∧ records[j]? = some record) := by
  -- What is read is what was there, rewritten exactly where the addresses agree.
  rw [List.getElem?_modify, Option.map_eq_map, Option.map_eq_some_iff] at found
  obtain ⟨old, present, updated⟩ := found
  by_cases same : i = j
  · exact .inl ⟨same, old, present, by simpa [same] using updated.symm⟩
  · simp only [if_neg same] at updated
    exact .inr ⟨same, updated ▸ present⟩

/-- The updated record is read at the updated address. -/
theorem getElem?_modify_self {records : List α} {record : α} {i : Nat} (update : α → α)
    (found : records[i]? = some record) :
    (records.modify i update)[i]? = some (update record) := by
  -- The update is applied to the very record that was found.
  simp [found]

/-- Other addresses read as before. -/
theorem getElem?_modify_other (records : List α) (update : α → α) {i j : Nat} (differ : i ≠ j) :
    (records.modify i update)[j]? = records[j]? := by
  -- The update falls on another address.
  simp [differ]

/-- What was found is found after an update, as the updated record or unchanged. -/
theorem exists_getElem?_modify {P : α → Prop} {records : List α} {update : α → α} {i j : Nat}
    {record : α} (found : records[j]? = some record) (updated : i = j → P (update record))
    (unchanged : i ≠ j → P record) :
    ∃ after, (records.modify i update)[j]? = some after ∧ P after := by
  -- The addresses agree or they do not.
  by_cases same : i = j
  · subst same
    exact ⟨_, getElem?_modify_self update found, updated rfl⟩
  · exact ⟨record, by rw [getElem?_modify_other _ _ same, found], unchanged same⟩

/-- Updating the last record allocated. -/
theorem modify_push (records : List α) (fresh : α) (update : α → α) :
    (records ++ [fresh]).modify records.length update = records ++ [update fresh] := by
  -- The records before the last one are walked past unchanged.
  induction records with
  | nil => rfl
  | cons head tail ih => simpa using ih

/-- An update that keeps a projection of the record keeps the projection of every record. -/
theorem map_modify_of_eq {records : List α} {update : α → α} {i : Nat} (view : α → β)
    (same : ∀ record, records[i]? = some record → view (update record) = view record) :
    (records.modify i update).map view = records.map view := by
  -- The two views are compared address by address.
  apply List.ext_getElem?
  intro j
  simp only [List.getElem?_map, List.getElem?_modify]
  by_cases at_ : i = j
  · subst at_
    cases found : records[i]? with
    | none => simp
    | some record => simp [same record found]
  · simp [at_]

/-- An update that moves the projection of the record moves that of the list. -/
theorem map_modify_commute {records : List α} {update : α → α} {i : Nat} (view : α → β)
    (move : β → β)
    (agree : ∀ record, records[i]? = some record → view (update record) = move (view record)) :
    (records.modify i update).map view = (records.map view).modify i move := by
  -- The two lists agree at every address, the updated one included.
  apply List.ext_getElem?
  intro j
  simp only [List.getElem?_map, List.getElem?_modify]
  by_cases at_ : i = j
  · subst at_
    cases found : records[i]? with
    | none => simp
    | some record => simp [agree record found]
  · simp [at_]

/-- An update that keeps what is asked of a record keeps the answer at every address. -/
theorem any_getElem?_modify {records : List α} {update : α → α} {i : Nat} (p : α → Bool)
    (same : ∀ record, records[i]? = some record → p (update record) = p record) (j : Nat) :
    ((records.modify i update)[j]?).any p = (records[j]?).any p := by
  -- Only the updated address could answer differently, and there the record keeps its answer.
  by_cases at_ : i = j
  · subst at_
    cases found : records[i]? with
    | none => simp [found]
    | some record => simp [found, same record found]
  · rw [getElem?_modify_other _ _ at_]

/-- An update that changes nothing where it applies changes nothing. -/
theorem modify_of_fixed {records : List α} {update : α → α} {i : Nat}
    (fixed : ∀ record, records[i]? = some record → update record = record) :
    records.modify i update = records := by
  -- This is the previous lemma with the whole record in view.
  simpa using map_modify_of_eq id fixed

/-- Updating one record moves a count by what that record contributes before and after. -/
theorem countP_modify {records : List α} {record : α} {i : Nat} (update : α → α) (p : α → Bool)
    (found : records[i]? = some record) :
    (records.modify i update).countP p + (if p record then 1 else 0) =
      records.countP p + (if p (update record) then 1 else 0) := by
  -- The position is walked down to zero, and the records before it contribute equally.
  induction records generalizing i with
  | nil => simp at found
  | cons head tail ih =>
    cases i with
    | zero =>
      simp only [List.getElem?_cons_zero, Option.some.injEq] at found
      subst head
      simp only [List.modify_zero_cons, List.countP_cons]
      omega
    | succ i =>
      simp only [List.getElem?_cons_succ] at found
      have rest := ih found
      simp only [List.modify_succ_cons, List.countP_cons]
      omega

/-- Updating one record moves a total by what that record amounts to before and after. -/
theorem sum_modify {records : List α} {record : α} {i : Nat} (update : α → α) (amount : α → Nat)
    (found : records[i]? = some record) :
    ((records.modify i update).map amount).sum + amount record =
      (records.map amount).sum + amount (update record) := by
  -- As with a count, the records before the updated one amount to the same.
  induction records generalizing i with
  | nil => simp at found
  | cons head tail ih =>
    cases i with
    | zero =>
      simp only [List.getElem?_cons_zero, Option.some.injEq] at found
      subst head
      simp only [List.modify_zero_cons, List.map_cons, List.sum_cons]
      omega
    | succ i =>
      simp only [List.getElem?_cons_succ] at found
      have rest := ih found
      simp only [List.modify_succ_cons, List.map_cons, List.sum_cons]
      omega

/-- An update that keeps the counted property keeps the count. -/
theorem countP_modify_of_eq {records : List α} {update : α → α} {i : Nat} (p : α → Bool)
    (same : ∀ record, records[i]? = some record → p (update record) = p record) :
    (records.modify i update).countP p = records.countP p := by
  -- Where nothing is found the update does nothing.
  cases found : records[i]? with
  | none => rw [List.modify_eq_self (by simpa using found)]
  | some record =>
    have moved := countP_modify update p found
    -- The record contributes alike before and after.
    rw [same record found] at moved
    omega

/-- A record with the counted property makes the count positive. -/
theorem countP_pos_of_getElem? {records : List α} {record : α} {i : Nat} {p : α → Bool}
    (found : records[i]? = some record) (counted : p record) : 0 < records.countP p :=
  -- The record is a member, and a count is positive when a member is counted.
  List.countP_pos_iff.mpr ⟨record, List.mem_of_getElem? found, counted⟩

/-- A positive count comes from a record at some address. -/
theorem exists_of_countP_pos {records : List α} {p : α → Bool} (positive : 0 < records.countP p) :
    ∃ (i : Nat) (record : α), records[i]? = some record ∧ p record := by
  -- A counted record is a member, and a member has an address.
  obtain ⟨record, member, counted⟩ := List.countP_pos_iff.mp positive
  obtain ⟨i, found⟩ := List.mem_iff_getElem?.mp member
  exact ⟨i, record, found, counted⟩

/-- Counting a weaker property that one record newly has gives a larger count. -/
theorem countP_lt_of_gain {records : List α} {record : α} {p q : α → Bool}
    (weaker : ∀ x ∈ records, p x → q x) (member : record ∈ records)
    (lacked : ¬ p record) (gained : q record) : records.countP p < records.countP q := by
  -- The record that gains is the head or lies further down.
  induction records with
  | nil => simp at member
  | cons head tail ih =>
    have tailWeaker : ∀ x ∈ tail, p x → q x := fun x inside => weaker x (by simp [inside])
    simp only [List.countP_cons]
    rcases List.mem_cons.mp member with rfl | inside
    -- The tail counts at least as much, and the head counts newly.
    · have monotone := List.countP_mono_left tailWeaker
      simp only [lacked, gained, if_true]
      simp
      omega
    -- The tail counts strictly more, and the head counts at least as much.
    · have strict := ih tailWeaker inside
      have headWeaker := weaker head (by simp)
      cases before : p head <;> cases after : q head <;> simp_all
      omega

/-- Updating one record exchanges what it yields, and leaves what the others yield. -/
theorem flatMap_modify_perm {records : List α} {record : α} {i : Nat} (update : α → α)
    (f : α → List β) (found : records[i]? = some record) :
    (f record ++ (records.modify i update).flatMap f).Perm
      (f (update record) ++ records.flatMap f) := by
  -- The records before the updated one yield the same on both sides.
  induction records generalizing i with
  | nil => simp at found
  | cons head tail ih =>
    cases i with
    | zero =>
      simp only [List.getElem?_cons_zero, Option.some.injEq] at found
      subst head
      rw [List.modify_zero_cons, List.flatMap_cons, List.flatMap_cons]
      exact List.perm_append_comm_assoc _ _ _
    | succ i =>
      have rest := ih (by simpa using found)
      rw [List.modify_succ_cons, List.flatMap_cons, List.flatMap_cons]
      exact ((List.perm_append_comm_assoc _ _ _).trans (rest.append_left (f head))).trans
        (List.perm_append_comm_assoc _ _ _)

/-- What a record yields may be one thing or nothing. -/
theorem filterMap_modify_perm {records : List α} {record : α} {i : Nat} (update : α → α)
    (f : α → Option β) (found : records[i]? = some record) :
    ((f record).toList ++ (records.modify i update).filterMap f).Perm
      ((f (update record)).toList ++ records.filterMap f) := by
  -- An optional result is a list of at most one, so the law for lists applies.
  simpa only [List.filterMap_eq_flatMap_toList] using
    flatMap_modify_perm update (fun record => (f record).toList) found

/-- Dropping a record out of a filtered view takes exactly that record away. -/
theorem filter_modify_perm {records : List α} {record : α} {i : Nat} (update : α → α)
    (p : α → Bool) (found : records[i]? = some record) (kept : p record)
    (dropped : ¬ p (update record)) :
    (records.filter p).Perm (record :: (records.modify i update).filter p) := by
  -- The record yields itself before the update and nothing after it.
  have moved := filterMap_modify_perm update (Option.guard p) found
  have own : Option.guard p record = some record := by simp [Option.guard, kept]
  have gone : Option.guard p (update record) = none := by simp [Option.guard, dropped]
  rw [own, gone, List.filterMap_eq_filter] at moved
  exact moved.symm

/-- Whether a decidable property holds of every record can be checked. -/
instance decidableForall {records : List α} {p : Nat → α → Prop}
    [∀ i record, Decidable (p i record)] :
    Decidable (∀ (i : Nat) record, records[i]? = some record → p i record) :=
  -- Only the addresses below the length have to be tried.
  decidable_of_iff (∀ i, i < records.length → ∀ record ∈ records[i]?, p i record)
    ⟨fun all i record found => all i (List.getElem?_eq_some_iff.mp found).1 record found,
      fun all i _ record found => all i record found⟩

/-- Counting records is counting the addresses they are found at. -/
theorem countP_range (records : List α) (p : α → Bool) :
    (List.range records.length).countP (fun i => records[i]?.any p) = records.countP p := by
  -- The addresses of the records after the first are shifted by one.
  induction records with
  | nil => rfl
  | cons head tail ih =>
    rw [List.length_cons, List.range_succ_eq_map, List.countP_cons, List.countP_map,
      List.countP_cons, ← ih]
    simp [Function.comp_def]

/-- What is read off the records is read off the addresses they are found at. -/
theorem filterMap_range (records : List α) (view : α → Option β) :
    (List.range records.length).filterMap (fun i => (records[i]?).bind view) =
      records.filterMap view := by
  -- The addresses of the records after the first are shifted by one.
  induction records with
  | nil => rfl
  | cons head tail ih =>
    rw [List.length_cons, List.range_succ_eq_map, List.filterMap_cons, List.filterMap_map,
      List.filterMap_cons, ← ih]
    rfl

/-- Records that refer to different records of another kind are no more than those. -/
theorem countP_le_countP {records : List α} {others : List β} (target : α → Nat)
    {p : α → Bool} {q : β → Bool}
    (lands : ∀ (i : Nat) record, records[i]? = some record → p record = true →
      ∃ other, others[target record]? = some other ∧ q other = true)
    (once : ∀ (i j : Nat) left right, records[i]? = some left → records[j]? = some right →
      p left = true → p right = true → target left = target right → i = j) :
    records.countP p ≤ others.countP q := by
  -- The addresses referred to are distinct, and are among those of the other kind.
  have distinct : ((records.filter p).map target).Nodup := by
    refine List.pairwise_map.mpr (List.pairwise_filter.mpr (List.pairwise_iff_getElem.mpr ?_))
    intro i j left right less chosen chosen' same
    have equal := once i j _ _ (List.getElem?_eq_getElem left) (List.getElem?_eq_getElem right)
      chosen chosen' same
    omega
  have inside : (records.filter p).map target ⊆
      (List.range others.length).filter fun i => others[i]?.any q := by
    intro address listed
    obtain ⟨record, member, rfl⟩ := List.mem_map.mp listed
    obtain ⟨present, chosen⟩ := List.mem_filter.mp member
    obtain ⟨i, found⟩ := List.mem_iff_getElem?.mp present
    obtain ⟨other, read, counted⟩ := lands i record found chosen
    exact List.mem_filter.mpr ⟨List.mem_range.mpr (List.getElem?_eq_some_iff.mp read).1,
      by simp [read, counted]⟩
  have length := (List.subperm_of_subset distinct inside).length_le
  rwa [List.length_map, ← List.countP_eq_length_filter, ← List.countP_eq_length_filter,
    countP_range] at length

end Arena

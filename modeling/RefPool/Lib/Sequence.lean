import Mathlib.Data.List.Basic
import Mathlib.Data.List.MinMax

/-! The order of the members of a list: as lists grow and are used up, and in sorted lists. -/

namespace Sequence

variable {α : Type*} {list more : List α} {x y : α}

/-- One member of a list stands somewhere before another. -/
def Before (list : List α) (x y : α) : Prop := [x, y].Sublist list

/-- Whether one member stands before another can be checked. -/
instance [DecidableEq α] (list : List α) (x y : α) : Decidable (Before list x y) :=
  inferInstanceAs (Decidable ([x, y].Sublist list))

namespace Before

/-- The order stays as the list grows. -/
theorem append (before : Before list x y) (more : List α) : Before (list ++ more) x y :=
  -- A sublist stays one when the list grows at its end.
  before.trans (List.sublist_append_left list more)

/-- What is appended stands behind what was there. -/
theorem of_mem_append (old : x ∈ list) (new : y ∈ more) : Before (list ++ more) x y :=
  -- Each of the two is a sublist of its part.
  (List.singleton_sublist.mpr old).append (List.singleton_sublist.mpr new)

/-- The order of the others stays when the first one is taken. -/
theorem tail {first : α} (before : Before (first :: list) x y) (differ : x ≠ first) :
    Before list x y := by
  -- The first element is not the earlier one of the two, so it can go.
  cases before with
  | cons _ rest => exact rest
  | cons_cons => exact absurd rfl differ

/-- Nothing stands before the first of a list without duplicates. -/
theorem ne_head {first : α} (before : Before (first :: list) x y) (once : (first :: list).Nodup) :
    y ≠ first := by
  -- The second of the pair stands in the rest, where the first of the list does not.
  have later : y ∈ list := by
    cases before with
    | cons _ rest => exact rest.subset (by simp)
    | cons_cons _ rest => exact rest.subset (by simp)
  rintro rfl
  exact (List.nodup_cons.mp once).1 later

end Before

/-! ### Sorted lists -/

/-- What a list sorted by the property begins with is all of it that has the property. -/
theorem takeWhile_eq_filter {p : α → Bool} (sorted : list.Pairwise fun x y => p y → p x) :
    list.takeWhile p = list.filter p := by
  induction list with
  | nil => rfl
  | cons first rest ih =>
    obtain ⟨ahead, sorted⟩ := List.pairwise_cons.mp sorted
    by_cases here : p first
    · simp [here, ih sorted]
    -- Whatever has the property further on would have the first one have it.
    · have none_ : rest.filter p = [] := by
        rw [List.filter_eq_nil_iff]
        exact fun x inside later => here (ahead x inside later)
      simp [here, none_]

/--
The first member of a strictly sorted list with the property is the least one that has it.

The scan that looks for the least one may go over the members in any order.
-/
theorem find?_eq_argmin {β : Type*} [Preorder β] [DecidableLT β] {f : α → β} {p : α → Bool}
    {scan : List α} (sorted : list.Pairwise fun x y => f x < f y)
    (same : ∀ x, x ∈ scan ↔ x ∈ list ∧ p x) : list.find? p = scan.argmin f := by
  cases picked : list.find? p with
  | none =>
    have nothing : scan = [] := by
      rw [List.eq_nil_iff_forall_not_mem]
      intro x inside
      obtain ⟨inside, has⟩ := (same x).mp inside
      exact List.find?_eq_none.mp picked x inside has
    rw [nothing, List.argmin_nil]
  | some least =>
    obtain ⟨has, front, back, rfl, fails⟩ := List.find?_eq_some_iff_append.mp picked
    have behind := (List.pairwise_cons.mp (List.pairwise_append.mp sorted).2.1).1
    -- The members in front do not have the property, and those behind are greater.
    have rest (x : α) (inside : x ∈ scan) : x = least ∨ f least < f x := by
      obtain ⟨inside, has'⟩ := (same x).mp inside
      rcases List.mem_append.mp inside with left | right
      · exact absurd has' (by simpa using fails x left)
      · exact (List.mem_cons.mp right).imp id (behind x)
    have inside : least ∈ scan := (same least).mpr ⟨by simp, has⟩
    cases scanned : scan.argmin f with
    | none => exact absurd (List.argmin_eq_none.mp scanned) (List.ne_nil_of_mem inside)
    | some found =>
      rcases rest found (List.argmin_mem scanned) with same | less
      · rw [same]
      · exact absurd less (List.not_lt_of_mem_argmin inside scanned)

/-- Taking out the one member that yields a value takes that value out of what the list yields. -/
theorem filterMap_erase {β : Type*} [BEq α] [LawfulBEq α] [BEq β] [LawfulBEq β]
    {f : α → Option β} {y : β} (yields : f x = some y)
    (once : ∀ other ∈ list, f other = some y → other = x) :
    (list.erase x).filterMap f = (list.filterMap f).erase y := by
  induction list with
  | nil => rfl
  | cons first rest ih =>
    have later := ih fun other inside => once other (List.mem_cons_of_mem _ inside)
    by_cases here : first = x
    · subst here
      simp [yields]
    -- Another member yields something else, or nothing.
    · have differ : f first ≠ some y := fun same => here (once first List.mem_cons_self same)
      rw [List.erase_cons_tail (by simpa using here)]
      cases read : f first with
      | none => rw [List.filterMap_cons_none read, List.filterMap_cons_none read, later]
      | some other =>
        have apart : other ≠ y := fun same => differ (by rw [read, same])
        rw [List.filterMap_cons_some read, List.filterMap_cons_some read,
          List.erase_cons_tail (by simpa using apart), later]

/-- Taking out a member that yields nothing takes nothing out of what the list yields. -/
theorem filterMap_erase_of_none {β : Type*} [BEq α] [LawfulBEq α] {f : α → Option β}
    (yields : f x = none) : (list.erase x).filterMap f = list.filterMap f := by
  -- By induction on the list; what is erased is either the first member or further back.
  induction list with
  | nil => rfl
  | cons first rest ih =>
    by_cases here : first = x
    · subst here
      simp [yields]
    · rw [List.erase_cons_tail (by simpa using here), List.filterMap_cons, List.filterMap_cons, ih]

end Sequence

import Mathlib.Data.List.Nodup

/-! Finite sets that keep their members in the order of insertion. -/

/-- A finite set whose members stand in insertion order. -/
structure OrderedSet (α : Type) where
  /-- The members, oldest first. -/
  members : List α
  /-- No member is listed twice. -/
  distinct : members.Nodup

namespace OrderedSet

variable {α : Type}

/-- The set with no members. -/
def empty : OrderedSet α := ⟨[], List.nodup_nil⟩

variable [DecidableEq α]

/-- Add a member: one that is there keeps its place, a new one goes to the end. -/
def add (set : OrderedSet α) (member : α) : OrderedSet α :=
  if inside : member ∈ set.members then set
  else
    ⟨set.members ++ [member], by
      simpa [List.nodup_append, set.distinct] using fun other found => by
        rintro rfl
        exact inside found⟩

/-- Remove a member. -/
def delete (set : OrderedSet α) (member : α) : OrderedSet α :=
  ⟨set.members.erase member, set.distinct.erase member⟩

/-- A member that is there already changes nothing. -/
theorem add_of_mem {set : OrderedSet α} {member : α} (inside : member ∈ set.members) :
    set.add member = set := by
  -- The member is found, which selects the branch.
  simp [add, inside]

/-- A new member goes to the end. -/
theorem members_add_of_not_mem {set : OrderedSet α} {member : α}
    (absent : member ∉ set.members) : (set.add member).members = set.members ++ [member] := by
  -- The member is not found, which selects the branch.
  simp [add, absent]

/-- The members after an addition are those before it and the new one. -/
theorem mem_add {set : OrderedSet α} {member other : α} :
    other ∈ (set.add member).members ↔ other = member ∨ other ∈ set.members := by
  -- Whether the new member was there already decides.
  by_cases inside : member ∈ set.members
  · rw [add_of_mem inside]
    exact ⟨Or.inr, fun either => either.elim (fun same => same ▸ inside) id⟩
  · rw [members_add_of_not_mem inside, List.mem_append, List.mem_singleton, or_comm]

omit [DecidableEq α] in
@[simp] theorem members_empty : (empty : OrderedSet α).members = [] := rfl

@[simp] theorem members_delete (set : OrderedSet α) (member : α) :
    (set.delete member).members = set.members.erase member := rfl

end OrderedSet

import Mathlib.Data.List.Nodup
import Mathlib.Logic.Function.Basic

/-! Doubly linked lists threaded through their nodes, and the sequences that the links spell. -/

/-- The links of a doubly linked list, by the address of the node that carries them. -/
structure LinkedList (ι : Type*) where
  head : Option ι
  tail : Option ι
  prev : ι → Option ι
  next : ι → Option ι
  /-- Whether a node is marked as being on the list. -/
  marked : ι → Bool
  /-- How many nodes there are on the list. -/
  count : Int

namespace LinkedList

variable {ι : Type*} [DecidableEq ι]

/-- The empty list, over nodes that carry no links. -/
def empty : LinkedList ι := ⟨none, none, fun _ => none, fun _ => none, fun _ => false, 0⟩

/-- Link a node behind the tail, unless it is marked already. -/
def append (links : LinkedList ι) (e : ι) : LinkedList ι :=
  if links.marked e then links
  else
    { head := match links.tail with
        | none => some e
        | some _ => links.head
      tail := some e
      prev := Function.update links.prev e links.tail
      next := match links.tail with
        | none => Function.update links.next e none
        | some last => Function.update (Function.update links.next e none) last (some e)
      marked := Function.update links.marked e true
      count := links.count + 1 }

/-- Link the neighbours of a node to each other, if it is marked. -/
def remove (links : LinkedList ι) (e : ι) : LinkedList ι :=
  if links.marked e then
    { head := match links.prev e with
        | none => links.next e
        | some _ => links.head
      tail := match links.next e with
        | none => links.prev e
        | some _ => links.tail
      prev := Function.update (match links.next e with
        | none => links.prev
        | some after => Function.update links.prev after (links.prev e)) e none
      next := Function.update (match links.prev e with
        | none => links.next
        | some before => Function.update links.next before (links.next e)) e none
      marked := Function.update links.marked e false
      count := links.count - 1 }
  else links

omit [DecidableEq ι] in
/-- Forget the list without touching the nodes. -/
def reset (links : LinkedList ι) : LinkedList ι :=
  { links with head := none, tail := none, count := 0 }

omit [DecidableEq ι] in
/-- The links spell a sequence: each node is linked to its neighbours in it. -/
structure Spells (links : LinkedList ι) (list : List ι) : Prop where
  once : list.Nodup
  head : links.head = list.head?
  tail : links.tail = list.getLast?
  linked : ∀ before e after, list = before ++ e :: after →
    links.prev e = before.getLast? ∧ links.next e = after.head?
  marked : ∀ e ∈ list, links.marked e = true
  count : links.count = list.length

omit [DecidableEq ι] in
/-- The empty list spells nothing. -/
theorem spells_empty : (empty : LinkedList ι).Spells [] := by
  -- There is neither a node nor a link.
  constructor <;> simp [empty]

namespace Spells

variable {links : LinkedList ι} {list : List ι} {e : ι}

omit [DecidableEq ι] in
/-- A list that is forgotten spells nothing. -/
theorem reset : links.reset.Spells [] := by
  -- Forgetting leaves neither a node nor a link.
  constructor <;> simp [LinkedList.reset]

/-- Appending a node spells the sequence with the node at its end. -/
theorem append (spells : links.Spells list) (unmarked : links.marked e = false) :
    (links.append e).Spells (list ++ [e]) := by
  have absent : e ∉ list := fun inside => by simp [spells.marked e inside] at unmarked
  have other {x : ι} (inside : x ∈ list) : x ≠ e := fun same => absent (same ▸ inside)
  rw [LinkedList.append, unmarked, if_neg (by simp)]
  constructor
  case once =>
    refine List.nodup_append.mpr ⟨spells.once, by simp, fun x inside y new same => ?_⟩
    exact absent (List.mem_singleton.mp new ▸ same ▸ inside)
  case head =>
    cases list with
    | nil => simp [spells.tail]
    | cons first rest => cases last : links.tail <;> simp_all [spells.tail, spells.head]
  case tail => simp
  case marked =>
    intro x inside
    by_cases same : x = e
    · simp [same]
    · have inside : x ∈ list := by simpa [same] using inside
      simp [same, spells.marked x inside]
  case count => simp [spells.count]
  case linked =>
    intro before x after split
    rcases List.eq_nil_or_concat after with rfl | ⟨more, last, rfl⟩
    -- The node itself is linked to the former tail.
    · obtain ⟨rfl, same⟩ := List.append_inj' split rfl
      obtain rfl : e = x := by simpa using same
      refine ⟨by simp [spells.tail], ?_⟩
      cases end_ : links.tail with
      | none => simp
      | some tail =>
        have inside : tail ∈ list := List.mem_of_getLast? (spells.tail.symm.trans end_)
        simp [Ne.symm (other inside)]
    -- Of the others only the former tail has a new neighbour.
    · have both : list ++ [e] = (before ++ x :: more) ++ [last] := by simpa using split
      obtain ⟨rfl, same⟩ := List.append_inj' both rfl
      obtain rfl : e = last := by simpa using same
      obtain ⟨prev, next⟩ := spells.linked before x more rfl
      have differ : x ≠ e := other (by simp)
      refine ⟨by simp [differ, prev], ?_⟩
      rcases List.eq_nil_or_concat more with rfl | ⟨rest, final, rfl⟩
      · have end_ : links.tail = some x := by simp [spells.tail]
        simp [end_]
      · have end_ : links.tail = some final := by
          rw [spells.tail, List.concat_eq_append, ← List.cons_append, ← List.append_assoc,
            List.getLast?_concat]
        have apart : x ≠ final := by
          have once := spells.once
          simp only [List.concat_eq_append, List.nodup_append, List.nodup_cons] at once
          rintro rfl
          exact once.2.1.1 (by simp)
        simp [end_, differ, apart, next]

/-- Removing a node links its neighbours in the sequence to each other. -/
theorem removeAt {front back : List ι} (spells : links.Spells (front ++ e :: back)) :
    (links.remove e).Spells (front ++ back) := by
  have once := spells.once
  simp only [List.nodup_append, List.nodup_cons, List.mem_cons] at once
  obtain ⟨onceFront, ⟨notBack, onceBack⟩, apart⟩ := once
  have notFront : e ∉ front := fun inside => apart e inside e (.inl rfl) rfl
  obtain ⟨prev, next⟩ := spells.linked front e back rfl
  rw [LinkedList.remove, spells.marked e (by simp), if_pos rfl, prev, next]
  constructor
  case once =>
    exact List.nodup_append.mpr ⟨onceFront, onceBack, fun x left y right =>
      apart x left y (.inr right)⟩
  -- The ends of the chain move only if the node was one of them.
  case head =>
    cases front with
    | nil => simp
    | cons first rest => cases last : (first :: rest).getLast? <;> simp_all [spells.head]
  case tail =>
    cases back with
    | nil => simp
    | cons first rest => simp [spells.tail]
  -- The nodes that are left are others, and are marked as before.
  case marked =>
    intro x member
    have differ : x ≠ e := by
      rintro rfl
      exact (List.mem_append.mp member).elim notFront notBack
    simp only [Function.update_of_ne differ]
    exact spells.marked x (by
      rcases List.mem_append.mp member with left | right
      · exact List.mem_append_left _ left
      · exact List.mem_append_right _ (List.mem_cons_of_mem _ right))
  case count =>
    rw [spells.count]
    simp only [List.length_append, List.length_cons]
    omega
  case linked =>
    intro before x after split
    -- The node stands behind the one removed, or in front of it.
    have side : (∃ middle, before = front ++ middle ∧ back = middle ++ x :: after) ∨
        ∃ middle, front = before ++ x :: middle ∧ after = middle ++ back := by
      rcases List.append_eq_append_iff.mp split with ⟨middle, same, rest⟩ | ⟨middle, same, rest⟩
      · exact .inl ⟨middle, same, rest⟩
      · cases middle with
        | nil => exact .inl ⟨[], by simpa using same.symm, by simpa using rest.symm⟩
        | cons first more =>
          simp only [List.cons_append, List.cons.injEq] at rest
          obtain ⟨rfl, rfl⟩ := rest
          exact .inr ⟨more, same, rfl⟩
    rcases side with ⟨middle, rfl, rfl⟩ | ⟨middle, rfl, rfl⟩
    -- Behind the gap the link back of the first node is mended, and no other link.
    · have differ : x ≠ e := by
        rintro rfl
        exact notBack (by simp)
      obtain ⟨prev', next'⟩ := spells.linked (front ++ e :: middle) x after (by simp)
      constructor
      · cases middle with
        | nil => simp [differ]
        | cons first more =>
          have other : x ≠ first := by
            rintro rfl
            simp at onceBack
          simp [differ, other, prev', List.getLast?_append]
      · cases last : front.getLast? with
        | none => simp [differ, next']
        | some y =>
          have other : x ≠ y := fun same =>
            apart y (List.mem_of_getLast? last) x (.inr (by simp)) same.symm
          simp [differ, other, next']
    · have differ : x ≠ e := by
        rintro rfl
        exact notFront (by simp)
      obtain ⟨prev', next'⟩ := spells.linked before x (middle ++ e :: back) (by simp)
      constructor
      · cases first : back.head? with
        | none => simp [differ, prev']
        | some y =>
          have other : x ≠ y := apart x (by simp) y (.inr (List.mem_of_head? first))
          simp [differ, other, prev']
      · rcases List.eq_nil_or_concat middle with rfl | ⟨more, last, rfl⟩
        · simp [differ]
        · have end_ : (before ++ x :: more.concat last).getLast? = some last := by
            rw [List.concat_eq_append, ← List.cons_append, ← List.append_assoc,
              List.getLast?_concat]
          have other : x ≠ last := by
            rintro rfl
            simp only [List.concat_eq_append, List.nodup_append, List.nodup_cons] at onceFront
            exact onceFront.2.1.1 (by simp)
          rw [end_]
          simp [differ, other, next', List.head?_append]

/-- Removing a node wherever it stands spells the sequence without it. -/
theorem remove (spells : links.Spells list) (inside : e ∈ list) :
    (links.remove e).Spells (list.erase e) := by
  -- The sequence splits around the node, which is where its links are mended.
  obtain ⟨front, back, absent, rfl, erased⟩ := List.exists_erase_eq inside
  rw [erased]
  exact spells.removeAt

end Spells

/-! ### Following the links -/

omit [DecidableEq ι] in
/-- Following a link from a start runs through a finite sequence of nodes, and ends with it. -/
def Follows (link : ι → Option ι) : Option ι → List ι → Prop
  | start, [] => start = none
  | start, e :: rest => start = some e ∧ Follows link (link e) rest

namespace Spells

variable {links : LinkedList ι} {list : List ι} {e : ι}

omit [DecidableEq ι] in
/-- From a node on, the links onward run through the rest of the sequence. -/
theorem follows_rest (spells : links.Spells list) {before rest : List ι}
    (split : list = before ++ rest) : Follows links.next rest.head? rest := by
  -- By induction on what is left, with the nodes passed collected in front.
  induction rest generalizing before with
  | nil => rfl
  | cons e rest ih =>
    refine ⟨rfl, ?_⟩
    rw [(spells.linked before e rest split).2]
    have further : list = (before ++ [e]) ++ rest := by simpa using split
    exact ih further

omit [DecidableEq ι] in
/-- From the head on, the links onward run through the sequence. -/
theorem follows_next (spells : links.Spells list) : Follows links.next links.head list := by
  -- The head begins the whole sequence, with nothing before it.
  have whole : list = [] ++ list := rfl
  rw [spells.head]
  exact spells.follows_rest whole

omit [DecidableEq ι] in
/-- The same links seen from the other end spell the sequence backwards. -/
theorem reverse (spells : links.Spells list) :
    Spells { links with
      head := links.tail, tail := links.head, prev := links.next, next := links.prev }
      list.reverse where
  -- Every field changes ends, so that a split of the reversed list is one of the list reversed.
  once := List.nodup_reverse.mpr spells.once
  head := by simp [spells.tail]
  tail := by simp [spells.head]
  linked := by
    intro before e after split
    have forward : list = after.reverse ++ e :: before.reverse := by
      rw [← List.reverse_reverse list, split]
      simp
    obtain ⟨prev, next⟩ := spells.linked after.reverse e before.reverse forward
    exact ⟨by simp [next], by simp [prev]⟩
  marked := fun e inside => spells.marked e (List.mem_reverse.mp inside)
  count := by simp [spells.count]

omit [DecidableEq ι] in
/-- From the tail on, the links back run through the sequence backwards. -/
theorem follows_prev (spells : links.Spells list) :
    Follows links.prev links.tail list.reverse :=
  -- These are the links onward of the reversed list.
  spells.reverse.follows_next

end Spells

/-! ### Marks of the nodes on the list only -/

omit [DecidableEq ι] in
/-- The links spell a sequence, and no other node is marked. -/
structure Represents (links : LinkedList ι) (list : List ι) : Prop where
  spells : links.Spells list
  exact : ∀ e, links.marked e = true ↔ e ∈ list

omit [DecidableEq ι] in
/-- Fresh links represent the empty sequence. -/
theorem represents_empty : (empty : LinkedList ι).Represents [] where
  -- There is no node, and none stands outside the sequence.
  spells := spells_empty
  exact := by simp [empty]

namespace Represents

variable {links : LinkedList ι} {list : List ι}

/-- Appending a node puts it at the end, unless it is there already. -/
theorem append (represents : links.Represents list) (e : ι) :
    (links.append e).Represents (if e ∈ list then list else list ++ [e]) := by
  by_cases inside : e ∈ list
  · -- A marked node is left alone.
    rw [if_pos inside, LinkedList.append, if_pos ((represents.exact e).mpr inside)]
    exact represents
  · have unmarked : links.marked e = false := by
      simpa [inside] using (represents.exact e).not
    rw [if_neg inside]
    refine ⟨represents.spells.append unmarked, fun other => ?_⟩
    rw [LinkedList.append, unmarked, if_neg (by simp)]
    by_cases same : other = e
    · simp [same]
    · simp [same, represents.exact]

/-- Removing a node deletes it and keeps the order of the others. -/
theorem remove (represents : links.Represents list) (e : ι) :
    (links.remove e).Represents (list.erase e) := by
  by_cases inside : e ∈ list
  · refine ⟨represents.spells.remove inside, fun other => ?_⟩
    rw [LinkedList.remove, if_pos ((represents.exact e).mpr inside),
      represents.spells.once.mem_erase_iff]
    by_cases same : other = e
    · simp [same]
    · simp [same, represents.exact]
  · -- An unmarked node is left alone.
    have unmarked : ¬links.marked e = true := (represents.exact e).not.mpr inside
    rw [List.erase_of_not_mem inside, LinkedList.remove, if_neg unmarked]
    exact represents

end Represents

/-! ### Loops over the nodes -/

variable {σ : Type*}

omit [DecidableEq ι] in
/--
A loop over the nodes, from one on, that reads the link onward before its body runs.

The body says whether the loop ends with it. The fuel stands for the length of the list.
-/
def walk (links : σ → LinkedList ι) (body : σ → ι → σ × Bool) : Nat → Option ι → σ → σ
  | 0, _, state => state
  | _ + 1, none, state => state
  | fuel + 1, some node, state =>
    let onward := (links state).next node
    -- The body may well unlink the node, and the link read before is what the loop follows.
    let (state, done) := body state node
    if done then state else walk links body fuel onward state

omit [DecidableEq ι] in
/-- The same loop over a sequence of nodes given beforehand. -/
def visit (body : σ → ι → σ × Bool) : List ι → σ → σ
  | [], state => state
  | node :: rest, state =>
    let (state, done) := body state node
    if done then state else visit body rest state

omit [DecidableEq ι] in
/--
A loop that unlinks at most the node it is at visits the sequence that the links spell.

Fuel for the nodes ahead is enough, and more fuel makes no difference.
-/
theorem walk_eq_visit {links : σ → LinkedList ι} {body : σ → ι → σ × Bool}
    (keeps : ∀ state done node rest, (links state).Spells (done ++ node :: rest) →
      ∃ passed, (links (body state node).1).Spells (passed ++ rest))
    {fuel : Nat} {done rest : List ι} {state : σ} (spells : (links state).Spells (done ++ rest))
    (enough : rest.length ≤ fuel) :
    walk links body fuel rest.head? state = visit body rest state := by
  -- The induction is on the nodes ahead, which the body leaves linked as they are.
  induction rest generalizing fuel done state with
  | nil => cases fuel <;> rfl
  | cons node rest ih =>
    cases fuel with
    | zero => simp at enough
    | succ fuel =>
      obtain ⟨passed, after⟩ := keeps state done node rest spells
      have onward := (spells.linked done node rest rfl).2
      simp only [List.head?_cons, walk, visit]
      split
      · rfl
      · rw [onward]
        exact ih after (Nat.le_of_succ_le_succ enough)

end LinkedList

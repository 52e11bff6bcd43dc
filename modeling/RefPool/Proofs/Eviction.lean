import RefPool.Lib.Sequence
import RefPool.Proofs.Recency
import RefPool.Proofs.Threads

/-! Eviction by walking the idle list picks what a scan of all live entries would pick. -/

namespace RefPool

variable {κ τ : Type} [DecidableEq κ]

namespace State

/-! ### What a scan would pick -/

/-- The idle list holds exactly the live entries that nobody holds. -/
def ListsExactly (s : State κ τ) : Prop :=
  ∀ (e : Nat) entry, s.heap[e]? = some entry →
    (e ∈ s.idle ↔ s.entries.get? entry.key = some e ∧ entry.refCount = 0)

/-- Whether the idle list is exact can be checked. -/
instance (s : State κ τ) : Decidable s.ListsExactly :=
  inferInstanceAs (Decidable (∀ (e : Nat) entry, s.heap[e]? = some entry →
    (e ∈ s.idle ↔ s.entries.get? entry.key = some e ∧ entry.refCount = 0)))

/-- The live entries that a scan finds unheld, with no acquire of their key in flight. -/
def evictable (s : State κ τ) : List EntryId :=
  s.entries.values.filter fun e => s.toStore.unheld e && !s.nodePending e

/-- The evictable entries that a scan finds released at the latest a time to live ago. -/
def expired (s : State κ τ) (ttl : Int) : List EntryId :=
  s.evictable.filter fun e => s.toStore.releasedAt e ≤ s.now - ttl

variable {options : PoolOptions} {s next : State κ τ} {e : EntryId} {entry : Entry κ τ}

/-- Where the list is exact, it holds what is evictable. -/
theorem mem_evictable (wf : s.toStore.WellFormed) (exactly : s.ListsExactly) :
    e ∈ s.evictable ↔ e ∈ s.idle ∧ s.nodePending e = false := by
  rw [evictable, List.mem_filter, OrderedMap.mem_values, Bool.and_eq_true, Bool.not_eq_true',
    ← and_assoc]
  -- The exact list holds just the live entries that nobody holds.
  refine and_congr_left fun _ => ⟨?_, fun inside => ?_⟩
  · rintro ⟨⟨key, bound⟩, unheld⟩
    obtain ⟨entry, found, promised⟩ := wf.live key e bound
    simp only [Store.unheld, found, Option.any_some, decide_eq_true_eq] at unheld
    exact (exactly e entry found).mpr ⟨promised.key ▸ bound, unheld⟩
  · obtain ⟨entry, found, -⟩ := wf.listed e inside
    obtain ⟨bound, unheld⟩ := (exactly e entry found).mp inside
    exact ⟨⟨entry.key, bound⟩, by simp [Store.unheld, found, unheld]⟩

/-! ### What eviction does -/

/-- One entry leaves the list and the live map, and nothing else changes. -/
structure Detaches (s : State κ τ) (e : EntryId) (next : State κ τ) : Prop where
  others : Store.OnlyEntry e s.toStore next.toStore
  idle : next.idle = s.idle.erase e
  gone : ∀ key, next.entries.get? key ≠ some e
  rest : next = { s with toStore := next.toStore }

/-- Some entries leave the list and the live map for their disposal, and the others stay. -/
structure Sweeps (s : State κ τ) (swept : List EntryId) (next : State κ τ) : Prop where
  idle : next.idle = s.idle.filter (· ∉ swept)
  entries : ∀ key e, next.entries.get? key = some e ↔ s.entries.get? key = some e ∧ e ∉ swept
  heap : ∀ e ∉ swept, next.heap[e]? = s.heap[e]?
  orphans : next.orphans = s.orphans
  disposals : next.disposeCalls = s.disposeCalls ++ swept.filterMap fun e =>
    (s.heap[e]?).map fun entry => (entry.resource, entry.key)
  counted : next.counters.evicted = s.counters.evicted + swept.length

/-- Unlinking a live entry that is listed detaches it. -/
theorem detaches_unlink (wf : s.toStore.WellFormed) (found : s.heap[e]? = some entry)
    (bound : s.entries.get? entry.key = some e) (inside : e ∈ s.idle) :
    s.Detaches e { s with toStore := s.toStore.unlink e } where
  -- The unlinked entry is the only one that moves, and its binding goes with it.
  others := (Store.OnlyEntry.idleRemove s.toStore e).trans
    (.deleteKey (Store.idleRemove_found found) (by simpa using bound))
  idle := by
    obtain ⟨record, present, raised⟩ := wf.listed e inside
    show (s.toStore.unlink e).idle = s.idle.erase e
    rw [Store.unlink_idle, Store.idleRemove_idle present raised]
  gone := wf.unlink_unbound found
  rest := rfl

/-- Nothing leaves where nothing is evicted. -/
theorem Sweeps.refl (s : State κ τ) : s.Sweeps [] s := by
  -- There is nothing to take out.
  constructor <;> simp

/-- What is evicted first and what is evicted then has left in the end. -/
theorem Sweeps.trans {middle : State κ τ} {swept more : List EntryId}
    (first : s.Sweeps swept middle) (second : middle.Sweeps more next)
    (apart : ∀ e ∈ more, e ∉ swept) : s.Sweeps (swept ++ more) next where
  idle := by
    rw [second.idle, first.idle, List.filter_filter]
    refine List.filter_congr fun e _ => ?_
    simp [Bool.and_comm]
  entries := by
    intro key e
    rw [second.entries, first.entries, and_assoc, ← not_or, ← List.mem_append]
  heap := by
    intro e left
    rw [List.mem_append, not_or] at left
    rw [second.heap e left.2, first.heap e left.1]
  orphans := second.orphans.trans first.orphans
  disposals := by
    -- What is evicted then is read as it was before anything was evicted.
    rw [second.disposals, first.disposals, List.append_assoc, List.filterMap_append]
    congr 2
    exact List.filterMap_congr fun e inside => by rw [first.heap e (apart e inside)]
  counted := by
    rw [second.counted, first.counted, List.length_append, Nat.add_assoc]

/-- A live entry that is evicted leaves, and starts to be disposed of. -/
theorem sweeps_sweepOut (wf : s.toStore.WellFormed) (found : s.heap[e]? = some entry)
    (bound : s.entries.get? entry.key = some e) : s.Sweeps [e] (s.sweepOut e) where
  idle := by
    show ((s.toStore.unlink e).beginDispose e).idle = _
    rw [Store.beginDispose_idle, Store.unlink_idle]
    have others := Store.idleRemove_filter s.toStore e
    have gone : (s.toStore.idleRemove e).idle.filter (· ≠ e) = (s.toStore.idleRemove e).idle :=
      List.filter_eq_self.mpr fun other inside => by simpa using (wf.mem_idleRemove.mp inside).1
    rw [← gone, others]
    simp
  entries := by
    intro key other
    show ((s.toStore.unlink e).beginDispose e).entries.get? key = some other ↔ _
    by_cases same : other = e
    · subst same
      simpa using wf.unlink_unbound found key
    · rw [(Store.OnlyEntry.evict found bound).entries key other same]
      simp [same]
  heap := fun other left => sweepOut_other (by simpa using left)
  orphans := by
    show ((s.toStore.unlink e).beginDispose e).orphans = s.orphans
    simp
  disposals := by
    -- The entry is live, so that its disposal has not begun.
    have promised := wf.live_at bound found
    have undisposed := (wf.sound e entry found).undisposed promised.undisposed
    have starts := Store.toDispose_fresh (Store.unlink_found s.toStore e found) undisposed
      promised.undisposed
    show s.disposeCalls ++ ((s.toStore.unlink e).toDispose e).toList.map _ = _
    rw [starts]
    simp [found]
  counted := rfl

/-- Evicting live entries one after the other has them all leave. -/
theorem sweeps_foldl {nodes : List EntryId} (wf : s.toStore.WellFormed) (once : nodes.Nodup)
    (live : ∀ node ∈ nodes, ∃ entry, s.heap[node]? = some entry ∧
      s.entries.get? entry.key = some node ∧ entry.refCount = 0) :
    s.Sweeps nodes (nodes.foldl sweepOut s) := by
  induction nodes generalizing s with
  | nil => exact .refl s
  | cons node rest ih =>
    obtain ⟨absent, once⟩ := List.nodup_cons.mp once
    obtain ⟨entry, found, bound, unheld⟩ := live node List.mem_cons_self
    have first := sweeps_sweepOut wf found bound
    have apart (other : EntryId) (inside : other ∈ rest) : other ∉ [node] := fun same =>
      absent (List.mem_singleton.mp same ▸ inside)
    -- The entries still to come are live as before.
    have later := ih (s := s.sweepOut node) (wf.evict found unheld) once fun other inside => by
      obtain ⟨record, present, bound', unheld'⟩ := live other (List.mem_cons_of_mem _ inside)
      exact ⟨record, (first.heap other (apart other inside)).trans present,
        (first.entries _ other).mpr ⟨bound', apart other inside⟩, unheld'⟩
    exact first.trans later apart

end State

/-! ### Pools with their links -/

/-- When an entry came to be unheld: the instant, and the step in which it did. -/
structure Recency where
  instant : Int
  step : Nat

namespace Recency

/-- The earlier instant comes first, and in one instant the earlier step. -/
instance : Preorder Recency where
  le r later := r.instant < later.instant ∨ r.instant = later.instant ∧ r.step ≤ later.step
  lt r later := r.instant < later.instant ∨ r.instant = later.instant ∧ r.step < later.step
  le_refl r := .inr ⟨rfl, Nat.le_refl r.step⟩
  le_trans r middle later before after := by omega
  lt_iff_le_not_ge r later := by omega

/-- What the order of release says. -/
theorem lt_iff {r later : Recency} :
    r < later ↔ r.instant < later.instant ∨ r.instant = later.instant ∧ r.step < later.step :=
  -- This is the order by definition.
  Iff.rfl

/-- Which of two releases came first can be checked. -/
instance : DecidableLT Recency := fun _ _ => decidable_of_iff _ lt_iff.symm

end Recency

/-- A pool with the links of its entries, and the order in which they came to be unheld. -/
structure Threaded (κ τ : Type) where
  pool : State κ τ
  links : LinkedList EntryId
  /-- The step in which an entry last came to be held by nobody. -/
  freed : EntryId → Nat
  steps : Nat

namespace Threaded

open State

variable {options : PoolOptions} {t next : Threaded κ τ} {action : Action κ τ}

omit [DecidableEq κ] in
/-- A new pool has an empty list. -/
def init (options : PoolOptions) : Threaded κ τ := ⟨.init options, .empty, fun _ => 0, 0⟩

/-- What is noted of an entry at a step: the step itself where it came to be unheld. -/
def note (t : Threaded κ τ) (next : State κ τ) (e : EntryId) : Nat :=
  if next.unheld e && !t.pool.unheld e then t.steps else t.freed e

/-- A step of the pool with what it does to the links, and a note of what came to be unheld. -/
def observe (options : PoolOptions) (t : Threaded κ τ) (action : Action κ τ) :
    Option (Threaded κ τ) :=
  (t.pool.step options action).map fun next =>
    { pool := next
      links := t.pool.relink options t.links action
      freed := t.note next
      steps := t.steps + 1 }

/-- The clock does not run backwards. -/
def Forward (t : Threaded κ τ) : Action κ τ → Prop
  | .clock now => t.pool.now ≤ now
  | _ => True

/-- Whether the clock runs forward can be checked. -/
instance (t : Threaded κ τ) (action : Action κ τ) : Decidable (t.Forward action) := by
  induction action using Action.casesOn <;> unfold Forward <;> infer_instance

/-- When an entry was released, and in the same instant, in which step. -/
def recency (t : Threaded κ τ) (e : EntryId) : Recency := ⟨t.pool.releasedAt e, t.freed e⟩

/-- What a full scan picks: the least recently released of the evictable entries. -/
def scanLru (t : Threaded κ τ) : Option EntryId := t.pool.evictable.argmin t.recency

/-- The links spell the list, which is in the order of release. -/
structure Recent (t : Threaded κ τ) : Prop where
  marked : Marked t.pool
  threads : Threads t.links t.pool.toStore
  sorted : t.pool.idle.Pairwise fun a b =>
    t.pool.releasedAt a ≤ t.pool.releasedAt b ∧ t.freed a < t.freed b
  past : ∀ e ∈ t.pool.idle, t.pool.releasedAt e ≤ t.pool.now ∧ t.freed e < t.steps

/-- A new pool has nothing listed. -/
theorem recent_init (options : PoolOptions) : Recent (init options : Threaded κ τ) where
  -- There is no entry that could be listed.
  marked := marked_init options
  threads := Threads.empty
  sorted := .nil
  past := by simp [init, State.init, Store.empty]

/-- A step forward in time keeps the list in the order of release. -/
theorem Recent.observe (recent : Recent t) (forward : t.Forward action)
    (observed : t.observe options action = some next) : Recent next := by
  obtain ⟨pool, stepped, rfl⟩ := Option.map_eq_some_iff.mp observed
  have core := recent.marked.core
  have effect := step_effect stepped
  have relists := effect.relists core
  have later : t.pool.now ≤ pool.now := by
    by_cases passing : ∃ now, action = .clock now
    · obtain ⟨now, rfl⟩ := passing
      rw [← Option.some.inj stepped]
      exact forward
    · exact (effect.now core fun now same => passing ⟨now, same⟩).ge
  obtain ⟨fresh, sublist, joined⟩ := relists.idle
  -- A listed entry was unheld already, and a fresh one was not.
  have stays (e : EntryId) (inside : e ∈ t.pool.idle) :
      pool.releasedAt e = t.pool.releasedAt e ∧ t.note pool e = t.freed e := by
    obtain ⟨entry, found, -⟩ := core.store.listed e inside
    have unheld : t.pool.unheld e = true := by
      simp [Store.unheld, found, core.store.unheld_of_listed inside found]
    exact ⟨relists.stamps e inside, by simp [note, unheld]⟩
  have joins (e : EntryId) (new : e ∈ fresh.toList) :
      pool.releasedAt e = t.pool.now ∧ t.note pool e = t.steps := by
    obtain ⟨held, unheld, stamp⟩ := joined e (Option.mem_toList.mp new)
    exact ⟨stamp, by simp [note, held, unheld]⟩
  -- So the list with the fresh entry at its end is in order.
  have whole : (t.pool.idle ++ fresh.toList).Pairwise fun a b =>
      pool.releasedAt a ≤ pool.releasedAt b ∧ t.note pool a < t.note pool b := by
    refine List.pairwise_append.mpr ⟨recent.sorted.imp_of_mem fun left right sorted => ?_,
      by cases fresh <;> simp, fun a inside b new => ?_⟩
    · rw [(stays _ left).1, (stays _ left).2, (stays _ right).1, (stays _ right).2]
      exact sorted
    · rw [(stays a inside).1, (stays a inside).2, (joins b new).1, (joins b new).2]
      exact recent.past a inside
  exact
    { marked := recent.marked.step stepped
      threads := threads_step recent.marked recent.threads stepped
      sorted := whole.sublist sublist
      past := by
        intro e inside
        show pool.releasedAt e ≤ pool.now ∧ t.note pool e < t.steps + 1
        rcases List.mem_append.mp (sublist.subset inside) with before | new
        · rw [(stays e before).1, (stays e before).2]
          have past := recent.past e before
          exact ⟨past.1.trans later, Nat.lt_succ_of_lt past.2⟩
        · rw [(joins e new).1, (joins e new).2]
          exact ⟨later, Nat.lt_succ_self _⟩ }

/-! ### The walks and the scan -/

/-- In a sorted list the recency of the entries increases. -/
theorem Recent.increasing (recent : Recent t) :
    t.pool.idle.Pairwise fun a b => t.recency a < t.recency b :=
  -- Entries released in one instant were released in different steps.
  recent.sorted.imp fun ⟨stamps, steps⟩ => by
    rw [Recency.lt_iff]
    rcases stamps.lt_or_eq with less | same
    · exact .inl less
    · exact .inr ⟨same, steps⟩

/-- The first node that the walk does not pass over is what a scan would pick. -/
theorem Recent.scanLru_eq (recent : Recent t) (exactly : t.pool.ListsExactly) :
    t.pool.idle.find? (fun node => !t.pool.nodePending node) = t.scanLru :=
  -- The walk takes the list in its order, in which recency increases.
  Sequence.find?_eq_argmin recent.increasing fun e => by
    rw [mem_evictable recent.marked.core.store exactly, Bool.not_eq_true']

/-- The nodes that a sweep evicts are the expired ones, wherever they stand. -/
theorem Recent.overdue_eq (recent : Recent t) (exactly : t.pool.ListsExactly) (ttl : Int)
    (e : EntryId) :
    e ∈ t.pool.overdue (t.pool.now - ttl) t.pool.idle ↔ e ∈ t.pool.expired ttl := by
  have wf := recent.marked.core.store
  -- A node with an old stamp has only nodes with old stamps in front of it.
  have sorted : t.pool.idle.Pairwise fun a b =>
      ((t.pool.heap[b]?).any fun entry => entry.lastReleasedAt ≤ t.pool.now - ttl) = true →
        ((t.pool.heap[a]?).any fun entry => entry.lastReleasedAt ≤ t.pool.now - ttl) = true := by
    refine recent.sorted.imp_of_mem fun left right sorted old => ?_
    obtain ⟨record, found, -⟩ := wf.listed _ left
    obtain ⟨record', found', -⟩ := wf.listed _ right
    have stamps := sorted.1
    simp only [Store.releasedAt, found, found', Option.elim_some] at stamps
    simp only [found, found', Option.any_some, decide_eq_true_eq] at old ⊢
    omega
  rw [overdue, Sequence.takeWhile_eq_filter sorted, expired, List.mem_filter, List.mem_filter,
    List.mem_filter, mem_evictable wf exactly, Bool.not_eq_true', and_right_comm]
  refine and_congr_right fun idle => ?_
  obtain ⟨entry, found, -⟩ := wf.listed e idle.1
  simp [Store.releasedAt, found]

/-- What eviction does in a state whose idle list is exact, through the links and the list alike. -/
structure ScansExactly (options : PoolOptions) (t : Threaded κ τ) : Prop where
  /-- Where a scan picks nothing, neither does the walk. -/
  nothing : t.scanLru = none →
    t.pool.takeLruIdle = none ∧ t.pool.takeLruIdleLinks t.links = (none, t.links)
  /-- Where a scan picks an entry, the walk detaches that one and no other. -/
  victim : ∀ e, t.scanLru = some e → ∃ next links,
    t.pool.takeLruIdle = some (e, next) ∧ t.pool.takeLruIdleLinks t.links = (some e, links) ∧
      t.pool.Detaches e next ∧ links.Spells next.idle
  /-- A sweep evicts the expired entries, each once, and leaves the others in order. -/
  swept : ∀ ttl, options.idleTtlMs = some ttl → ttl ≠ 0 → ∃ swept links,
    t.pool.sweepLinks options t.links = (swept, links) ∧ swept.Nodup ∧
      (∀ e, e ∈ swept ↔ e ∈ t.pool.expired ttl) ∧
      t.pool.Sweeps swept (t.pool.sweep options) ∧ links.Spells (t.pool.sweep options).idle

/-- The entry that a scan picks is the one that the walk detaches. -/
theorem Recent.takeLruIdle_eq_some (recent : Recent t) (exactly : t.pool.ListsExactly) {e : EntryId}
    (picked : t.scanLru = some e) : ∃ next links,
    t.pool.takeLruIdle = some (e, next) ∧ t.pool.takeLruIdleLinks t.links = (some e, links) ∧
      t.pool.Detaches e next ∧ links.Spells next.idle := by
  have wf := recent.marked.core.store
  -- The scan for the oldest entry and the walk along the list come to the same one.
  have first := (recent.scanLru_eq exactly).trans picked
  have inside := List.mem_of_find?_eq_some first
  obtain ⟨entry, found, -⟩ := wf.listed e inside
  have detaches := detaches_unlink wf found ((exactly e entry found).mp inside).1 inside
  refine ⟨{ t.pool with toStore := t.pool.toStore.unlink e }, t.links.remove e, ?_, ?_,
    detaches, ?_⟩
  · rw [takeLruIdle, first]
    rfl
  · rw [takeLruIdleLinks_eq wf recent.threads, first]
    rfl
  · rw [detaches.idle]
    exact recent.threads.spells.remove inside

/-- Where a scan picks nothing, the walk passes over every node. -/
theorem Recent.takeLruIdle_eq_none (recent : Recent t) (exactly : t.pool.ListsExactly)
    (picked : t.scanLru = none) :
    t.pool.takeLruIdle = none ∧ t.pool.takeLruIdleLinks t.links = (none, t.links) := by
  -- Both walks end without a find, since there is none.
  have nothing := (recent.scanLru_eq exactly).trans picked
  rw [takeLruIdleLinks_eq recent.marked.core.store recent.threads, takeLruIdle, nothing]
  exact ⟨rfl, rfl⟩

/-- A sweep has the overdue entries leave, and announces it where there were any. -/
theorem Recent.sweeps (recent : Recent t) (exactly : t.pool.ListsExactly) {ttl : Int}
    (limit : options.idleTtlMs = some ttl) (on : ttl ≠ 0) :
    t.pool.Sweeps (t.pool.overdue (t.pool.now - ttl) t.pool.idle) (t.pool.sweep options) := by
  -- The overdue entries are detached one after the other.
  have wf := recent.marked.core.store
  have overdue := t.pool.overdue_sublist (t.pool.now - ttl) t.pool.idle
  have swept := sweeps_foldl wf (overdue.nodup wf.once) fun node inside => by
    obtain ⟨entry, found, -⟩ := wf.listed node (overdue.subset inside)
    exact ⟨entry, found, (exactly node entry found).mp (overdue.subset inside)⟩
  rw [sweep_eq wf limit on]
  split
  · exact ⟨swept.idle, swept.entries, swept.heap, swept.orphans, swept.disposals, swept.counted⟩
  · exact swept

/-- In every run under a clock that runs forward, the walks do what a scan would do. -/
theorem scansExactly_throughout (options : PoolOptions) (actions : List (Action κ τ))
    (forward : Runs.Guarded (observe options) Forward (init options) actions) :
    Runs.Throughout (observe options)
      (fun t => t.links.Spells t.pool.idle ∧
        (t.pool.ListsExactly → t.ScansExactly options)) (init options) actions := by
  -- Recency is an invariant under such a clock, and each clause is read off it.
  have kept := forward.throughout Recent
    (fun t action next recent forward observed => recent.observe forward observed)
    (recent_init options)
  refine kept.mono fun t recent => ⟨recent.threads.spells, fun exactly =>
    ⟨recent.takeLruIdle_eq_none exactly, fun e => recent.takeLruIdle_eq_some exactly,
      fun ttl limit on => ?_⟩⟩
  have wf := recent.marked.core.store
  have swept : Threads (t.pool.sweepLinks options t.links).2 (t.pool.sweep options).toStore :=
    threads_sweep wf recent.threads
  have overdue := t.pool.overdue_sublist (t.pool.now - ttl) t.pool.idle
  rw [sweepLinks_eq wf recent.threads limit on] at swept
  exact ⟨_, _, sweepLinks_eq wf recent.threads limit on, overdue.nodup wf.once,
    recent.overdue_eq exactly ttl, recent.sweeps exactly limit on, swept.spells⟩

/-- Of two entries released in the same instant the first is wanted again, and passed over. -/
theorem scansExactly_throughout_wanted :
    let options : PoolOptions := { max := 2, idleTtlMs := some 10 }
    let create (a : AcquireId) (key : Nat) : List (Action Nat Nat) :=
      [.acquire key, .obtain a, .create a .threw, .factoryCalled a, .factorySettled a (some key),
        .execSettled a (some key), .deliver a]
    let actions : List (Action Nat Nat) :=
      create 0 7 ++ create 1 8 ++
        [.clock 5, .releaseHandle 1, .releaseHandle 0, .acquire 8, .clock 15]
    Runs.Throughout (observe options)
      (fun t => t.links.Spells t.pool.idle ∧ (t.pool.ListsExactly → t.ScansExactly options))
      (init options) actions ∧
    (Runs.run (observe options) (init options) actions).map (fun t =>
      (decide t.pool.ListsExactly, t.pool.idle, t.scanLru,
        (t.pool.takeLruIdleLinks t.links).1, (t.pool.sweepLinks options t.links).1)) =
      some (true, [1, 0], some 0, some 0, [0]) :=
  -- The entry of 8 is first in the list, and its key is marked by the third acquire.
  ⟨scansExactly_throughout _ _ (by decide), by decide⟩

end Threaded

end RefPool

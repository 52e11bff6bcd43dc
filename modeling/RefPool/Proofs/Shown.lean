import RefPool.Lib.Lru
import RefPool.Lib.Sequence
import RefPool.Proofs.IdleList
import RefPool.Proofs.Undrained

/-! A pool read as a cache: its idle keys in their order, and its references by key. -/

namespace RefPool

variable {κ τ : Type}

namespace Store

/-- The key of an entry. -/
def keyOf (store : Store κ τ) (e : EntryId) : Option κ := (store.heap[e]?).map Entry.key

/-- The keys of the idle list, the one released longest ago first. -/
def idleKeys (store : Store κ τ) : List κ := store.idle.filterMap store.keyOf

variable [DecidableEq κ]

/-- How many references of a key are out. -/
def references (store : Store κ τ) (key : κ) : Nat :=
  ((store.entries.get? key).bind fun e => store.heap[e]?).elim 0 Entry.refCount

variable {store next : Store κ τ} {e : EntryId} {entry : Entry κ τ} {key : κ}

omit [DecidableEq κ] in
/-- Reassigning fields other than the key keeps the keys of all entries. -/
theorem keyOf_modify {assign : Entry κ τ → Entry κ τ}
    (heap : next.heap = store.heap.modify e assign)
    (same : ∀ record, (assign record).key = record.key) : next.keyOf = store.keyOf := by
  -- The key of the entry is carried over, and other entries are left alone.
  funext other
  simp only [keyOf, heap]
  by_cases here : e = other
  · subst here
    cases found : store.heap[e]? <;> simp [found, same]
  · rw [Arena.getElem?_modify_other _ _ here]

omit [DecidableEq κ] in
/-- The idle keys are read off the idle list and the keys of the entries. -/
theorem idleKeys_of_keyOf (same : next.keyOf = store.keyOf) :
    next.idleKeys = next.idle.filterMap store.keyOf := by
  -- Equal keys are read off equal lists.
  rw [idleKeys, same]

/-- The references of a live key are those of its entry. -/
theorem references_bound (bound : store.entries.get? key = some e)
    (found : store.heap[e]? = some entry) : store.references key = entry.refCount := by
  -- The key is bound to that entry.
  simp [references, bound, found]

/-- Nobody holds a key that is not live. -/
theorem references_unbound (absent : store.entries.get? key = none) : store.references key = 0 := by
  -- Without a binding no entry is read.
  simp [references, absent]

/-- Reassigning fields other than the count keeps the references of every key. -/
theorem references_modify {assign : Entry κ τ → Entry κ τ}
    (heap : next.heap = store.heap.modify e assign) (entries : next.entries = store.entries)
    (same : ∀ record, (assign record).refCount = record.refCount) (key : κ) :
    next.references key = store.references key := by
  simp only [references, entries, heap]
  -- The key is bound to the entry that was written, to another one, or to none.
  cases bound : store.entries.get? key with
  | none => rfl
  | some other =>
    by_cases here : e = other
    · subst here
      cases found : store.heap[e]? <;> simp [found, same]
    · simp [here]

/-- An operation on one entry leaves the references of the other keys alone. -/
theorem OnlyEntry.references (only : OnlyEntry e store next) {other : κ}
    (before : store.entries.get? other ≠ some e) (after : next.entries.get? other ≠ some e) :
    next.references other = store.references other := by
  -- The key is bound to the same entry as before, which is not the one touched.
  have same : next.entries.get? other = store.entries.get? other := by
    apply Option.ext
    intro third
    by_cases here : third = e
    · subst here
      simp [before, after]
    · exact only.entries other third here
  simp only [Store.references, same]
  cases bound : store.entries.get? other with
  | none => rfl
  | some third =>
    have differ : third ≠ e := fun here => before (here ▸ bound)
    simp [only.heap third differ]

/-- A key is idle when its live entry is. -/
theorem mem_idleKeys (accurate : store.Exact) :
    key ∈ store.idleKeys ↔ ∃ e entry, store.entries.get? key = some e ∧
      store.heap[e]? = some entry ∧ e ∈ store.idle ∧ entry.key = key := by
  unfold idleKeys keyOf
  simp only [List.mem_filterMap, Option.map_eq_some_iff]
  -- A listed entry is bound to its key, which is what an accurate store promises.
  constructor
  · rintro ⟨e, listed, entry, found, rfl⟩
    exact ⟨e, entry, accurate.bound_of_listed found listed, found, listed, rfl⟩
  · rintro ⟨e, entry, -, found, listed, same⟩
    exact ⟨e, listed, entry, found, same⟩

/-- A key is idle exactly when it is live and nobody holds it. -/
theorem mem_idleKeys_iff (accurate : store.Exact) (wf : store.WellFormed) :
    key ∈ store.idleKeys ↔
      (store.entries.get? key).isSome = true ∧ store.references key = 0 := by
  rw [mem_idleKeys accurate]
  -- The idle entries are the live ones that nobody holds.
  constructor
  · rintro ⟨e, entry, bound, found, listed, -⟩
    exact ⟨by simp [bound], by
      rw [references_bound bound found, wf.unheld_of_listed listed found]⟩
  · rintro ⟨live, unheld⟩
    obtain ⟨e, bound⟩ := Option.isSome_iff_exists.mp live
    obtain ⟨entry, found, promised⟩ := wf.live key e bound
    rw [references_bound bound found] at unheld
    have listed := (accurate.each e entry found).listed.mpr ⟨promised.key.symm ▸ bound, unheld⟩
    exact ⟨e, entry, bound, found, listed, promised.key⟩

/-- Two listed entries of one key are one entry. -/
theorem listed_of_key (accurate : store.Exact) {other : EntryId} (listed : e ∈ store.idle)
    (listed' : other ∈ store.idle) (read : store.keyOf e = some key)
    (read' : store.keyOf other = some key) : e = other := by
  -- Both would be bound to their key.
  obtain ⟨entry, found, rfl⟩ := Option.map_eq_some_iff.mp read
  obtain ⟨record, found', same⟩ := Option.map_eq_some_iff.mp read'
  have bound := accurate.bound_of_listed found listed
  have bound' := accurate.bound_of_listed found' listed'
  rw [same, bound, Option.some.injEq] at bound'
  exact bound'

/-- No key is idle twice. -/
theorem nodup_idleKeys (accurate : store.Exact) (wf : store.WellFormed) :
    store.idleKeys.Nodup := by
  -- Two nodes of one key would be one node.
  rw [idleKeys, List.Nodup, List.pairwise_filterMap]
  refine List.Pairwise.imp_of_mem (fun listed listed' differ key read other read' same => ?_)
    wf.once
  subst same
  exact differ (listed_of_key accurate listed listed' read read')

/-- Unlisting an entry takes its key off the idle keys. -/
theorem idleKeys_erase (accurate : store.Exact) (found : store.heap[e]? = some entry)
    (listed : e ∈ store.idle) (same : next.keyOf = store.keyOf)
    (idle : next.idle = store.idle.erase e) :
    next.idleKeys = store.idleKeys.erase entry.key := by
  -- Only the entry itself has that key among those listed.
  have read : store.keyOf e = some entry.key := by simp [keyOf, found]
  rw [idleKeys_of_keyOf same, idle, idleKeys]
  exact Sequence.filterMap_erase read fun other listed' read' =>
    (listed_of_key accurate listed listed' read read').symm

/-- Unlinking a listed entry takes its node out. -/
theorem idleRemove_listed (wf : store.WellFormed) (found : store.heap[e]? = some entry)
    (listed : e ∈ store.idle) : (store.idleRemove e).idle = store.idle.erase e := by
  -- What is listed is flagged.
  obtain ⟨record, present, flagged⟩ := wf.listed e listed
  cases found.symm.trans present
  exact idleRemove_idle found flagged

/-- A live entry that nobody holds is listed. -/
theorem listed_of_unheld (accurate : store.Exact) (found : store.heap[e]? = some entry)
    (bound : store.entries.get? entry.key = some e) (unheld : entry.refCount = 0) :
    e ∈ store.idle :=
  -- Exactness says so of every entry.
  (accurate.each e entry found).listed.mpr ⟨bound, unheld⟩

/-- Another key than the one of a live entry is bound to another entry. -/
theorem unbound_of_differ (wf : store.WellFormed) (found : store.heap[e]? = some entry)
    {other : κ} (differ : other ≠ entry.key) : store.entries.get? other ≠ some e :=
  -- A live entry is bound under its own key.
  fun bound => differ (wf.live_at bound found).key.symm

/-! ### What each operation does to the keys -/

section Operations

variable (wf : store.WellFormed) (found : store.heap[e]? = some entry)
  (bound : store.entries.get? entry.key = some e)

include wf found bound

/-- Taking a reference takes the key of the entry off the idle keys. -/
theorem idleKeys_checkout (accurate : store.Exact) :
    (store.checkout e).idleKeys = store.idleKeys.erase entry.key := by
  have keys := keyOf_modify (checkout_heap store e) fun _ => rfl
  by_cases unheld : entry.refCount = 0
  · have listed := listed_of_unheld accurate found bound unheld
    refine idleKeys_erase accurate found listed keys ?_
    rw [(checkout_first found unheld).1, idleRemove_listed wf found listed]
  -- A held key is not idle to begin with.
  · rw [idleKeys_of_keyOf keys, (checkout_further found (Nat.pos_of_ne_zero unheld)).1,
      List.erase_of_not_mem]
    · rfl
    · rw [mem_idleKeys_iff accurate wf, references_bound bound found]
      exact fun idle => unheld idle.2

/-- Taking a reference adds one to those of its key. -/
theorem references_checkout (other : κ) : (store.checkout e).references other =
    store.references other + if entry.key = other then 1 else 0 := by
  -- The key of the entry has one reference more, and the other keys are bound elsewhere.
  by_cases same : entry.key = other
  · subst same
    have after := Arena.getElem?_modify_self (fun entry : Entry κ τ =>
      { entry with
        refCount := entry.refCount + 1
        inIdle := if entry.refCount = 0 then false else entry.inIdle }) found
    rw [← checkout_heap] at after
    rw [references_bound (by simpa using bound) after, references_bound bound found, if_pos rfl]
  · have unbound := unbound_of_differ wf found (Ne.symm same)
    rw [(OnlyEntry.checkout store e).references unbound (by simpa using unbound), if_neg same,
      Nat.add_zero]

/-- Reassigning an entry that stays live changes the references of its key to its own. -/
theorem references_update {assign : Entry κ τ → Entry κ τ} (only : OnlyEntry e store next)
    (heap : next.heap = store.heap.modify e assign) (entries : next.entries = store.entries)
    (other : κ) : next.references other =
      if entry.key = other then (assign entry).refCount else store.references other := by
  -- Only the key of the entry that was written can have other references.
  split
  · rename_i same
    subst same
    have after := Arena.getElem?_modify_self assign found
    rw [← heap] at after
    exact references_bound (entries ▸ bound) after
  · rename_i differ
    have unbound := unbound_of_differ wf found (Ne.symm differ)
    exact only.references unbound (entries ▸ unbound)

/-- An entry that leaves the live map unheld takes no reference away. -/
theorem references_leave (only : OnlyEntry e store next) (unheld : entry.refCount = 0)
    (gone : next.entries.get? entry.key = none) (other : κ)
    (unbound : other ≠ entry.key → next.entries.get? other ≠ some e) :
    next.references other = store.references other := by
  -- Its key had no references, and has none without a binding.
  by_cases same : other = entry.key
  · subst same
    rw [references_unbound gone, references_bound bound found, unheld]
  · exact only.references (unbound_of_differ wf found same) (unbound same)

end Operations

end Store

/-- The number of keys the pool may have, where it is bounded. -/
def PoolOptions.capacity (options : PoolOptions) : Option Nat :=
  if options.max ≤ 0 then none else some options.max.toNat

namespace State

variable [DecidableEq κ] {options : PoolOptions} {s next : State κ τ} {cache : Lru κ}
  {e : EntryId} {entry : Entry κ τ} {key : κ}

/-- A pool has the keys, the references and the counts of a cache. -/
structure Shows (s : State κ τ) (cache : Lru κ) : Prop where
  idle : s.idleKeys = cache.idle
  held : ∀ key, s.references key = cache.held.count key
  hits : s.counters.hits = cache.hits
  misses : s.counters.misses = cache.misses
  created : s.counters.created = cache.created
  evicted : s.counters.evicted = cache.evicted

namespace Shows

/-- A new pool shows the empty cache. -/
theorem init (options : PoolOptions) : (State.init options : State κ τ).Shows Lru.empty where
  -- Nothing is listed, held or counted.
  idle := rfl
  held := fun _ => rfl
  hits := rfl
  misses := rfl
  created := rfl
  evicted := rfl

/-- A key is idle in the cache exactly when it is live and nobody holds it. -/
theorem mem_idle (shown : s.Shows cache) (wf : s.toStore.WellFormed)
    (accurate : s.toStore.Exact) :
    key ∈ cache.idle ↔ (s.entries.get? key).isSome = true ∧ s.references key = 0 := by
  -- The cache has the keys that are listed.
  rw [← shown.idle]
  exact Store.mem_idleKeys_iff accurate wf

/-- A key is held in the cache exactly when references of it are out. -/
theorem mem_held (shown : s.Shows cache) : key ∈ cache.held ↔ 0 < s.references key := by
  -- The cache has each key as often as it is referenced.
  rw [shown.held, List.count_pos_iff]

/-- A live entry that is held is held in the cache under its key. -/
theorem mem_held_of (shown : s.Shows cache) (bound : s.entries.get? key = some e)
    (found : s.heap[e]? = some entry) : key ∈ cache.held ↔ 0 < entry.refCount := by
  -- The references of the key are those of the entry.
  rw [shown.mem_held, Store.references_bound bound found]

/-- A live entry that nobody holds is idle in the cache under its key. -/
theorem mem_idle_of (shown : s.Shows cache) (wf : s.toStore.WellFormed)
    (accurate : s.toStore.Exact) (bound : s.entries.get? key = some e)
    (found : s.heap[e]? = some entry) : key ∈ cache.idle ↔ entry.refCount = 0 := by
  -- The references of the key are those of the entry.
  rw [shown.mem_idle wf accurate, Store.references_bound bound found]
  simp [bound]

/-- A key that is not live is in no list of the cache. -/
theorem not_mem_of_absent (shown : s.Shows cache) (wf : s.toStore.WellFormed)
    (accurate : s.toStore.Exact) (absent : s.entries.get? key = none) :
    key ∉ cache.idle ∧ key ∉ cache.held := by
  -- A key without a binding is neither listed nor referenced.
  rw [shown.mem_idle wf accurate, shown.mem_held, Store.references_unbound absent]
  simp [absent]

/-- The live keys of the pool are the keys of the cache. -/
theorem size (shown : s.Shows cache) (wf : s.toStore.WellFormed)
    (accurate : s.toStore.Exact) : s.entries.size = cache.size := by
  -- Both lists of keys are without duplicates and have the same members.
  have once : (cache.idle ++ cache.held.dedup).Nodup := by
    refine List.nodup_append.mpr ⟨shown.idle ▸ Store.nodup_idleKeys accurate wf,
      List.nodup_dedup _, fun key inside other held same => ?_⟩
    subst same
    have unheld := ((shown.mem_idle wf accurate).mp inside).2
    have taken := shown.mem_held.mp (List.mem_dedup.mp held)
    omega
  have same : s.entries.keys.Perm (cache.idle ++ cache.held.dedup) := by
    refine (List.perm_ext_iff_of_nodup s.entries.distinct once).mpr fun key => ?_
    rw [List.mem_append, List.mem_dedup, shown.mem_idle wf accurate, shown.mem_held]
    have live : key ∈ s.entries.items.map Prod.fst ↔ (s.entries.get? key).isSome = true := by
      have absent : s.entries.get? key = none ↔ key ∉ s.entries.items.map Prod.fst :=
        OrderedMap.get?_eq_none_iff
      rw [← not_iff_not, ← absent, Option.not_isSome_iff_eq_none]
    rw [live]
    constructor
    · intro bound
      by_cases unheld : s.references key = 0
      · exact .inl ⟨bound, unheld⟩
      · exact .inr (Nat.pos_of_ne_zero unheld)
    · rintro (idle | held)
      · exact idle.1
      · by_contra absent
        rw [Store.references_unbound (Option.not_isSome_iff_eq_none.mp absent)] at held
        omega
  rw [Lru.size, ← List.length_append, ← same.length_eq, OrderedMap.keys, OrderedMap.size,
    List.length_map]

/-- The cache is full exactly when the bounded pool has reached its bound. -/
theorem full_iff (shown : s.Shows cache) (wf : s.toStore.WellFormed)
    (accurate : s.toStore.Exact) :
    cache.full options.capacity = true ↔ 0 < options.max ∧ options.max ≤ s.entries.size := by
  -- A pool without a bound is never full, and the sizes agree in any case.
  rw [shown.size wf accurate, PoolOptions.capacity, Lru.full]
  by_cases bounded : options.max ≤ 0
  · simp [bounded]
  · simp only [if_neg bounded, Option.any_some, decide_eq_true_eq]
    omega

/-! ### What each operation does to the cache shown -/

/-- Counters and store as they were show what they showed. -/
theorem same (shown : s.Shows cache) (idle : next.idleKeys = s.idleKeys)
    (references : ∀ key, next.references key = s.references key)
    (hits : next.counters.hits = s.counters.hits)
    (misses : next.counters.misses = s.counters.misses)
    (created : next.counters.created = s.counters.created)
    (evicted : next.counters.evicted = s.counters.evicted) : next.Shows cache where
  -- Each view of the pool is the one that it was.
  idle := idle.trans shown.idle
  held := fun key => (references key).trans (shown.held key)
  hits := hits.trans shown.hits
  misses := misses.trans shown.misses
  created := created.trans shown.created
  evicted := evicted.trans shown.evicted

/-- A step that touches neither the store nor the counters shows what was shown. -/
theorem congr (shown : s.Shows cache) (store : next.toStore = s.toStore)
    (counters : next.counters = s.counters) : next.Shows cache :=
  -- All that is shown is read from the store and the counters.
  shown.same (by rw [store]) (fun key => by rw [store]) (by rw [counters]) (by rw [counters])
    (by rw [counters]) (by rw [counters])

/-- Checking a live entry out takes a reference of its key. -/
theorem take (shown : s.Shows cache) (wf : s.toStore.WellFormed)
    (accurate : s.toStore.Exact) (found : s.heap[e]? = some entry)
    (bound : s.entries.get? entry.key = some e) (store : next.toStore = s.toStore.checkout e)
    (counters : next.counters = s.counters) : next.Shows (cache.take entry.key) where
  -- The key leaves the idle ones, and has one more reference.
  idle := by rw [store, Store.idleKeys_checkout wf found bound accurate, shown.idle]; rfl
  held := by
    intro key
    rw [store, Store.references_checkout wf found bound, shown.held, Lru.take, List.count_cons]
    simp
  hits := counters ▸ shown.hits
  misses := counters ▸ shown.misses
  created := counters ▸ shown.created
  evicted := counters ▸ shown.evicted

/-- Evicting the first idle entry throws its key out. -/
theorem evict (shown : s.Shows cache) (wf : s.toStore.WellFormed)
    (accurate : s.toStore.Exact) {rest : List EntryId} (listed : s.idle = e :: rest)
    (store : next.toStore = (s.toStore.unlink e).beginDispose e)
    (counters : next.counters = { s.counters with evicted := s.counters.evicted + 1 }) :
    next.Shows cache.evict := by
  -- The first entry of the list is the one that the cache throws out.
  have inside : e ∈ s.idle := by simp [listed]
  obtain ⟨entry, found, -⟩ := wf.listed e inside
  have bound := accurate.bound_of_listed found inside
  have keys := Store.keyOf_modify (Store.evict_heap s.toStore e) fun _ => rfl
  have after : ((s.toStore.unlink e).beginDispose e).idleKeys = s.idleKeys.erase entry.key := by
    refine Store.idleKeys_erase accurate found inside keys ?_
    rw [Store.beginDispose_idle, Store.unlink_idle, Store.idleRemove_listed wf found inside]
  have first : s.idleKeys = entry.key :: rest.filterMap s.keyOf := by
    rw [Store.idleKeys, listed,
      List.filterMap_cons_some (show s.keyOf e = some entry.key by simp [Store.keyOf, found])]
  have idle : cache.idle = entry.key :: rest.filterMap s.keyOf := shown.idle ▸ first
  have thrown : cache.evict =
      { cache with idle := rest.filterMap s.keyOf, evicted := cache.evicted + 1 } := by
    simp only [Lru.evict, idle]
  rw [thrown]
  -- An entry that nobody holds takes no reference with it.
  refine ⟨by rw [store, after, first, List.erase_cons_head], fun key => ?_, ?_, ?_, ?_, ?_⟩
  · rw [store, Store.references_leave wf found bound (.evict found bound)
      (wf.unheld_of_listed inside found) (by rw [Store.evict_entries _ _ found]; simp) key ?_]
    · exact shown.held key
    · intro differ
      rw [Store.evict_entries _ _ found, OrderedMap.get?_delete_ne _ differ]
      exact Store.unbound_of_differ wf found differ
  · rw [counters]; exact shown.hits
  · rw [counters]; exact shown.misses
  · rw [counters]; exact shown.created
  · rw [counters]; exact congrArg (· + 1) shown.evicted

/-- Discarding an idle live entry drops its key. -/
theorem drop (shown : s.Shows cache) (wf : s.toStore.WellFormed)
    (accurate : s.toStore.Exact) (found : s.heap[e]? = some entry)
    (bound : s.entries.get? entry.key = some e) (unheld : entry.refCount = 0)
    (store : next.toStore = (s.toStore.removeEntry e).beginDispose e)
    (counters : next.counters = s.counters) : next.Shows (cache.drop entry.key) where
  -- The key leaves the idle ones, wherever it stands among them.
  idle := by
    have listed := Store.listed_of_unheld accurate found bound unheld
    have keys := Store.keyOf_modify (Store.discard_heap s.toStore e) fun _ => rfl
    rw [store, Store.idleKeys_erase accurate found listed keys, shown.idle]
    · rfl
    · rw [Store.beginDispose_idle, Store.removeEntry_idle, Store.idleRemove_listed wf found listed]
  held := by
    intro key
    have gone : ((s.toStore.removeEntry e).beginDispose e).entries.get? entry.key = none := by
      rw [Store.discard_entries _ _ found, OrderedMap.deleteBinding, if_pos bound]
      simp
    rw [store, Store.references_leave wf found bound (.discard s.toStore e) unheld gone key]
    · exact shown.held key
    · intro differ bound'
      rw [Store.discard_entries _ _ found, OrderedMap.get?_deleteBinding_eq_some] at bound'
      exact Store.unbound_of_differ wf found differ bound'.1
  hits := counters ▸ shown.hits
  misses := counters ▸ shown.misses
  created := counters ▸ shown.created
  evicted := counters ▸ shown.evicted

/-- Inserting an entry under an absent key brings the key. -/
theorem bring (shown : s.Shows cache) {resource : τ} {now : Int}
    (wf : s.toStore.WellFormed) (absent : s.entries.get? key = none)
    (store : next.toStore = s.toStore.insert key resource now)
    (counters : next.counters = { s.counters with created := s.counters.created + 1 }) :
    next.Shows (cache.bring key) where
  idle := by
    -- The older entries keep their keys, and the fresh one stands at the end.
    have older : s.idle.filterMap (s.toStore.insert key resource now).keyOf = s.idleKeys := by
      refine List.filterMap_congr fun e listed => ?_
      obtain ⟨entry, found, -⟩ := wf.listed e listed
      have below := (List.getElem?_eq_some_iff.mp found).1
      simp only [Store.keyOf, Store.insert_heap]
      rw [List.getElem?_append_left below]
    have fresh : (s.toStore.insert key resource now).keyOf s.heap.length = some key := by
      simp [Store.keyOf, Store.insert_heap]
    rw [store, Store.idleKeys, Store.insert_idle, List.filterMap_append, older,
      List.filterMap_cons_some fresh, shown.idle]
    rfl
  -- The fresh entry has no reference, and the key had none.
  held := by
    intro other
    rw [store]
    have unbound {third : κ} : s.entries.get? third ≠ some s.heap.length := fun bound => by
      obtain ⟨entry, found, -⟩ := wf.live third _ bound
      exact absurd (List.getElem?_eq_some_iff.mp found).1 (Nat.lt_irrefl _)
    by_cases same : other = key
    · subst same
      have before := shown.held other
      rw [Store.references_unbound absent] at before
      rw [Store.references_bound (Store.insert_bound s.toStore other resource now)
        (State.insert_heap_new s.toStore other resource now)]
      exact before
    · rw [(Store.OnlyEntry.insert s.toStore resource now absent).references unbound]
      · exact shown.held other
      · simp only [Store.insert, Store.idleAppend_entries, ne_eq]
        rw [OrderedMap.get?_set_ne _ _ same]
        exact unbound
  hits := by rw [counters]; exact shown.hits
  misses := by rw [counters]; exact shown.misses
  created := by rw [counters]; exact congrArg (· + 1) shown.created
  evicted := by rw [counters]; exact shown.evicted

/-- The release of a handle gives a reference of its key back. -/
theorem giveBack (shown : s.Shows cache) (wf : s.toStore.WellFormed)
    (accurate : s.toStore.Exact) (undrained : Undrained s.heap s.acquires)
    (found : s.heap[e]? = some entry) (bound : s.entries.get? entry.key = some e)
    (held : 0 < entry.refCount) (effect : ReleaseEffect s e next) :
    next.Shows (cache.giveBack entry.key) := by
  have kept := (undrained.entries entry (List.mem_of_getElem? found)).kept
  have live := wf.live_at bound found
  have unorphaned := wf.apart _ _ bound
  have inside : entry.key ∈ cache.held := (shown.mem_held_of bound found).mpr held
  have counts : cache.held.count entry.key = entry.refCount := by
    rw [← shown.held, Store.references_bound bound found]
  rw [Lru.giveBack_of_mem inside]
  -- What is left under the key decides whether the key becomes idle.
  have left : entry.key ∈ cache.held.erase entry.key ↔ 1 < entry.refCount := by
    rw [← List.count_pos_iff, List.count_erase_self, counts]
    omega
  have fewer (key : κ) : (cache.held.erase entry.key).count key =
      if entry.key = key then entry.refCount - 1 else s.references key := by
    split
    · rename_i same
      rw [← same, List.count_erase_self, counts]
    · rename_i differ
      rw [List.count_erase_of_ne (Ne.symm differ), shown.held]
  cases effect with
  | ignored spent =>
    rcases spent entry found with disposed | unheld
    · simp [(wf.sound e entry found).undisposed live.undisposed] at disposed
    · omega
  | retired record found' _ _ doomed =>
    cases found.symm.trans found'
    rcases doomed with condemned | orphaned
    · simp [kept] at condemned
    · simp [unorphaned] at orphaned
  | dropped record found' undisposed shared =>
    cases found.symm.trans found'
    have heap : (s.dropReference e).heap = s.heap.modify e fun entry =>
        { entry with refCount := entry.refCount - 1 } := rfl
    refine ⟨?_, fun key => ?_, shown.hits, shown.misses, shown.created, shown.evicted⟩
    · rw [if_pos (left.mpr shared), Store.idleKeys_of_keyOf (Store.keyOf_modify heap fun _ => rfl)]
      exact shown.idle
    · rw [fewer]
      exact Store.references_update wf found bound (.update s.toStore e _) heap rfl key
  | freed record found' undisposed last =>
    cases found.symm.trans found'
    -- The entry was held, so that the list gains it behind the others.
    have lowered := ((accurate.each e entry found).unlisted_of_held held).2
    have store := stampReleased_dropReference s e
    have assigned : (s.toStore.update e (lastDrop s.now)).heap[e]? =
        some (lastDrop s.now entry) := Arena.getElem?_modify_self _ found
    have heap := Store.free_heap s.toStore e (lastDrop s.now)
    have more : ¬entry.key ∈ cache.held.erase entry.key := by
      rw [left]
      omega
    refine ⟨?_, fun key => ?_, shown.hits, shown.misses, shown.created, shown.evicted⟩
    · show (((s.dropReference e).stampReleased e).toStore.idleAppend e).idleKeys = _
      rw [store, if_neg more, Store.idleKeys_of_keyOf (Store.keyOf_modify heap fun _ => rfl),
        Store.idleAppend_idle assigned lowered, Store.update_idle, List.filterMap_append,
        List.filterMap_cons_some (show s.keyOf e = some entry.key by simp [Store.keyOf, found])]
      exact congrArg (· ++ [entry.key]) shown.idle
    · show (((s.dropReference e).stampReleased e).toStore.idleAppend e).references key = _
      rw [store, fewer]
      exact Store.references_update wf found bound (.free s.toStore e _) heap (by simp) key

end Shows

end State

end RefPool

import Mathlib.Data.List.Dedup
import Mathlib.Data.List.Infix
import Mathlib.Data.List.Perm.Basic

/-! A cache whose held keys are pinned and that evicts the key released longest ago. -/

/-- The keys of a cache, held or not, and what its lookups have amounted to so far. -/
@[ext] structure Lru (κ : Type*) where
  /-- The keys nobody holds, the one released longest ago first. -/
  idle : List κ
  /-- The keys that are held, one occurrence for each reference. -/
  held : List κ
  hits : Nat
  misses : Nat
  created : Nat
  evicted : Nat

namespace Lru

variable {κ : Type*}

/-- What a cache is asked to do. -/
inductive Request (κ : Type*) where
  /-- A reference of a key is granted. -/
  | borrow (key : κ)
  /-- A reference of a key comes back. -/
  | giveBack (key : κ)
  /-- An idle key is thrown out. -/
  | drop (key : κ)
  /-- A lookup missed and came to nothing, perhaps after room was made for its key. -/
  | fail (granted : Bool)
  deriving DecidableEq

/-- The cache without a key. -/
def empty : Lru κ := ⟨[], [], 0, 0, 0, 0⟩

/-- Count one lookup that found its key. -/
def hit (cache : Lru κ) : Lru κ := { cache with hits := cache.hits + 1 }

/-- Count one lookup that did not find its key. -/
def miss (cache : Lru κ) : Lru κ := { cache with misses := cache.misses + 1 }

/-- Count one key loaded. -/
def fetch (cache : Lru κ) : Lru κ := { cache with created := cache.created + 1 }

/-- Throw out the key released longest ago. -/
def evict (cache : Lru κ) : Lru κ :=
  match cache.idle with
  | [] => cache
  | _ :: rest => { cache with idle := rest, evicted := cache.evicted + 1 }

/-- Load a key that nobody holds yet. -/
def bring (cache : Lru κ) (key : κ) : Lru κ := { cache.fetch with idle := cache.idle ++ [key] }

variable [DecidableEq κ]

/-- The number of keys in the cache. -/
def size (cache : Lru κ) : Nat := cache.idle.length + cache.held.dedup.length

/-- Whether one more key would exceed the bound, where there is one. -/
def full (capacity : Option Nat) (cache : Lru κ) : Bool :=
  capacity.any fun bound => bound ≤ cache.size

/-- Make room for one more key. -/
def room (capacity : Option Nat) (cache : Lru κ) : Lru κ :=
  if cache.full capacity then cache.evict else cache

/-- Take a reference of a key. -/
def take (cache : Lru κ) (key : κ) : Lru κ :=
  { cache with idle := cache.idle.erase key, held := key :: cache.held }

/-- Look a key up and take a reference of it, loading it where it is absent. -/
def borrow (capacity : Option Nat) (cache : Lru κ) (key : κ) : Lru κ :=
  if key ∈ cache.held ∨ key ∈ cache.idle then cache.hit.take key
  else (cache.room capacity).miss.fetch.take key

/-- Give a reference back: with the last one the key becomes the one released last. -/
def giveBack (cache : Lru κ) (key : κ) : Lru κ :=
  if key ∈ cache.held then
    { cache with
      idle := if key ∈ cache.held.erase key then cache.idle else cache.idle ++ [key]
      held := cache.held.erase key }
  else cache

/-- Throw an idle key out. -/
def drop (cache : Lru κ) (key : κ) : Lru κ := { cache with idle := cache.idle.erase key }

/-- Answer one request. -/
def answer (capacity : Option Nat) (cache : Lru κ) : Request κ → Lru κ
  | .borrow key => cache.borrow capacity key
  | .giveBack key => cache.giveBack key
  | .drop key => cache.drop key
  | .fail granted => if granted then (cache.room capacity).miss else cache.miss

/-- Answer requests one after the other. -/
def serve (capacity : Option Nat) (cache : Lru κ) (requests : List (Request κ)) : Lru κ :=
  requests.foldl (answer capacity) cache

/-- Whether a key is there, or can be loaded without taking another from its holders. -/
def Admits (capacity : Option Nat) (cache : Lru κ) (key : κ) : Prop :=
  key ∈ cache.idle ∨ (cache.full capacity = true → cache.idle ≠ [])

/-! ### Keys are idle or held -/

/-- No key is idle twice, or idle and held. -/
structure Sound (cache : Lru κ) : Prop where
  once : cache.idle.Nodup
  apart : ∀ key ∈ cache.idle, key ∉ cache.held

variable {capacity : Option Nat} {cache : Lru κ} {key other : κ}

omit [DecidableEq κ] in
/-- Throwing the first key out leaves the others where they are. -/
theorem evict_idle (cache : Lru κ) : cache.evict.idle = cache.idle.tail := by
  -- A cache without idle keys has no first one to lose.
  unfold evict
  split <;> simp_all

omit [DecidableEq κ] in
@[simp] theorem evict_held (cache : Lru κ) : cache.evict.held = cache.held := by
  -- Eviction is about idle keys only.
  unfold evict
  split <;> rfl

omit [DecidableEq κ] in
@[simp] theorem evict_misses (cache : Lru κ) : cache.evict.misses = cache.misses := by
  -- An eviction is counted as such, and not as a lookup.
  unfold evict
  split <;> rfl

omit [DecidableEq κ] in
@[simp] theorem evict_hits (cache : Lru κ) : cache.evict.hits = cache.hits := by
  -- An eviction is counted as such, and not as a lookup.
  unfold evict
  split <;> rfl

omit [DecidableEq κ] in
@[simp] theorem evict_created (cache : Lru κ) : cache.evict.created = cache.created := by
  -- An eviction is counted as such, and not as a load.
  unfold evict
  split <;> rfl

omit [DecidableEq κ] in
/-- Throwing a key out and counting a miss commute. -/
theorem evict_miss (cache : Lru κ) : cache.miss.evict = cache.evict.miss := by
  -- One concerns the list and its own counter, the other the counter of misses.
  cases listed : cache.idle <;> simp [evict, miss, listed]

@[simp] theorem room_held (capacity : Option Nat) (cache : Lru κ) :
    (cache.room capacity).held = cache.held := by
  -- Room is made by an eviction, if at all.
  unfold room
  split <;> simp

@[simp] theorem room_misses (capacity : Option Nat) (cache : Lru κ) :
    (cache.room capacity).misses = cache.misses := by
  -- Room is made by an eviction, if at all.
  unfold room
  split <;> simp

@[simp] theorem room_hits (capacity : Option Nat) (cache : Lru κ) :
    (cache.room capacity).hits = cache.hits := by
  -- Room is made by an eviction, if at all.
  unfold room
  split <;> simp

@[simp] theorem room_created (capacity : Option Nat) (cache : Lru κ) :
    (cache.room capacity).created = cache.created := by
  -- Room is made by an eviction, if at all.
  unfold room
  split <;> simp

/-- Making room takes at most the first idle key away. -/
theorem room_idle_suffix (capacity : Option Nat) (cache : Lru κ) :
    (cache.room capacity).idle <:+ cache.idle := by
  -- A full cache loses its first key, and any other cache loses none.
  unfold room
  split
  · rw [evict_idle]
    exact List.tail_suffix _
  · exact List.suffix_rfl

omit [DecidableEq κ] in
/-- The empty cache is sound. -/
theorem sound_empty : (empty : Lru κ).Sound :=
  -- There are no keys to clash.
  ⟨List.nodup_nil, by simp [empty]⟩

omit [DecidableEq κ] in
/-- Fewer idle keys and the same holders keep a cache sound. -/
theorem Sound.fewer (sound : cache.Sound) {next : Lru κ} (idle : next.idle.Sublist cache.idle)
    (held : next.held = cache.held) : next.Sound :=
  -- Both parts are inherited by the keys that remain.
  ⟨idle.nodup sound.once, fun key inside => held ▸ sound.apart key (idle.subset inside)⟩

/-- Taking a reference keeps a cache sound. -/
theorem Sound.take (sound : cache.Sound) (key : κ) : (cache.take key).Sound where
  -- The key leaves the idle ones as it joins the held ones.
  once := sound.once.erase key
  apart := by
    intro other inside held
    obtain ⟨differ, listed⟩ := sound.once.mem_erase_iff.mp inside
    rcases List.mem_cons.mp held with same | before
    · exact differ same
    · exact sound.apart other listed before

/-- Every request keeps a cache sound. -/
theorem Sound.answer (sound : cache.Sound) (request : Request κ) :
    (cache.answer capacity request).Sound := by
  have roomy : (cache.room capacity).Sound :=
    sound.fewer (room_idle_suffix capacity cache).sublist (room_held capacity cache)
  cases request with
  | borrow key =>
    simp only [Lru.answer, borrow]
    split
    · have counted : cache.hit.Sound := ⟨sound.once, sound.apart⟩
      exact counted.take key
    · have counted : (cache.room capacity).miss.fetch.Sound := ⟨roomy.once, roomy.apart⟩
      exact counted.take key
  | giveBack key =>
    simp only [Lru.answer, giveBack]
    split
    · rename_i held
      by_cases more : key ∈ cache.held.erase key
      · exact ⟨by simpa [more] using sound.once, by
          simpa [more] using fun other inside held =>
            sound.apart other inside (List.mem_of_mem_erase held)⟩
      -- The key was held, so that it was not idle before its last reference came back.
      · have absent : key ∉ cache.idle := fun inside => sound.apart key inside held
        refine ⟨?_, ?_⟩
        · simpa [more] using sound.once.concat absent
        · intro other inside
          simp only [more, if_false, List.mem_append, List.mem_singleton] at inside
          rcases inside with before | rfl
          · exact fun held => sound.apart other before (List.mem_of_mem_erase held)
          · exact more
    · exact sound
  | drop key => exact sound.fewer List.erase_sublist rfl
  | fail granted =>
    simp only [Lru.answer]
    split
    · exact ⟨roomy.once, roomy.apart⟩
    · exact ⟨sound.once, sound.apart⟩

/-! ### A reference that comes back while a key is looked up -/

/-- What giving back a reference of a held key amounts to. -/
theorem giveBack_of_mem (held : key ∈ cache.held) :
    cache.giveBack key =
      { cache with
        idle := if key ∈ cache.held.erase key then cache.idle else cache.idle ++ [key]
        held := cache.held.erase key } :=
  -- The key is held, which selects the branch.
  if_pos held

/-- Giving back a key that nobody holds changes nothing. -/
theorem giveBack_of_not_mem (unheld : key ∉ cache.held) : cache.giveBack key = cache :=
  -- The key is not held, which selects the branch.
  if_neg unheld

/-- Holding a key more or less often does not change how many keys are held. -/
theorem length_dedup_cons (key : κ) (held : List κ) :
    (key :: held).dedup.length = held.dedup.length + if key ∈ held then 0 else 1 := by
  -- Whether the key is new among the held ones decides.
  by_cases inside : key ∈ held <;> simp [inside]

/-- Giving one reference back moves its key at most, and keeps the number of keys. -/
theorem size_giveBack (cache : Lru κ) (key : κ) : (cache.giveBack key).size = cache.size := by
  unfold giveBack size
  -- The last reference turns a held key into an idle one, and the size stays.
  split
  · rename_i held
    have counted := length_dedup_cons key (cache.held.erase key)
    rw [(List.perm_cons_erase held).symm.dedup.length_eq] at counted
    dsimp only
    split
    · simp_all
    · simp_all
      omega
  · rfl

/-- Giving a reference back makes a cache no fuller. -/
theorem full_giveBack (capacity : Option Nat) (cache : Lru κ) (key : κ) :
    (cache.giveBack key).full capacity = cache.full capacity := by
  -- Whether a cache is full depends on its size, which stays.
  rw [full, full, size_giveBack]

/-- Giving a reference back unlists no key. -/
theorem mem_idle_giveBack (inside : other ∈ cache.idle) : other ∈ (cache.giveBack key).idle := by
  -- The key that came back is added at the end, if at all.
  unfold giveBack
  split
  · dsimp only
    split
    · exact inside
    · exact List.mem_append_left _ inside
  · exact inside

/-- Giving a reference back lists at most its key. -/
theorem mem_of_mem_idle_giveBack (inside : other ∈ (cache.giveBack key).idle) :
    other ∈ cache.idle ∨ (other = key ∧ key ∈ cache.held) := by
  unfold giveBack at inside
  -- Only the key that was given back can have become idle.
  split at inside
  · rename_i held
    dsimp only at inside
    split at inside
    · exact .inl inside
    · rcases List.mem_append.mp inside with before | last
      · exact .inl before
      · exact .inr ⟨List.mem_singleton.mp last, held⟩
  · exact .inl inside

/-- Giving a reference back takes a reference of its key at most. -/
theorem mem_of_mem_held_giveBack (inside : other ∈ (cache.giveBack key).held) :
    other ∈ cache.held := by
  -- At most one occurrence is taken out.
  unfold giveBack at inside
  split at inside
  · exact List.mem_of_mem_erase inside
  · exact inside

/-- A key that can be loaded can be loaded after another reference came back. -/
theorem Admits.giveBack (admits : cache.Admits capacity key) :
    (cache.giveBack other).Admits capacity key := by
  -- An idle key stays idle, and a first key to evict stays there as well.
  rcases admits with inside | spare
  · exact .inl (mem_idle_giveBack inside)
  · refine .inr fun full => ?_
    rw [full_giveBack] at full
    obtain ⟨first, inside⟩ := List.exists_mem_of_ne_nil _ (spare full)
    exact List.ne_nil_of_mem (mem_idle_giveBack inside)

/-- Giving back does not change what the lookups amounted to. -/
theorem giveBack_hit (cache : Lru κ) (key : κ) :
    (cache.giveBack key).hit = cache.hit.giveBack key := by
  -- Whether the key is held does not depend on the counters.
  by_cases held : key ∈ cache.held
  · rw [giveBack_of_mem held, giveBack_of_mem (show key ∈ cache.hit.held from held)]
    rfl
  · rw [giveBack_of_not_mem held, giveBack_of_not_mem (show key ∉ cache.hit.held from held)]

/-- Giving back does not change what the lookups missed. -/
theorem giveBack_miss (cache : Lru κ) (key : κ) :
    (cache.giveBack key).miss = cache.miss.giveBack key := by
  -- Whether the key is held does not depend on the counters.
  by_cases held : key ∈ cache.held
  · rw [giveBack_of_mem held, giveBack_of_mem (show key ∈ cache.miss.held from held)]
    rfl
  · rw [giveBack_of_not_mem held, giveBack_of_not_mem (show key ∉ cache.miss.held from held)]

/-- Giving back does not change what was loaded. -/
theorem giveBack_fetch (cache : Lru κ) (key : κ) :
    (cache.giveBack key).fetch = cache.fetch.giveBack key := by
  -- Whether the key is held does not depend on the counters.
  by_cases held : key ∈ cache.held
  · rw [giveBack_of_mem held, giveBack_of_mem (show key ∈ cache.fetch.held from held)]
    rfl
  · rw [giveBack_of_not_mem held, giveBack_of_not_mem (show key ∉ cache.fetch.held from held)]

/-- Making room and giving a reference back commute where there is a key to throw out. -/
theorem giveBack_room (spare : cache.full capacity = true → cache.idle ≠ []) (key : κ) :
    (cache.giveBack key).room capacity = (cache.room capacity).giveBack key := by
  unfold room
  rw [full_giveBack]
  split
  · rename_i full
    -- The first key is thrown out and the one that comes back goes to the end.
    obtain ⟨first, rest, listed⟩ := List.exists_cons_of_ne_nil (spare full)
    by_cases held : key ∈ cache.held
    · have held' : key ∈ cache.evict.held := by rwa [evict_held]
      rw [giveBack_of_mem held, giveBack_of_mem held']
      by_cases more : key ∈ cache.held.erase key
      · simp only [if_pos more, evict, listed]
      · simp only [if_neg more, evict, listed, List.cons_append]
    · have unheld : key ∉ cache.evict.held := by rwa [evict_held]
      rw [giveBack_of_not_mem held, giveBack_of_not_mem unheld]
  · rfl

/-- Taking a reference of one key and giving one of another back commute. -/
theorem giveBack_take (differ : other ≠ key) (cache : Lru κ) :
    (cache.giveBack other).take key = (cache.take key).giveBack other := by
  have others : other ∈ key :: cache.held ↔ other ∈ cache.held := by simp [differ]
  have erased : (key :: cache.held).erase other = key :: cache.held.erase other := by
    simp [Ne.symm differ]
  have last : [other].erase key = [other] := by simp [differ]
  by_cases held : other ∈ cache.held
  · have left : other ∈ key :: cache.held.erase other ↔ other ∈ cache.held.erase other := by
      simp [differ]
    by_cases more : other ∈ cache.held.erase other
    · simp [giveBack, take, held, erased, more]
    -- The key that goes to the end is not the one that is taken.
    · simp only [giveBack, take, held, more, others, erased, left, if_true, if_false]
      congr 1
      rw [List.erase_append]
      split
      · rfl
      · rename_i absent
        rw [last, List.erase_of_not_mem absent]
  · simp [giveBack, take, held, differ]

/-- Looking one key up and giving a reference of another back commute. -/
theorem giveBack_borrow (admits : cache.Admits capacity key) (differ : other ≠ key) :
    (cache.giveBack other).borrow capacity key = (cache.borrow capacity key).giveBack other := by
  have holders : key ∈ (cache.giveBack other).held ↔ key ∈ cache.held := by
    unfold giveBack
    split
    · exact List.mem_erase_of_ne (Ne.symm differ)
    · rfl
  have idlers : key ∈ (cache.giveBack other).idle ↔ key ∈ cache.idle := by
    refine ⟨fun inside => ?_, mem_idle_giveBack⟩
    exact (mem_of_mem_idle_giveBack inside).resolve_right fun same => differ same.1.symm
  unfold borrow
  simp only [holders, idlers]
  split
  · rw [giveBack_hit, giveBack_take differ]
  · rename_i absent
    -- The key is not idle, so that there is room for it, or a key to throw out.
    have spare := admits.resolve_left fun inside => absent (.inr inside)
    rw [giveBack_room spare, giveBack_miss, giveBack_fetch, giveBack_take differ]

/-- Loading an absent key and then taking it is taking it at once. -/
theorem take_bring (absent : key ∉ cache.idle) :
    (cache.bring key).take key = cache.fetch.take key := by
  -- The key stands at the end, where taking it erases it again.
  simp [bring, take, fetch, List.erase_append_right _ absent, List.erase_of_not_mem absent]

/-- Looking a key up takes one reference of it, wherever it was. -/
theorem borrow_held (capacity : Option Nat) (cache : Lru κ) (key : κ) :
    (cache.borrow capacity key).held = key :: cache.held := by
  -- Both a hit and a miss end with the reference.
  unfold borrow
  split <;> simp [take, hit, miss, fetch]

/-! ### A larger cache has whatever a smaller one has -/

/-- One bound allows at least as many keys as another. -/
def Allows : Option Nat → Option Nat → Prop
  | _, none => True
  | none, some _ => False
  | some small, some large => small ≤ large

/-- A cache that is full under one bound is full under a tighter one. -/
theorem full_of_allows {less more : Option Nat} {small large : Lru κ} (allows : Allows less more)
    (size : large.size ≤ small.size) (crowded : large.full more = true) :
    small.full less = true := by
  -- The wider bound is a number, and the tighter one is at most that number.
  cases more with
  | none => cases crowded
  | some bound =>
    cases less with
    | none => cases allows
    | some limit =>
      simp only [full, Option.any_some, decide_eq_true_eq] at crowded ⊢
      have tighter : limit ≤ bound := allows
      omega

/-- What a larger cache has beside a smaller one that served the same requests. -/
structure Within (small large : Lru κ) : Prop where
  idle : small.idle <:+ large.idle
  held : small.held = large.held
  misses : large.misses ≤ small.misses
  created : large.created ≤ small.created
  lookups : large.hits + large.misses = small.hits + small.misses

variable {small large : Lru κ} {less more : Option Nat}

/-- Making room in both caches keeps one within the other. -/
theorem Within.room (within : Within small large) (allows : Allows less more) :
    (small.room less).idle <:+ (large.room more).idle := by
  obtain ⟨ahead, split⟩ := within.idle
  unfold Lru.room
  by_cases crowded : large.full more = true
  · rw [if_pos crowded]
    cases ahead with
    -- The two lists are the same, and the smaller cache is full as well.
    | nil =>
      have same : small.size = large.size := by
        simp only [size, within.held, ← split, List.nil_append]
      have crowded' := full_of_allows allows (Nat.le_of_eq same.symm) crowded
      rw [if_pos crowded', evict_idle, evict_idle, ← split]
      exact List.suffix_rfl
    | cons first rest =>
      rw [evict_idle, ← split, List.cons_append, List.tail_cons]
      split
      · rw [evict_idle]
        exact (List.tail_suffix _).trans (List.suffix_append _ _)
      · exact List.suffix_append _ _
  · rw [if_neg crowded]
    split
    · rw [evict_idle]
      exact (List.tail_suffix _).trans within.idle
    · exact within.idle

/-- Taking a reference of a key in both caches keeps one list at the end of the other. -/
theorem suffix_erase {small large : List κ} (suffix : small <:+ large) (once : large.Nodup)
    (key : κ) : small.erase key <:+ large.erase key := by
  obtain ⟨ahead, rfl⟩ := suffix
  rw [List.erase_append]
  split
  -- The key stands ahead of the smaller list, and so not in it.
  · rename_i inside
    have absent : key ∉ small := fun there =>
      (List.nodup_append.mp once).2.2 key inside key there rfl
    rw [List.erase_of_not_mem absent]
    exact List.suffix_append _ _
  · exact List.suffix_append _ _

/-- Looking a key up in both caches keeps one within the other. -/
theorem Within.borrow (within : Within small large) (sound : large.Sound)
    (allows : Allows less more) (key : κ) :
    Within (small.borrow less key) (large.borrow more key) := by
  have roomy := within.room allows
  have once := (sound.fewer (room_idle_suffix more large).sublist (room_held more large)).once
  have counts := within.lookups
  have missed := within.misses
  have loaded := within.created
  unfold Lru.borrow
  rw [within.held]
  by_cases here : key ∈ large.held ∨ key ∈ small.idle
  -- What the smaller cache has the larger one has.
  · have there : key ∈ large.held ∨ key ∈ large.idle :=
      here.imp_right fun inside => within.idle.subset inside
    rw [if_pos here, if_pos there]
    exact ⟨suffix_erase within.idle sound.once key, by simp [take, hit, within.held], missed,
      loaded, by simp only [take, hit]; omega⟩
  · rw [if_neg here]
    split
    -- The larger cache may still have what the smaller one threw out.
    · rename_i there
      refine ⟨?_, by simp [take, hit, miss, fetch, within.held], ?_, ?_, ?_⟩
      · exact suffix_erase ((room_idle_suffix less small).trans within.idle) sound.once key
      · simp only [take, hit, miss, fetch, room_misses]
        omega
      · simp only [take, hit, miss, fetch, room_created]
        omega
      · simp only [take, hit, miss, fetch, room_hits, room_misses]
        omega
    · refine ⟨suffix_erase roomy once key, by simp [take, miss, fetch, within.held], ?_, ?_, ?_⟩
      · simp only [take, miss, fetch, room_misses]
        omega
      · simp only [take, miss, fetch, room_created]
        omega
      · simp only [take, miss, fetch, room_hits, room_misses]
        omega

/-- Giving a reference back to both caches keeps one within the other. -/
theorem Within.giveBack (within : Within small large) (key : κ) :
    Within (small.giveBack key) (large.giveBack key) := by
  obtain ⟨ahead, split⟩ := within.idle
  by_cases held : key ∈ large.held
  · have held' : key ∈ small.held := within.held ▸ held
    rw [giveBack_of_mem held, giveBack_of_mem held']
    refine ⟨?_, by simp only [within.held], within.misses, within.created, within.lookups⟩
    simp only [within.held]
    -- A key that goes to the end goes to the end of both lists.
    split
    · exact within.idle
    · exact ⟨ahead, by rw [← split, List.append_assoc]⟩
  · have unheld : key ∉ small.held := within.held ▸ held
    rw [giveBack_of_not_mem held, giveBack_of_not_mem unheld]
    exact within

/-- Every request keeps a smaller cache within a larger one. -/
theorem Within.answer (within : Within small large) (sound : large.Sound)
    (allows : Allows less more) (request : Request κ) :
    Within (small.answer less request) (large.answer more request) := by
  have counts := within.lookups
  have missed := within.misses
  -- Each request keeps the smaller cache within the larger one.
  cases request with
  | borrow key => exact within.borrow sound allows key
  | giveBack key => exact within.giveBack key
  | drop key =>
    exact ⟨suffix_erase within.idle sound.once key, within.held, missed, within.created, counts⟩
  | fail granted =>
    have loaded := within.created
    cases granted with
    | false =>
      exact ⟨within.idle, within.held, Nat.succ_le_succ missed, loaded, by
        simp only [Lru.answer, miss, Bool.false_eq_true, if_false]; omega⟩
    | true =>
      refine ⟨within.room allows, by simp [Lru.answer, miss, within.held], ?_, ?_, ?_⟩
      · simp only [Lru.answer, miss, if_true, room_misses]
        omega
      · simp only [Lru.answer, miss, if_true, room_created]
        omega
      · simp only [Lru.answer, miss, if_true, room_hits, room_misses]
        omega

/-- Serving the same requests a larger cache misses no more often and keeps no key less long. -/
theorem within_serve (allows : Allows less more) (requests : List (Request κ)) :
    Within ((empty : Lru κ).serve less requests) (empty.serve more requests) := by
  -- The induction carries that the larger cache is sound.
  have starting : ∀ (small large : Lru κ), Within small large → large.Sound →
      Within (small.serve less requests) (large.serve more requests) := by
    induction requests with
    | nil => exact fun _ _ within _ => within
    | cons request rest ih =>
      intro small large within sound
      exact ih _ _ (within.answer sound allows request) (sound.answer request)
  exact starting _ _ ⟨List.suffix_rfl, rfl, Nat.le_refl _, Nat.le_refl _, rfl⟩ sound_empty

/-! ### Keys that are taken and given back before the next one is looked up -/

/-- A key is looked up and given back. -/
def visit (key : κ) : List (Request κ) := [.borrow key, .giveBack key]

/-- The keys of a list in the order of their last occurrence, one more behind them. -/
theorem dedup_concat (keys : List κ) (key : κ) :
    (keys ++ [key]).dedup = keys.dedup.erase key ++ [key] := by
  induction keys with
  | nil => simp
  | cons first rest ih =>
    rw [List.cons_append]
    by_cases again : first ∈ rest
    · rw [List.dedup_cons_of_mem again, List.dedup_cons_of_mem (by simp [again]), ih]
    · by_cases same : first = key
      -- The key has moved to the end, and stands nowhere else.
      · subst same
        have once : first ∉ rest.dedup := by simpa using again
        rw [List.dedup_cons_of_mem (by simp), ih, List.dedup_cons_of_notMem again,
          List.erase_cons_head, List.erase_of_not_mem once]
      · rw [List.dedup_cons_of_notMem (by simp [again, same]), ih,
          List.dedup_cons_of_notMem again, List.erase_cons_tail (by simpa using same),
          List.cons_append]

/-- A visit of a cache that nobody holds a key of leaves the key as the one released last. -/
theorem serve_visit (capacity : Option Nat) (unheld : cache.held = []) (key : κ) :
    (cache.serve capacity (visit key)).held = [] ∧
      (cache.serve capacity (visit key)).idle =
        (if key ∈ cache.idle then cache.idle.erase key else (cache.room capacity).idle) ++
          [key] := by
  show ((cache.borrow capacity key).giveBack key).held = [] ∧
    ((cache.borrow capacity key).giveBack key).idle = _
  -- While the key is visited nothing else is held.
  have held : (cache.borrow capacity key).held = [key] := by rw [borrow_held, unheld]
  rw [giveBack_of_mem (by simp [held])]
  simp only [held, List.erase_cons_head, List.not_mem_nil, if_false, true_and]
  congr 1
  by_cases inside : key ∈ cache.idle
  · rw [borrow, if_pos (.inr inside), if_pos inside]
    rfl
  · rw [borrow, if_neg (by simp [unheld, inside]), if_neg inside]
    exact List.erase_of_not_mem fun left => inside ((room_idle_suffix capacity cache).subset left)

/-- What an unbounded cache keeps is every key, in the order of the last visits. -/
theorem serve_visits_unbounded (keys : List κ) :
    ((empty : Lru κ).serve none (keys.flatMap visit)).held = [] ∧
      (empty.serve none (keys.flatMap visit)).idle = keys.dedup := by
  -- The induction is on the last visit, which moves its key to the end.
  induction keys using List.reverseRecOn with
  | nil => exact ⟨rfl, rfl⟩
  | append_singleton keys key ih =>
    obtain ⟨unheld, idle⟩ := ih
    rw [List.flatMap_append, List.flatMap_singleton, serve, List.foldl_append]
    obtain ⟨unheld', idle'⟩ := serve_visit none unheld key
    refine ⟨unheld', idle'.trans ?_⟩
    rw [dedup_concat, idle]
    split
    · rfl
    · rename_i absent
      rw [List.erase_of_not_mem absent]
      exact congrArg (· ++ [key]) idle

/-- How many keys a bounded cache keeps of those that were visited. -/
theorem length_serve_visits {bound : Nat} (positive : 0 < bound) (keys : List κ) :
    ((empty : Lru κ).serve (some bound) (keys.flatMap visit)).held = [] ∧
      (empty.serve (some bound) (keys.flatMap visit)).idle.length =
        min bound keys.dedup.length := by
  induction keys using List.reverseRecOn with
  | nil => exact ⟨rfl, by simp [serve, empty]⟩
  | append_singleton keys key ih =>
    obtain ⟨unheld, length⟩ := ih
    have allows : Allows (some bound) none := trivial
    have suffix := (within_serve allows (keys.flatMap visit)).idle
    rw [(serve_visits_unbounded keys).2] at suffix
    rw [List.flatMap_append, List.flatMap_singleton, serve, List.foldl_append]
    obtain ⟨unheld', idle'⟩ := serve_visit (some bound) unheld key
    refine ⟨unheld', (congrArg List.length idle').trans ?_⟩
    rw [dedup_concat, List.length_append, List.length_append, List.length_singleton]
    split
    -- The key is among those kept, and only moves.
    · rename_i inside
      have listed := suffix.subset inside
      have positive := List.length_pos_of_mem inside
      rw [List.length_erase_of_mem inside, List.length_erase_of_mem listed, length]
      omega
    · rename_i absent
      have full : ((empty : Lru κ).serve (some bound) (keys.flatMap visit)).full (some bound) =
          true ↔ bound ≤ min bound keys.dedup.length := by
        simp [full, size, unheld, length]
      rw [room]
      split
      -- The key released longest ago makes room for the new one.
      · rename_i crowded
        rw [full] at crowded
        have fewer : keys.dedup.length ≤ (keys.dedup.erase key).length + 1 := by
          rw [List.length_erase]
          split <;> omega
        rw [evict_idle, List.length_tail, length]
        omega
      -- A cache that is not full keeps every key, so that the key is new.
      · rename_i roomy
        rw [full] at roomy
        have all := suffix.eq_of_length (by omega)
        rw [List.erase_of_not_mem (all ▸ absent), length]
        omega

/-- A cache whose keys are given back at once keeps the keys that were visited last. -/
theorem serve_visits {bound : Nat} (positive : 0 < bound) (keys : List κ) :
    (empty.serve (some bound) (keys.flatMap visit)).idle =
      keys.dedup.drop (keys.dedup.length - bound) := by
  -- The cache keeps an end of what one without bound keeps, and how long that end is is known.
  have allows : Allows (some bound) none := trivial
  have suffix := (within_serve allows (keys.flatMap visit)).idle
  rw [(serve_visits_unbounded keys).2] at suffix
  rw [List.suffix_iff_eq_drop.mp suffix, (length_serve_visits positive keys).2]
  congr 1
  omega

end Lru

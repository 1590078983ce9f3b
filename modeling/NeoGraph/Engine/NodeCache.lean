import NeoGraph.Lib.Bytes

/-!
# The cache of node results

Results of nodes are kept under a key of the node, the hash of its state and
a scope. A limit on their number makes room by dropping the result that was
used longest ago, which is told from a counter of the uses.

`cache_recency` says that the limit holds through all operations, that the
results kept are those of the keys used last, and that no two states share a
key.
-/

namespace NeoGraph

open ByteOrder List

variable {R : Type}

/-- A result, and when it was used last. -/
structure CacheEntry (R : Type) where
  result : R
  lastUsed : ℕ

/-- The entries are listed with their keys. -/
structure NodeCache (R : Type) where
  enabledNodes : Finset Bytes := ∅
  entries : List (Bytes × CacheEntry R) := []
  hits : ℕ := 0
  misses : ℕ := 0
  maxEntries : ℕ := 0
  evictions : ℕ := 0
  /-- Counts the uses. The source counts in 64 bits, which no run can use up. -/
  accessSequence : ℕ := 0

namespace NodeCache

/-- The three parts, so encoded that no two keys meet. -/
def makeKey (nodeName stateHash scopeKey : Bytes) : Bytes :=
  [nodeName, scopeKey, stateHash].flatMap encodeComponent

def setEnabled (c : NodeCache R) (nodeName : Bytes) (enabled : Bool) : NodeCache R :=
  { c with enabledNodes :=
      if enabled then insert nodeName c.enabledNodes else c.enabledNodes.erase nodeName }

/-- The entry of a key is written anew. -/
def assign (entries : List (Bytes × CacheEntry R)) (key : Bytes) (entry : CacheEntry R) :
    List (Bytes × CacheEntry R) :=
  entries.map fun e => if e.1 = key then (key, entry) else e

/-- A hit is a use. -/
def lookup (c : NodeCache R) (nodeName stateHash scopeKey : Bytes) : Option R × NodeCache R :=
  if nodeName ∉ c.enabledNodes then (none, c)
  else
    let key := makeKey nodeName stateHash scopeKey
    match c.entries.find? fun e => e.1 = key with
    | none => (none, { c with misses := c.misses + 1 })
    | some (_, entry) =>
      let c := { c with hits := c.hits + 1 }
      if 0 < c.maxEntries then
        (some entry.result, { c with
          accessSequence := c.accessSequence + 1
          entries := assign c.entries key { entry with lastUsed := c.accessSequence + 1 } })
      else (some entry.result, c)

/-- The entry that was used longest ago, and of those the one with the
smallest key. -/
def victim (first : Bytes × CacheEntry R) (rest : List (Bytes × CacheEntry R)) :
    Bytes × CacheEntry R :=
  rest.foldl (fun victim it =>
    if it.2.lastUsed < victim.2.lastUsed
        ∨ it.2.lastUsed = victim.2.lastUsed ∧ it.1 < victim.1 then it
    else victim) first

/-- The entry that was used longest ago goes. -/
def evictOneLocked (c : NodeCache R) : NodeCache R :=
  match c.entries with
  | [] => c
  | first :: rest =>
    { c with
      entries := c.entries.filter fun e => e.1 ≠ (victim first rest).1
      evictions := c.evictions + 1 }

/-- A result is stored, and room made for it before. -/
def store (c : NodeCache R) (nodeName stateHash scopeKey : Bytes) (result : R) : NodeCache R :=
  if nodeName ∉ c.enabledNodes then c
  else
    let key := makeKey nodeName stateHash scopeKey
    match c.entries.find? fun e => e.1 = key with
    | some (_, entry) =>
      if 0 < c.maxEntries then
        { c with
          accessSequence := c.accessSequence + 1
          entries := assign c.entries key ⟨result, c.accessSequence + 1⟩ }
      else { c with entries := assign c.entries key { entry with result := result } }
    | none =>
      let c := if 0 < c.maxEntries ∧ c.maxEntries ≤ c.entries.length then c.evictOneLocked else c
      if 0 < c.maxEntries then
        { c with
          accessSequence := c.accessSequence + 1
          entries := (key, ⟨result, c.accessSequence + 1⟩) :: c.entries }
      else { c with entries := (key, ⟨result, 0⟩) :: c.entries }

/-- The entries go, and the uses are counted anew. -/
def clear (c : NodeCache R) : NodeCache R := { c with entries := [], accessSequence := 0 }

/-- The loop that makes room. -/
def evictLoop : ℕ → NodeCache R → NodeCache R
  | 0, c => c
  | fuel + 1, c =>
    if 0 < c.maxEntries ∧ c.maxEntries < c.entries.length then evictLoop fuel c.evictOneLocked
    else c

/-- The limit is set, and what is over it goes. -/
def setMaxEntries (c : NodeCache R) (maxEntries : ℕ) : NodeCache R :=
  let c := if c.maxEntries = 0 ∧ 0 < maxEntries ∨ maxEntries = 0 then
      { c with
        accessSequence := 0
        entries := c.entries.map fun e => (e.1, { e.2 with lastUsed := 0 }) }
    else c
  evictLoop c.entries.length { c with maxEntries := maxEntries }

/-! ## Operations, and the keys used last -/

/-- An operation on a cache. -/
inductive Operation (R : Type) where
  | setEnabled (nodeName : Bytes) (enabled : Bool)
  | store (nodeName stateHash scopeKey : Bytes) (result : R)
  | lookup (nodeName stateHash scopeKey : Bytes)
  | clear
  | setMaxEntries (maxEntries : ℕ)

/-- The cache after an operation. -/
def perform (c : NodeCache R) : Operation R → NodeCache R
  | .setEnabled nodeName enabled => c.setEnabled nodeName enabled
  | .store nodeName stateHash scopeKey result => c.store nodeName stateHash scopeKey result
  | .lookup nodeName stateHash scopeKey => (c.lookup nodeName stateHash scopeKey).2
  | .clear => c.clear
  | .setMaxEntries maxEntries => c.setMaxEntries maxEntries

/-- What was stored or hit: the keys, the last one first, and the results
that were stored last. -/
structure Recency (R : Type) where
  keys : List Bytes := []
  stored : Bytes → Option R := fun _ => none

def Recency.access (s : Recency R) (key : Bytes) : Recency R :=
  { s with keys := key :: s.keys.filter (· ≠ key) }

/-- An operation on the cache `c`. -/
def Recency.after (s : Recency R) (c : NodeCache R) : Operation R → Recency R
  | .store nodeName stateHash scopeKey result =>
    let key := makeKey nodeName stateHash scopeKey
    if nodeName ∈ c.enabledNodes then
      { s.access key with stored := Function.update s.stored key (some result) }
    else s
  | .lookup nodeName stateHash scopeKey =>
    if (c.lookup nodeName stateHash scopeKey).1.isSome then
      s.access (makeKey nodeName stateHash scopeKey)
    else s
  | .clear => { s with keys := [] }
  | _ => s

/-- The cache and its recency, side by side. -/
def step (p : NodeCache R × Recency R) (operation : Operation R) : NodeCache R × Recency R :=
  (p.1.perform operation, p.2.after p.1 operation)

def run (c : NodeCache R) (operations : List (Operation R)) : NodeCache R × Recency R :=
  operations.foldl step (c, {})

/-! ## Keys -/

/-- **No two states share a key.** -/
theorem makeKey_inj {n h s n' h' s' : Bytes} (heq : makeKey n h s = makeKey n' h' s') :
    n = n' ∧ h = h' ∧ s = s' := by
  rw [← append_nil (makeKey n h s), ← append_nil (makeKey n' h' s')] at heq
  have hl := (flatMap_encodeComponent_append_inj (by rfl)
    (show [n, s, h].flatMap _ ++ [] = [n', s', h'].flatMap _ ++ [] from heq)).1
  simp only [cons.injEq, and_true] at hl
  exact ⟨hl.1, hl.2.2, hl.2.1⟩

/-! ## The limit -/

variable {c : NodeCache R}

/-- The entry that goes was used before all others. -/
theorem victim_spec (first : Bytes × CacheEntry R) (rest : List (Bytes × CacheEntry R)) :
    victim first rest ∈ first :: rest
      ∧ ∀ e ∈ first :: rest, (victim first rest).2.lastUsed ≤ e.2.lastUsed := by
  induction rest generalizing first with
  | nil => simp [victim]
  | cons it rest ih =>
    simp only [victim, foldl_cons] at ih ⊢
    split_ifs with h
    · obtain ⟨hm, hle⟩ := ih it
      refine ⟨mem_cons_of_mem _ hm, forall_mem_cons.mpr ⟨?_, hle⟩⟩
      exact (hle it mem_cons_self).trans (h.elim le_of_lt fun h => h.1.le)
    · obtain ⟨hm, hle⟩ := ih first
      have hf := hle first mem_cons_self
      refine ⟨?_, fun e he => ?_⟩
      · obtain hm | hm := mem_cons.mp hm
        · exact mem_cons.mpr (.inl hm)
        · exact mem_cons_of_mem _ (mem_cons_of_mem _ hm)
      · simp only [mem_cons] at he hle
        obtain rfl | rfl | he := he
        · exact hf
        · exact hf.trans (not_lt.mp fun hlt => h (.inl hlt))
        · exact hle e (.inr he)

theorem length_evictOneLocked (h : 0 < c.entries.length) :
    c.evictOneLocked.entries.length < c.entries.length := by
  unfold evictOneLocked
  split
  · rename_i hn
    rw [hn] at h
    cases h
  · rename_i first rest hco
    refine length_filter_lt_length_iff_exists.mpr ⟨victim first rest, ?_, by simp⟩
    rw [hco]
    exact (victim_spec first rest).1

@[simp] theorem maxEntries_evictOneLocked : c.evictOneLocked.maxEntries = c.maxEntries := by
  unfold evictOneLocked
  split <;> rfl

@[simp] theorem accessSequence_evictOneLocked :
    c.evictOneLocked.accessSequence = c.accessSequence := by
  unfold evictOneLocked
  split <;> rfl

/-- The cache is within its limit. -/
def Bounded (c : NodeCache R) : Prop := 0 < c.maxEntries → c.entries.length ≤ c.maxEntries

theorem bounded_evictLoop (fuel : ℕ) (h : c.entries.length ≤ fuel) :
    Bounded (evictLoop fuel c) := by
  induction fuel generalizing c with
  | zero => exact fun _ => h.trans (Nat.zero_le _)
  | succ fuel ih =>
    rw [evictLoop]
    split_ifs with hover
    · exact ih (Nat.le_of_lt_succ ((length_evictOneLocked (by omega)).trans_le h))
    · exact fun hp => not_lt.mp fun hlt => hover ⟨hp, hlt⟩

theorem Bounded.perform (h : Bounded c) (operation : Operation R) :
    Bounded (c.perform operation) := by
  cases operation with
  | setEnabled => exact h
  | clear => exact fun _ => Nat.zero_le _
  | setMaxEntries maxEntries =>
    refine bounded_evictLoop _ ?_
    rfl
  | lookup nodeName stateHash scopeKey =>
    show Bounded (c.lookup nodeName stateHash scopeKey).2
    unfold lookup
    split
    · exact h
    dsimp only
    split
    · exact h
    · split
      · exact fun hp => by simpa [assign] using h hp
      · exact h
  | store nodeName stateHash scopeKey result =>
    show Bounded (c.store nodeName stateHash scopeKey result)
    unfold store
    split
    · exact h
    dsimp only
    split
    · split <;> exact fun hp => by simpa [assign] using h hp
    split
    · rename_i hrm
      rw [maxEntries_evictOneLocked, if_pos hrm.1]
      intro hp
      have := length_evictOneLocked (hrm.1.trans_le hrm.2)
      have := h hrm.1
      simp only [length_cons]
      omega
    · rename_i hrm
      split
      · rename_i hp
        refine fun _ => Nat.succ_le_of_lt (not_le.mp fun hle => hrm ⟨hp, hle⟩)
      · rename_i hz
        exact fun hp => absurd hp hz

/-! ## The keys used last -/

section Lists

variable {l : List (Bytes × CacheEntry R)} {key : Bytes}

theorem take_filter_of_forall_ne {n : ℕ} (h : ∀ e ∈ l.take n, e.1 ≠ key) :
    (l.filter fun e => e.1 ≠ key).take n = l.take n := by
  induction l generalizing n with
  | nil => rfl
  | cons a l ih =>
    cases n with
    | zero => simp
    | succ n =>
      rw [take_succ_cons] at h ⊢
      obtain ⟨ha, h⟩ := forall_mem_cons.mp h
      rw [filter_cons_of_pos (by simpa using ha), take_succ_cons, ih h]

variable {a e : Bytes × CacheEntry R}

theorem forall_ne_of_nodup (h : ((a :: l).map Prod.fst).Nodup) : ∀ e ∈ l, e.1 ≠ a.1 := by
  rw [map_cons, nodup_cons] at h
  exact fun e he heq => h.1 (heq ▸ mem_map_of_mem he)

theorem filter_eq_of_nodup (h : ((a :: l).map Prod.fst).Nodup) :
    (l.filter fun e => e.1 ≠ a.1) = l :=
  filter_eq_self.mpr fun e he => by simpa using forall_ne_of_nodup h e he

theorem take_filter_of_mem {n : ℕ} (hnd : (l.map Prod.fst).Nodup) (he : e ∈ l.take (n + 1)) :
    (l.filter fun x => x.1 ≠ e.1).take n = (l.take (n + 1)).filter fun x => x.1 ≠ e.1 := by
  induction l generalizing n with
  | nil => cases he
  | cons a l ih =>
    rw [take_succ_cons] at he ⊢
    by_cases ha : a.1 = e.1
    · have hr := filter_eq_of_nodup hnd
      rw [ha] at hr
      rw [filter_cons_of_neg (by simpa using ha), filter_cons_of_neg (by simpa using ha), hr]
      refine (filter_eq_self.mpr fun x hx => ?_).symm
      simpa [ha] using forall_ne_of_nodup hnd x (mem_of_mem_take hx)
    · have he : e ∈ l.take n := (mem_cons.mp he).resolve_left fun h => ha (h ▸ rfl)
      cases n with
      | zero => simp at he
      | succ n =>
        rw [filter_cons_of_pos (by simpa using ha), filter_cons_of_pos (by simpa using ha),
          take_succ_cons, ih (nodup_cons.mp hnd).2 he]

theorem perm_assign (hnd : (l.map Prod.fst).Nodup) (he : e ∈ l) (entry : CacheEntry R) :
    (assign l e.1 entry).Perm ((e.1, entry) :: l.filter fun x => x.1 ≠ e.1) := by
  induction l with
  | nil => cases he
  | cons a l ih =>
    have hm : assign (a :: l) e.1 entry
        = (if a.1 = e.1 then (e.1, entry) else a) :: assign l e.1 entry := rfl
    rw [hm]
    by_cases ha : a.1 = e.1
    · have hr := filter_eq_of_nodup hnd
      rw [ha] at hr
      rw [if_pos ha, filter_cons_of_neg (by simpa using ha), hr]
      have hsm : assign l e.1 entry = l.map id :=
        map_congr_left fun x hx => if_neg (ha ▸ forall_ne_of_nodup hnd x hx)
      rw [hsm, map_id]
    · have he : e ∈ l := (mem_cons.mp he).resolve_left fun h => ha (h ▸ rfl)
      rw [if_neg ha, filter_cons_of_pos (by simpa using ha)]
      exact ((ih (nodup_cons.mp hnd).2 he).cons a).trans (.swap _ _ _)

end Lists

/-- The entries are the first ones of all that were stored or hit, in the
order of their last use. -/
structure Tracks (c : NodeCache R) (s : Recency R) (all : List (Bytes × CacheEntry R)) : Prop where
  entries : c.entries.Perm (all.take c.maxEntries)
  keys : all.map Prod.fst = s.keys
  nodup : s.keys.Nodup
  stored : ∀ e ∈ all, s.stored e.1 = some e.2.result
  recent : all.Pairwise fun a b => b.2.lastUsed < a.2.lastUsed
  bound : ∀ e ∈ all, e.2.lastUsed ≤ c.accessSequence

variable {s : Recency R} {all : List (Bytes × CacheEntry R)} {key : Bytes} {n : ℕ}
  {c' : NodeCache R} {result : R} {stored : Bytes → Option R}

/-- A key is used. -/
theorem Tracks.access (h : Tracks c s all) (hmax : c'.maxEntries = n + 1)
    (hs : c'.accessSequence = c.accessSequence + 1)
    (hk : stored key = some result) (hot : ∀ k, k ≠ key → stored k = s.stored k)
    (hens : c'.entries.Perm ((key, ⟨result, c.accessSequence + 1⟩)
      :: (all.filter fun e => e.1 ≠ key).take n)) :
    ∃ all', Tracks c' { s.access key with stored := stored } all' := by
  have hm : ∀ e ∈ all.filter fun e => e.1 ≠ key, e ∈ all ∧ e.1 ≠ key := fun e he => by
    simpa using mem_filter.mp he
  refine ⟨(key, ⟨result, c.accessSequence + 1⟩) :: all.filter fun e => e.1 ≠ key,
    ⟨?_, ?_, ?_, ?_, ?_, ?_⟩⟩
  · rwa [hmax, take_succ_cons]
  · rw [map_cons, Recency.access, ← h.keys, filter_map]
    rfl
  · exact nodup_cons.mpr ⟨by simp, h.nodup.filter _⟩
  · refine forall_mem_cons.mpr ⟨hk, fun e he => ?_⟩
    obtain ⟨he, hne⟩ := hm e he
    exact (hot e.1 hne).trans (h.stored e he)
  · refine pairwise_cons.mpr ⟨fun e he => ?_, h.recent.filter _⟩
    exact Nat.lt_succ_of_le (h.bound e (hm e he).1)
  · rw [hs]
    exact forall_mem_cons.mpr ⟨le_rfl, fun e he => (h.bound e (hm e he).1).trans (Nat.le_succ _)⟩

/-- A key that is in the cache is used. -/
theorem Tracks.assign (h : Tracks c s all) (hmax : c.maxEntries = n + 1)
    {entry : Bytes × CacheEntry R} (hf : c.entries.find? (fun e => e.1 = key) = some entry)
    (hmax' : c'.maxEntries = n + 1) (hs : c'.accessSequence = c.accessSequence + 1)
    (hk : stored key = some result) (hot : ∀ k, k ≠ key → stored k = s.stored k)
    (hens : c'.entries = NodeCache.assign c.entries key ⟨result, c.accessSequence + 1⟩) :
    ∃ all', Tracks c' { s.access key with stored := stored } all' := by
  refine h.access hmax' hs hk hot ?_
  have hfd : entry.1 = key := by simpa using find?_some hf
  have hm : entry ∈ all.take (n + 1) := by
    rw [← hmax]
    exact h.entries.mem_iff.mp (mem_of_find?_eq_some hf)
  have hnd : (all.map Prod.fst).Nodup := h.keys ▸ h.nodup
  have hassign := perm_assign ((take_sublist (n + 1) all).map Prod.fst |>.nodup hnd) hm
    ⟨result, c.accessSequence + 1⟩
  rw [← take_filter_of_mem hnd hm, hfd] at hassign
  rw [hens]
  refine Perm.trans ?_ hassign
  rw [← hmax]
  exact h.entries.map _

/-- **The entry that makes room is the one used longest ago.** -/
theorem Tracks.evict (h : Tracks c s all) (hmax : c.maxEntries = n + 1)
    (hf : c.maxEntries ≤ c.entries.length) : c.evictOneLocked.entries.Perm (all.take n) := by
  have hlen : n < all.length := by
    have := h.entries.length_eq
    rw [length_take] at this
    omega
  have hp := h.entries
  rw [hmax, take_succ_eq_append_getElem hlen] at hp
  have hnd : ((all.take (n + 1)).map Prod.fst).Nodup :=
    (take_sublist (n + 1) all).map Prod.fst |>.nodup (h.keys ▸ h.nodup)
  have hrecent := h.recent.sublist (take_sublist (n + 1) all)
  rw [take_succ_eq_append_getElem hlen] at hnd hrecent
  generalize all[n] = last at *
  unfold evictOneLocked
  split
  · rename_i hn
    rw [hn, length_nil] at hf
    omega
  · rename_i first rest hens
    obtain ⟨hm, hle⟩ := victim_spec first rest
    rw [hens] at hp
    have hvictim : victim first rest = last := by
      have hl := hle last (hp.mem_iff.mpr (mem_append_right _ mem_cons_self))
      obtain hm | hm := mem_append.mp (hp.mem_iff.mp hm)
      · exact absurd hl (not_le.mpr ((pairwise_append.mp hrecent).2.2 _ hm last mem_cons_self))
      · exact mem_singleton.mp hm
    show (c.entries.filter _).Perm _
    rw [hens]
    refine (hp.filter _).trans (.of_eq ?_)
    rw [filter_append, filter_eq_self.mpr, hvictim, filter_cons_of_neg (by simp), filter_nil,
      append_nil]
    intro e he
    rw [map_append, nodup_append] at hnd
    simpa [hvictim] using hnd.2.2 e.1 (mem_map_of_mem he) last.1 (by simp)

/-- A key that is not in the cache is stored. -/
theorem Tracks.insert (h : Tracks c s all) (hmax : c.maxEntries = n + 1)
    (hf : c.entries.find? (fun e => e.1 = key) = none) {room : NodeCache R}
    (hrm : room = if 0 < c.maxEntries ∧ c.maxEntries ≤ c.entries.length then c.evictOneLocked
      else c) (hmax' : c'.maxEntries = n + 1) (hs : c'.accessSequence = c.accessSequence + 1)
    (hens : c'.entries = (key, ⟨result, c.accessSequence + 1⟩) :: room.entries) :
    ∃ all', Tracks c'
      { s.access key with stored := Function.update s.stored key (some result) } all' := by
  refine h.access hmax' hs (Function.update_self ..)
    (fun k hk => Function.update_of_ne hk ..) ?_
  have hp : room.entries.Perm (all.take n) := by
    rw [hrm]
    split_ifs with hfl
    · exact h.evict hmax hfl.2
    have hl : all.length ≤ n := by
      have := h.entries.length_eq
      rw [length_take] at this
      omega
    have := h.entries
    rwa [hmax, take_of_length_le (by omega), ← take_of_length_le hl] at this
  rw [hens, take_filter_of_forall_ne]
  · exact hp.cons _
  · intro e he
    have hm := h.entries.mem_iff.mpr (by rw [hmax]; exact take_subset_take_left all n.le_succ he)
    simpa using find?_eq_none.mp hf e hm

/-- One operation, with any limit that stays. -/
theorem Tracks.perform (h : Tracks c s all) (hmax : c.maxEntries = n + 1)
    {operation : Operation R} (hop : ∀ m, operation ≠ .setMaxEntries m) :
    (∃ all', Tracks (c.perform operation) (s.after c operation) all')
      ∧ (c.perform operation).maxEntries = n + 1 := by
  have hp : 0 < c.maxEntries := hmax ▸ Nat.succ_pos n
  cases operation with
  | setEnabled =>
    exact ⟨⟨all, h.entries, h.keys, h.nodup, h.stored, h.recent, h.bound⟩, hmax⟩
  | clear => exact ⟨⟨[], by simp [NodeCache.perform, clear], rfl, nodup_nil, nofun, .nil, nofun⟩,
    hmax⟩
  | setMaxEntries m => exact absurd rfl (hop m)
  | lookup nodeName stateHash scopeKey =>
    simp only [NodeCache.perform, Recency.after, lookup]
    split
    · exact ⟨⟨all, h⟩, hmax⟩
    cases hf : c.entries.find? fun e => e.1 = makeKey nodeName stateHash scopeKey with
    | none => exact ⟨⟨all, h.entries, h.keys, h.nodup, h.stored, h.recent, h.bound⟩, hmax⟩
    | some entry =>
      refine ⟨h.assign hmax hf (by exact hmax) rfl ?_ (fun _ _ => rfl) rfl, by exact hmax⟩
      have hm := mem_of_mem_take (h.entries.mem_iff.mp (mem_of_find?_eq_some hf))
      have hfd : entry.1 = makeKey nodeName stateHash scopeKey := by
        simpa using find?_some hf
      rw [← hfd]
      exact h.stored entry hm
  | store nodeName stateHash scopeKey result =>
    simp only [NodeCache.perform, Recency.after, store]
    by_cases hen : nodeName ∈ c.enabledNodes
    · rw [if_neg (not_not.mpr hen), if_pos hen]
      cases hf : c.entries.find? fun e => e.1 = makeKey nodeName stateHash scopeKey with
      | some entry =>
        dsimp only
        rw [if_pos hp]
        exact ⟨h.assign hmax hf (by exact hmax) rfl (Function.update_self ..)
          (fun k hk => Function.update_of_ne hk ..) rfl, hmax⟩
      | none =>
        dsimp only
        have hrm : ∀ room : NodeCache R, room = (if 0 < c.maxEntries
            ∧ c.maxEntries ≤ c.entries.length then c.evictOneLocked else c) →
            room.maxEntries = n + 1 ∧ room.accessSequence = c.accessSequence := by
          rintro room rfl
          split <;> simp [hmax]
        generalize hc : (if 0 < c.maxEntries ∧ c.maxEntries ≤ c.entries.length
          then c.evictOneLocked else c) = room
        obtain ⟨hmax', hs⟩ := hrm room hc.symm
        rw [if_pos (hmax' ▸ Nat.succ_pos n)]
        exact ⟨h.insert hmax hf hc.symm (by exact hmax') (by rw [hs])
          (by rw [hs]), hmax'⟩
    · rw [if_pos hen, if_neg hen]
      exact ⟨⟨all, h⟩, hmax⟩

theorem tracks_run {operations : List (Operation R)}
    (hoperations : ∀ m, .setMaxEntries m ∉ operations) (h : Tracks c s all)
    (hmax : c.maxEntries = n + 1) :
    ∃ all', Tracks (operations.foldl step (c, s)).1 (operations.foldl step (c, s)).2 all'
      ∧ (operations.foldl step (c, s)).1.maxEntries = n + 1 := by
  induction operations generalizing c s all with
  | nil => exact ⟨all, h, hmax⟩
  | cons operation operations ih =>
    obtain ⟨⟨all', h'⟩, hmax'⟩ := h.perform hmax fun m heq => hoperations m (heq ▸ mem_cons_self)
    exact ih (fun m hm => hoperations m (mem_cons_of_mem _ hm)) h' hmax'

/-- **The cache keeps the results of the keys used last.** The limit holds
after all operations; from an empty cache with a limit that stays as it is,
the entries are those of the keys that were stored or hit last, each with
the result that was stored last; and no two states share a key. -/
theorem cache_recency (R : Type) : (∀ operations : List (Operation R),
      Bounded (operations.foldl NodeCache.perform {}))
    ∧ (∀ (c : NodeCache R) (operations : List (Operation R)), c.entries = [] → 0 < c.maxEntries →
      (∀ m, .setMaxEntries m ∉ operations) → (c.run operations).2.keys.Nodup ∧
        ((c.run operations).1.entries.map fun e => (e.1, some e.2.result)).Perm
          (((c.run operations).2.keys.take c.maxEntries).map
            fun key => (key, (c.run operations).2.stored key)))
    ∧ ∀ n h s n' h' s', makeKey n h s = makeKey n' h' s' → n = n' ∧ h = h' ∧ s = s' := by
  refine ⟨fun operations => ?_, fun c operations hemp hp hoperations => ?_,
    fun _ _ _ _ _ _ => makeKey_inj⟩
  · exact foldlRecOn operations _ (fun h => absurd h (lt_irrefl 0)) fun c h operation _ =>
      h.perform operation
  · obtain ⟨n, hm⟩ := Nat.exists_eq_succ_of_ne_zero hp.ne'
    have hs : Tracks c {} [] :=
      ⟨by simp [hemp], rfl, nodup_nil, nofun, .nil, nofun⟩
    obtain ⟨all, h, hm'⟩ := tracks_run hoperations hs hm
    refine ⟨h.nodup, (h.entries.map _).trans (.of_eq ?_)⟩
    have hk : all.map Prod.fst = (c.run operations).2.keys := h.keys
    rw [hm, hm', ← hk, ← map_take, map_map]
    exact map_congr_left fun e he => congrArg (Prod.mk e.1) (h.stored e (mem_of_mem_take he)).symm

/-- Three results are stored under a limit of two. -/
theorem cache_recency_two : ((({ maxEntries := 2 } : NodeCache ℕ).run [.setEnabled [1] true,
      .store [1] [] [] 1, .store [1] [2] [] 2, .store [1] [3] [] 3]).1.entries.map
        fun e => (e.1, some e.2.result)).Perm
      [(makeKey [1] [3] [], some 3), (makeKey [1] [2] [], some 2)] :=
  ((cache_recency ℕ).2.1 _ _ rfl (by decide) (by simp)).2.trans (.of_eq (by decide +kernel))

end NodeCache

end NeoGraph

import NeoGraph.Lib.Noninterference
import NeoGraph.Tenant.Scoped

/-!
# Items of tenants

The composite key of an item, and the id of a checkpoint in the backend, can be
taken apart in one way only, so a key belongs to at most one tenant. Here this
is used for items: what a tenant sees are the items under its own keys
(`SameItems`), the operations of other tenants leave these alone, and its own
operations look at nothing else (`unwinding`).
-/

namespace NeoGraph.Tenant

open ByteOrder List InMemoryStore ScopedCheckpointStore SortedMap StoreAnswer

/-! ## Keys -/

variable {a b : Bytes}

theorem tenantPrefix_append_inj {s t : Bytes} (h : tenantPrefix a ++ s = tenantPrefix b ++ t) :
    a = b ∧ s = t := by
  unfold tenantPrefix at h
  simp only [append_assoc] at h
  exact encodeComponent_append_inj (append_cancel_left h)

theorem tenantPrefix_injective : Function.Injective tenantPrefix := by
  intro a b h
  refine (tenantPrefix_append_inj (s := []) (t := []) ?_).1
  rw [h]

/-- **A composite key belongs to one namespace and one key.** -/
theorem makeKey_inj {ns ns' : Namespace} {key key' : Bytes}
    (h : makeKey ns key = makeKey ns' key') : ns = ns' ∧ key = key' := by
  unfold makeKey nsToString at h
  simp only [append_assoc, cons_append] at h
  obtain ⟨hl, hr⟩ := decimalText_append_inj h
  obtain ⟨hns, hk⟩ := flatMap_encodeComponent_append_inj hl hr
  exact ⟨hns, encodeComponent_injective hk⟩

/-- **An id belongs to one tenant.** -/
theorem privateId_inj {id id' : Bytes} (h : privateId a id = privateId b id') :
    a = b ∧ id = id' := by
  obtain ⟨hten, hid⟩ := tenantPrefix_append_inj h
  exact ⟨hten, encodeComponent_injective (List.cons.inj hid).2⟩

theorem privateId_ne (h : a ≠ b) (id id' : Bytes) : privateId a id ≠ privateId b id' :=
  fun hid => h (privateId_inj hid).1

/-- A tenant gets its id back. -/
theorem strip_privateId (tenantId id : Bytes) : strip tenantId (privateId tenantId id)
      = .ok id := by
  have hspl : privateId tenantId id
      = (tenantPrefix tenantId ++ [58]) ++ encodeComponent id := by
    unfold privateId
    rw [append_assoc, singleton_append]
  have hd : ((encodeComponent id).dropWhile fun b => b ≠ 58).tail = id := by
    unfold encodeComponent
    rw [dropWhile_append_of_pos]
    · rfl
    intro b hb
    have hdig := isDigit_of_mem_decimalText hb
    refine decide_eq_true fun heq => ?_
    rw [heq] at hdig
    exact absurd hdig (by decide)
  unfold strip
  dsimp only
  rw [hspl, if_pos (List.isPrefixOf_iff_prefix.mpr (prefix_append _ _)),
    drop_left, hd, if_pos rfl, if_pos]
  exact mem_append_right _ mem_cons_self

/-! ## Items -/

namespace ScopedStore

open InMemoryStore

/-- Every item is filed under its own composite key. -/
def Filed (s : InMemoryStore) : Prop :=
  ∀ k item, s.items.find? k = some item → k = makeKey item.ns item.key

/-- A tenant sees the same items. -/
def SameItems (tenantId : Bytes) (s t : InMemoryStore) : Prop :=
  ∀ ns key, s.items.find? (makeKey (privateNamespace tenantId ns) key)
    = t.items.find? (makeKey (privateNamespace tenantId ns) key)

variable {s : InMemoryStore}

/-- Every item stays under its own key. -/
theorem Filed.put (h : Filed s) (ns : Namespace) (key : Bytes) (value : Json Bytes) :
    Filed (s.put ns key value) := by
  intro k item hi
  unfold InMemoryStore.put at hi
  split at hi
  · rename_i old hold
    dsimp only at hi
    obtain ⟨hk, rfl⟩ | hi := find?_insert_cases hi
    · rw [hk]
      exact h _ old hold
    · exact h k item hi
  · obtain ⟨hk, rfl⟩ | hi := find?_insert_cases hi
    · exact hk
    · exact h k item hi

theorem Filed.deleteItem (h : Filed s) (ns : Namespace) (key : Bytes) :
    Filed (s.deleteItem ns key) := by
  intro k item hi
  unfold InMemoryStore.deleteItem at hi
  dsimp only at hi
  rw [find?_erase] at hi
  split at hi
  · cases hi
  · exact h k item hi

/-- An item is put under one key, and depends on what was there. -/
theorem find?_put (s : InMemoryStore) (ns : Namespace) (key : Bytes) (value : Json Bytes)
    (k : Bytes) : (s.put ns key value).items.find? k = if k = makeKey ns key then
      some (((s.items.find? (makeKey ns key)).map
        fun item => { item with value := value }).getD ⟨ns, key, value⟩)
    else s.items.find? k := by
  unfold put
  split
  · rename_i old hold
    rw [hold]
    split
    · rename_i hk
      rw [hk]
      exact find?_insert_self _ _ _
    · rename_i hk
      exact find?_insert_of_ne _ hk _
  · rename_i hn
    rw [hn]
    split
    · rename_i hk
      rw [hk]
      exact find?_insert_self _ _ _
    · rename_i hk
      exact find?_insert_of_ne _ hk _

/-- The items of a tenant, in the order of their keys. -/
def ownItems (tenantId : Bytes) (s : InMemoryStore) : SortedMap Bytes StoreItem :=
  s.items.filterMap fun _ item =>
    if item.ns.head? = some (tenantPrefix tenantId) then some item else none

variable {t : InMemoryStore} {tenantId : Bytes}

/-- The items of a tenant, in order. -/
theorem ownItems_eq (hs : Filed s) (ht : Filed t) (h : SameItems tenantId s t) :
    ownItems tenantId s = ownItems tenantId t := by
  have hown : ∀ {s t : InMemoryStore}, Filed s → SameItems tenantId s t → ∀ k item,
      (ownItems tenantId s).find? k = some item → (ownItems tenantId t).find? k = some item := by
    intro s t hs h k item hi
    unfold ownItems at hi ⊢
    rw [SortedMap.find?_filterMap, Option.bind_eq_some_iff] at hi ⊢
    obtain ⟨found, hf, hown⟩ := hi
    refine ⟨found, ?_, hown⟩
    split at hown
    · rename_i hhd
      have hns : found.ns = privateNamespace tenantId found.ns.tail :=
        (cons_head?_tail hhd).symm
      have hk := hs k found hf
      rw [hns] at hk
      rw [hk] at hf ⊢
      rw [← h]
      exact hf
    · cases hown
  have hsymm : SameItems tenantId t s := fun ns key => (h ns key).symm
  refine ext_find? fun k => Option.ext fun item => ?_
  exact ⟨hown hs h k item, hown ht hsymm k item⟩

/-- The values of the entries that are kept. -/
theorem entries_filterMap_snd {κ ν : Type} [LinearOrder κ] (m : SortedMap κ ν) (p : ν → Prop)
    [DecidablePred p] : (m.filterMap fun _ v => if p v then some v else none).entries.map Prod.snd
      = (m.entries.map Prod.snd).filter fun v => p v := by
  show (m.entries.filterMap _).map Prod.snd = _
  induction m.entries with
  | nil => rfl
  | cons e l ih =>
    rw [filterMap_cons, map_cons, filter_cons]
    dsimp only
    by_cases hp : p e.2
    · rw [if_pos hp, if_pos (decide_eq_true hp), Option.map_some, map_cons, ih]
    · rw [if_neg hp, if_neg (by rw [decide_eq_true_eq]; exact hp), Option.map_none, ih]

theorem namespaceHasPrefix_privateNamespace {ns nsPrefix : Namespace}
    (h : namespaceHasPrefix ns (privateNamespace tenantId nsPrefix) = true) :
    ns.head? = some (tenantPrefix tenantId) := by
  obtain ⟨rest, rfl⟩ := isPrefixOf_iff_prefix.mp h
  rfl

/-- A search looks at the items of its tenant. -/
theorem searchLoop_filter (tenantId : Bytes) (nsPrefix : Namespace) (limit : ℤ)
    (items : List StoreItem) (found : ℕ) :
    InMemoryStore.searchLoop (privateNamespace tenantId nsPrefix) limit items found
      = InMemoryStore.searchLoop (privateNamespace tenantId nsPrefix) limit
          (items.filter fun item => item.ns.head? = some (tenantPrefix tenantId)) found := by
  induction items generalizing found with
  | nil => rfl
  | cons item items ih =>
    rw [filter_cons, InMemoryStore.searchLoop]
    split
    · rename_i hp
      rw [if_pos (decide_eq_true (namespaceHasPrefix_privateNamespace hp)),
        InMemoryStore.searchLoop,
        if_pos hp, ← ih]
    · rename_i hp
      rw [ih]
      split
      · rw [InMemoryStore.searchLoop, if_neg hp]
      · rfl

theorem listLoop_filter (tenantId : Bytes) (nsPrefix : Namespace) (items : List StoreItem)
    (seen : List Namespace) : listLoop (privateNamespace tenantId nsPrefix) items seen
      = listLoop (privateNamespace tenantId nsPrefix)
          (items.filter fun item => item.ns.head? = some (tenantPrefix tenantId)) seen := by
  induction items generalizing seen with
  | nil => rfl
  | cons item items ih =>
    rw [filter_cons, listLoop]
    split
    · rename_i hp
      rw [if_pos (decide_eq_true
          (namespaceHasPrefix_privateNamespace (Bool.and_eq_true_iff.mp hp).1)), listLoop,
        if_pos hp, ← ih]
    · rename_i hp
      rw [ih]
      split
      · rw [listLoop, if_neg hp]
      · rfl

theorem filter_own (hs : Filed s) (ht : Filed t) (h : SameItems tenantId s t) :
    (s.items.entries.map Prod.snd).filter (fun item => item.ns.head? = some (tenantPrefix tenantId))
      = (t.items.entries.map Prod.snd).filter
        fun item => item.ns.head? = some (tenantPrefix tenantId) := by
  have hown := ownItems_eq hs ht h
  unfold ownItems at hown
  rw [← entries_filterMap_snd s.items, hown, entries_filterMap_snd]

theorem search_congr (hs : Filed s) (ht : Filed t) (h : SameItems tenantId s t)
    (nsPrefix : Namespace) (limit : ℤ) : s.search (privateNamespace tenantId nsPrefix) limit
      = t.search (privateNamespace tenantId nsPrefix) limit := by
  unfold InMemoryStore.search
  rw [searchLoop_filter, searchLoop_filter tenantId nsPrefix limit (t.items.entries.map Prod.snd),
    filter_own hs ht h]

theorem listNamespaces_congr (hs : Filed s) (ht : Filed t) (h : SameItems tenantId s t)
    (nsPrefix : Namespace) : s.listNamespaces (privateNamespace tenantId nsPrefix)
      = t.listNamespaces (privateNamespace tenantId nsPrefix) := by
  unfold InMemoryStore.listNamespaces
  rw [listLoop_filter, listLoop_filter tenantId nsPrefix (t.items.entries.map Prod.snd),
    filter_own hs ht h]

theorem makeKey_privateNamespace_ne {a b : Bytes} (h : a ≠ b) (ns ns' : Namespace)
    (key key' : Bytes) :
    makeKey (privateNamespace a ns) key ≠ makeKey (privateNamespace b ns') key' :=
  fun hk => h (tenantPrefix_injective (List.cons.inj (makeKey_inj hk).1).1)

/-- **Items of other tenants** are neither seen nor disturbed. -/
theorem unwinding (tenantId : Bytes) :
    Unwinding step (fun op => op.1.tenantId) tenantId Filed (SameItems tenantId) where
  equivalence :=
    { refl := fun _ _ _ => rfl
      symm := fun h ns key => (h ns key).symm
      trans := fun hst htu ns key => (hst ns key).trans (htu ns key) }
  keeps := by
    rintro ⟨scope, op⟩ s hs
    cases op with
    | put ns key value => exact hs.put _ key value
    | get ns key | search nsPrefix limit | listNamespaces nsPrefix => exact hs
    | deleteItem ns key => exact hs.deleteItem _ key
  confined := by
    rintro ⟨scope, op⟩ s hs hot ns' key'
    cases op with
    | put ns key value =>
      show _ = (s.put _ _ _).items.find? _
      rw [find?_put, if_neg (makeKey_privateNamespace_ne (Ne.symm hot) _ _ _ _)]
    | get ns key | search nsPrefix limit | listNamespaces nsPrefix => rfl
    | deleteItem ns key =>
      show _ = (s.items.erase _).find? _
      rw [find?_erase, if_neg (makeKey_privateNamespace_ne (Ne.symm hot) _ _ _ _)]
  consistent := by
    rintro ⟨scope, op⟩ s t rfl hs ht hst
    cases op with
    | put ns key value =>
      refine ⟨fun ns' key' => ?_, rfl⟩
      show (s.put _ _ _).items.find? _ = (t.put _ _ _).items.find? _
      rw [find?_put, find?_put, hst, hst]
    | get ns key =>
      refine ⟨hst, ?_⟩
      show item ((s.get _ _).map _) = item ((t.get _ _).map _)
      unfold InMemoryStore.get
      rw [hst]
    | search nsPrefix limit =>
      refine ⟨hst, ?_⟩
      show items ((s.search _ _).map _) = items ((t.search _ _).map _)
      rw [search_congr hs ht hst]
    | deleteItem ns key =>
      refine ⟨fun ns' key' => ?_, rfl⟩
      show (s.items.erase _).find? _ = (t.items.erase _).find? _
      rw [find?_erase, find?_erase, hst]
    | listNamespaces nsPrefix =>
      refine ⟨hst, ?_⟩
      show namespaces (ScopedStore.listNamespaces _ _ _)
        = namespaces (ScopedStore.listNamespaces _ _ _)
      unfold ScopedStore.listNamespaces
      rw [listNamespaces_congr hs ht hst]

end ScopedStore

end NeoGraph.Tenant

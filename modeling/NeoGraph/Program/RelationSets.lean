import Mathlib
import NeoGraph.Program.Relation

/-!
# The rows of every parent

A store keeps, for each parent, the head and the rows of its children. This
module has the relation parts of a publication, how a store writes a planned
change, and the sequences of changes: inserts, updates, publications that
spawn or complete a child or end a parent, and the migration of records of an
earlier version.

Along every such sequence the head of a parent agrees with its rows:
`RelationSet.Agrees` is what one state satisfies, and `RelationSet.Follows`
is how two neighbouring states may differ.

What a change reads beside the rows is any `TransitionReads`: the results
hold whatever happens to runs and lineages in between.
-/

namespace NeoGraph.Program

open List Option Nat ProgramChildRecord

/-! ## The relation parts of a publication -/

/-- A child's first publication adds or dispatches its row. -/
structure ProgramChildRelationSpawn where
  parentRunId : String
  parentFence : BitVec 64
  child : ProgramChildRecord
deriving DecidableEq

/-- A child's last publication ends its row. -/
structure ProgramChildRelationCompletion where
  parentRunId : String
  childFence : BitVec 64
  child : ProgramChildRecord
  expectedRowVersion : Option (BitVec 64) := none
deriving DecidableEq

/-- What a publication does to the children of its run. -/
structure ProgramChildRelationPart where
  /-- The epoch the publication read. -/
  expectedEpoch : Option (BitVec 64) := none
  spawn : Option ProgramChildRelationSpawn := none
  completion : Option ProgramChildRelationCompletion := none
deriving DecidableEq

/-- The relation changes of a publication. -/
structure RelationChanges where
  relationRow : Option ProgramChildRelation := none
  relationHead : Option ProgramChildRelationHead := none
  closedRelationHead : Option ProgramChildRelationHead := none

/-- The row and the head of an applied plan. -/
def RelationPlan.changes (plan : RelationPlan) : RelationChanges :=
  if plan.status = .applied then { relationRow := plan.row, relationHead := plan.head } else {}

/-- The publication read the epoch the parent still has. -/
def epochBinds (reads : TransitionReads) (run : ProgramRunRecord)
    (part : Option ProgramChildRelationPart) : Bool :=
  match part.bind ProgramChildRelationPart.expectedEpoch with
  | none => true
  | some epoch =>
    ((reads.relationHead run.logicalRunId).map ProgramChildRelationHead.epoch).getD 0 = epoch

/-- The spawn of a publication; it is refused if the row is. -/
def spawnChanges (ids : Identities) (reads : TransitionReads) (ownerScope : String)
    (runExists : Bool) (run : ProgramRunRecord) (spawn : ProgramChildRelationSpawn) :
    Option RelationChanges :=
  if runExists || spawn.child.childRunId ≠ run.runId || spawn.parentRunId = run.logicalRunId
      || spawn.parentRunId = spawn.child.childRunId
      || run.invocation.parentRunId ≠ spawn.parentRunId then none
  else do
    let plan ← planRelationInsert ids reads ownerScope spawn.parentRunId spawn.parentFence
      spawn.child true
    if plan.status = .refused then none else some plan.changes

/-- The completion of a publication; a row that does not take it is skipped. -/
def completionChanges (ids : Identities) (reads : TransitionReads) (ownerScope : String)
    (runExists : Bool) (run : ProgramRunRecord) (completion : ProgramChildRelationCompletion) :
    Option RelationChanges :=
  if !runExists || run.terminalResult.isNone || completion.child.childRunId ≠ run.logicalRunId
      || completion.parentRunId = run.logicalRunId
      || completion.parentRunId = completion.child.childRunId then none
  else
    (planRelationUpdate ids reads ownerScope completion.parentRunId completion.childFence
      completion.expectedRowVersion completion.child (some run)).map RelationPlan.changes

def spawnPart (ids : Identities) (reads : TransitionReads) (ownerScope : String) (runExists : Bool)
    (run : ProgramRunRecord) (part : Option ProgramChildRelationPart) : Option RelationChanges :=
  match part.bind ProgramChildRelationPart.spawn with
  | none => some {}
  | some spawn => spawnChanges ids reads ownerScope runExists run spawn

/-- A spawn needs a run that is not stored and a completion one that is, so the
completion replaces nothing. -/
def completionPart (ids : Identities) (reads : TransitionReads) (ownerScope : String)
    (runExists : Bool) (run : ProgramRunRecord) (part : Option ProgramChildRelationPart)
    (spawned : RelationChanges) : Option RelationChanges :=
  match part.bind ProgramChildRelationPart.completion with
  | none => some spawned
  | some completion =>
    (completionChanges ids reads ownerScope runExists run completion).map fun changes =>
      if changes.relationRow.isSome then changes else spawned

/-- A final publication closes the head of its run. -/
def closePart (reads : TransitionReads) (run : ProgramRunRecord) (journalId : String) :
    Option (Option ProgramChildRelationHead) :=
  if run.continuation.state.isFinal then planRelationClose reads run.logicalRunId journalId
  else some none

/-- The changes that a publication makes to rows, unless it is refused. -/
def relationPartsBind (ids : Identities) (reads : TransitionReads) (ownerScope : String)
    (runExists : Bool) (run : ProgramRunRecord) (journalId : String)
    (part : Option ProgramChildRelationPart) : Option RelationChanges :=
  if !epochBinds reads run part then none
  else do
    let spawned ← spawnPart ids reads ownerScope runExists run part
    let completed ← completionPart ids reads ownerScope runExists run part spawned
    let closed ← closePart reads run journalId
    some { completed with closedRelationHead := closed }

/-! ## The stored rows -/

/-- The head and the rows of one parent. -/
structure RelationSet where
  head : Option ProgramChildRelationHead := none
  /-- By the child. -/
  rows : SortedMap String ProgramChildRelation := ∅

/-- A row is written with its head. -/
def RelationSet.write (set : RelationSet) (row : ProgramChildRelation)
    (head : ProgramChildRelationHead) : RelationSet :=
  { head := some head, rows := set.rows.insert row.child.childRunId row }

/-- The rows of a list are written. -/
def writeRows (rows : SortedMap String ProgramChildRelation) (l : List ProgramChildRelation) :
    SortedMap String ProgramChildRelation :=
  l.foldl (fun m row => m.insert row.child.childRunId row) rows

/-- The rows of every parent of one owner, by the parent's logical run. -/
abbrev RelationSets := SortedMap String RelationSet

namespace RelationSets

/-- The rows of a parent. -/
def ofParent (sets : RelationSets) (parent : String) : RelationSet := sets.getD parent {}

/-- A planned row is written with its head. -/
def commitRow (sets : RelationSets) (row : ProgramChildRelation)
    (head : ProgramChildRelationHead) : RelationSets :=
  sets.insert head.parentRunId ((sets.ofParent head.parentRunId).write row head)

/-- The closed head of a parent is written. -/
def commitClosed (sets : RelationSets) (head : ProgramChildRelationHead) : RelationSets :=
  sets.insert head.parentRunId { sets.ofParent head.parentRunId with head := some head }

/-- What a store writes of a publication. Whether there is a head to close was
looked up before anything was written. -/
def commitRelations (sets : RelationSets) (changes : RelationChanges) : RelationSets :=
  let written :=
    match changes.relationRow, changes.relationHead with
    | some row, some head => sets.commitRow row head
    | _, _ => sets
  match changes.closedRelationHead with
  | none => written
  | some head =>
    if sets.contains head.parentRunId then written.commitClosed head else written

/-- The stored rows are what a plan reads. -/
def reads (sets : RelationSets) (others : TransitionReads) : TransitionReads :=
  { others with
    relationHead := fun parent => (sets.find? parent).bind RelationSet.head
    relationRow := fun parent child => (sets.find? parent).bind fun set => set.rows.find? child }

end RelationSets

/-- A change of the rows of an owner, with what it reads beside the rows. -/
inductive RelationOp where
  | insert (others : TransitionReads) (parentRunId : String) (expectedParentFence : BitVec 64)
      (child : ProgramChildRecord)
  | update (others : TransitionReads) (parentRunId : String) (writerFence : BitVec 64)
      (expectedRowVersion : Option (BitVec 64)) (next : ProgramChildRecord)
  /-- A publication that the other rules accept. -/
  | publish (others : TransitionReads) (runExists : Bool) (run : ProgramRunRecord)
      (journalId : String) (part : Option ProgramChildRelationPart)
  /-- A store with records of an earlier version is opened. -/
  | migrate (run : ProgramRunRecord) (children : List ProgramChildRecord)

/-- What a change writes. -/
def RelationOp.changes (ids : Identities) (ownerScope : String) (sets : RelationSets) :
    RelationOp → Option RelationChanges
  | .insert others parentRunId fence child =>
    (planRelationInsert ids (sets.reads others) ownerScope parentRunId fence child false).map
      RelationPlan.changes
  | .update others parentRunId fence version next =>
    (planRelationUpdate ids (sets.reads others) ownerScope parentRunId fence version next
      none).map RelationPlan.changes
  | .publish others runExists run journalId part =>
    relationPartsBind ids (sets.reads others) ownerScope runExists run journalId part
  | .migrate _ _ => none

namespace RelationSets

/-- The rows of a record of an earlier version are written, if its parent has
no head. -/
def migrate (sets : RelationSets) (run : ProgramRunRecord)
    (children : List ProgramChildRecord) : RelationSets :=
  if children = [] ∨ validLegacyChildren run children = false
      ∨ (sets.ofParent run.logicalRunId).head.isSome then sets
  else
    match planLegacyRelations run children with
    | none => sets
    | some (head, rows) =>
      sets.insert run.logicalRunId
        { head := some head
          rows := writeRows (sets.ofParent run.logicalRunId).rows rows }

/-- An operation on the relations of an owner. -/
def step (ids : Identities) (ownerScope : String) (sets : RelationSets) (op : RelationOp) :
    RelationSets :=
  match op with
  | .migrate run children => sets.migrate run children
  | op =>
    match op.changes ids ownerScope sets with
    | none => sets
    | some changes => sets.commitRelations changes

/-- The rows after a sequence of changes. -/
def run (ids : Identities) (ownerScope : String) (ops : List RelationOp) : RelationSets :=
  ops.foldl (step ids ownerScope) ∅

end RelationSets

/-! ## Heads that agree with their rows -/

/-- What a row reserves of a field. -/
def ProgramChildRelation.reserved (row : ProgramChildRelation) (f : BudgetField) : ℕ :=
  ((childPermanentReservation row.child.invocation.grantedBudget).getD {}).amount f

namespace RelationSet

def epoch (set : RelationSet) : ℕ := (set.head.map fun head => head.epoch.toNat).getD 0

def closed (set : RelationSet) : Bool := set.head.any ProgramChildRelationHead.closed

/-- **A head agrees with its rows**: it counts them and the open ones, their
ordinals are the numbers below the count, and what it commits is what they
reserve. -/
structure HeadAgrees (head : ProgramChildRelationHead)
    (rows : SortedMap String ProgramChildRelation) : Prop where
  count : head.count.toNat = rows.sumBy fun _ _ => 1
  ordinals : ∀ n, n < head.count.toNat ↔ ∃ id row, rows.find? id = some row ∧ row.ordinal.toNat = n
  unique : ∀ id id' row row', rows.find? id = some row → rows.find? id' = some row' →
    row.ordinal = row'.ordinal → id = id'
  openCount : head.openCount.toNat = rows.sumBy fun _ row => if row.isOpen then 1 else 0
  reserves : ∀ id row, rows.find? id = some row →
    (childPermanentReservation row.child.invocation.grantedBudget).isSome = true
  committed : ∀ f, head.committedBudget.amount f = rows.sumBy fun _ row => row.reserved f

/-- The head of a parent agrees with its rows; without rows there is none. -/
def Agrees (set : RelationSet) : Prop :=
  match set.head with
  | none => ∀ id, set.rows.find? id = none
  | some head => HeadAgrees head set.rows

/-- How a row may change: it is new, or open and its version grows by one. No
row of a closed parent is new or dispatched. -/
def RowFollows (old : RelationSet) (id : String) (row : ProgramChildRelation) : Prop :=
  old.rows.find? id = some row
    ∨ (old.rows.find? id = none ∧ old.closed = false ∧ row.rowVersion = 1)
    ∨ ∃ oldRow, old.rows.find? id = some oldRow ∧ oldRow.isOpen = true
      ∧ row.rowVersion.toNat = oldRow.rowVersion.toNat + 1
      ∧ (old.closed = true → ¬(oldRow.child.state = .publishing ∧ row.child.state = .dispatched))

/-- **How the rows of a parent may change**: every change raises the epoch, no
row is lost, and a closed head stays closed. -/
structure Follows (old new : RelationSet) : Prop where
  epoch : new = old ∨ old.epoch < new.epoch
  changed : ∀ (id : String) (row : ProgramChildRelation),
    new.rows.find? id = some row → RowFollows old id row
  kept : ∀ (id : String) (row : ProgramChildRelation),
    old.rows.find? id = some row → (new.rows.find? id).isSome = true
  closed : old.closed = true → new.closed = true

/-- What always holds of the rows of a parent. -/
structure Inv (parent : String) (set : RelationSet) : Prop where
  agrees : set.Agrees
  parent_eq : ∀ head, set.head = some head → head.parentRunId = parent
  counted : ∀ head, set.head = some head → head.count ≠ 0
  keyed : ∀ (id : String) (row : ProgramChildRelation),
    set.rows.find? id = some row → row.child.childRunId = id
  version : ∀ (id : String) (row : ProgramChildRelation),
    set.rows.find? id = some row → row.rowVersion.toNat ≤ set.epoch

theorem find?_default (id : String) : ({} : RelationSet).rows.find? id = none := rfl

theorem inv_default (parent : String) : Inv parent {} := by
  refine ⟨find?_default, ?_, ?_, ?_, ?_⟩
  · intro head h
    cases h
  · intro head h
    cases h
  all_goals
    intro id row h
    rw [find?_default] at h
    cases h

theorem Follows.refl (set : RelationSet) : Follows set set where
  epoch := .inl rfl
  changed _ _ h := .inl h
  kept _ _ h := by rw [h]; rfl
  closed h := h

/-! ## Adding a row -/

variable {parent ownerScope : String} {set : RelationSet} {head newHead : ProgramChildRelationHead}
  {row : ProgramChildRelation}

/-- The head that a plan starts from, in a parent without rows the empty one. -/
structure Base (parent : String) (set : RelationSet) (head : ProgramChildRelationHead) : Prop where
  agrees : HeadAgrees head set.rows
  parent_eq : head.parentRunId = parent
  epoch : head.epoch.toNat = set.epoch
  closed : head.closed = set.closed

variable {rows : SortedMap String ProgramChildRelation}

theorem headAgrees_of_no_rows (h : ∀ id, rows.find? id = none) (hc : head.count = 0)
    (hop : head.openCount = 0) (hcm : head.committedBudget = {}) :
    HeadAgrees head rows where
  count := by
    rw [hc, SortedMap.sumBy_eq_zero h]
    rfl
  ordinals n := by
    rw [hc]
    constructor
    · intro hn
      exact absurd hn (not_lt_zero n)
    · rintro ⟨id, row, hr, -⟩
      rw [h id] at hr
      cases hr
  unique id id' row row' hr := by
    rw [h id] at hr
    cases hr
  openCount := by
    rw [hop, SortedMap.sumBy_eq_zero h]
    rfl
  reserves id row hr := by
    rw [h id] at hr
    cases hr
  committed f := by
    rw [hcm, SortedMap.sumBy_eq_zero h]
    cases f <;> rfl

theorem Inv.base (hs : Inv parent set)
    (h : relationHeadOrEmpty set.head ownerScope parent = some head) : Base parent set head := by
  have hag := hs.agrees
  unfold Agrees at hag
  unfold relationHeadOrEmpty at h
  cases hhd : set.head with
  | some stored =>
    rw [hhd] at h hag
    cases h
    refine ⟨hag, hs.parent_eq _ hhd, ?_, ?_⟩
    · unfold epoch
      rw [hhd]
      rfl
    · unfold closed
      rw [hhd]
      rfl
  | none =>
    rw [hhd] at h hag
    obtain ⟨rfl, -⟩ := ProgramChildRelationHead.create_eq_some h
    refine ⟨headAgrees_of_no_rows hag rfl rfl rfl, rfl, ?_, ?_⟩
    · unfold epoch
      rw [hhd]
      rfl
    · unfold closed
      rw [hhd]
      rfl

theorem sumBy_insert_new {id : String} (h : rows.find? id = none) (row : ProgramChildRelation)
    (f : String → ProgramChildRelation → ℕ) :
    (rows.insert id row).sumBy f = rows.sumBy f + f id row := by
  have hsm := rows.sumBy_insert id row f
  rw [h] at hsm
  exact hsm

theorem openCount_lt (h : HeadAgrees head rows) (hc : head.count ≠ BitVec.allOnes 64) :
    head.openCount ≠ BitVec.allOnes 64 := by
  intro hm
  have hle : head.openCount.toNat ≤ head.count.toNat := by
    rw [h.openCount, h.count]
    refine SortedMap.sumBy_le_sumBy _ fun _ row => ?_
    split
    · exact le_rfl
    · exact zero_le _
  rw [hm, BitVec.toNat_allOnes] at hle
  refine hc (BitVec.eq_of_toNat_eq ?_)
  rw [BitVec.toNat_allOnes]
  have := head.count.isLt
  omega

variable {reservation : RunBudget}

/-- **An added row is counted**, by every part of the head. -/
theorem headAgrees_insert (h : HeadAgrees head rows)
    (hno : rows.find? row.child.childRunId = none) (ho : row.ordinal = head.count)
    (hm : head.count ≠ BitVec.allOnes 64) (hcount_eq : newHead.count = head.count + 1)
    (hop : newHead.openCount = if row.isOpen then head.openCount + 1 else head.openCount)
    (hrsv : childPermanentReservation row.child.invocation.grantedBudget = some reservation)
    (hsm : ∀ f, newHead.committedBudget.amount f = head.committedBudget.amount f
      + reservation.amount f) :
    HeadAgrees newHead (rows.insert row.child.childRunId row) := by
  have hc : newHead.count.toNat = head.count.toNat + 1 := by
    rw [hcount_eq]
    exact toNat_add_one_of_ne hm
  have hbl : ∀ id old, rows.find? id = some old → old.ordinal.toNat < head.count.toNat :=
    fun id old hold => (h.ordinals _).mpr ⟨id, old, hold, rfl⟩
  have hs : ∀ id old, rows.find? id = some old →
      (rows.insert row.child.childRunId row).find? id = some old := by
    intro id old hold
    have hne : id ≠ row.child.childRunId := by
      rintro rfl
      rw [hno] at hold
      cases hold
    rw [SortedMap.find?_insert_of_ne _ hne]
    exact hold
  refine ⟨?_, ?_, ?_, ?_, ?_, ?_⟩
  · rw [hc, h.count, sumBy_insert_new hno]
  · intro n
    rw [hc]
    constructor
    · intro hn
      by_cases hn' : n < head.count.toNat
      · obtain ⟨id, old, hold, hn⟩ := (h.ordinals n).mp hn'
        exact ⟨id, old, hs id old hold, hn⟩
      · refine ⟨row.child.childRunId, row, SortedMap.find?_insert_self _ _ _, ?_⟩
        rw [ho]
        omega
    · rintro ⟨id, old, hold, rfl⟩
      obtain ⟨-, rfl⟩ | hold := SortedMap.find?_insert_cases hold
      · rw [ho]
        exact lt_succ_self _
      · exact lt_succ_of_lt (hbl id old hold)
  · intro id id' old old' hold hold' heq
    obtain ⟨hid, hr⟩ | hb := SortedMap.find?_insert_cases hold
    · obtain ⟨hid', -⟩ | hb' := SortedMap.find?_insert_cases hold'
      · rw [hid, hid']
      · have hlt := hbl id' old' hb'
        rw [← heq, hr, ho] at hlt
        exact absurd hlt (lt_irrefl _)
    · obtain ⟨-, hr'⟩ | hb' := SortedMap.find?_insert_cases hold'
      · have hlt := hbl id old hb
        rw [heq, hr', ho] at hlt
        exact absurd hlt (lt_irrefl _)
      · exact h.unique id id' old old' hb hb' heq
  · rw [sumBy_insert_new hno, ← h.openCount, hop]
    split
    · exact toNat_add_one_of_ne (openCount_lt h hm)
    · rfl
  · intro id old hold
    obtain ⟨-, rfl⟩ | hold := SortedMap.find?_insert_cases hold
    · rw [hrsv]
      rfl
    · exact h.reserves id old hold
  · intro f
    have hrs : row.reserved f = reservation.amount f := by
      unfold ProgramChildRelation.reserved
      rw [hrsv]
      rfl
    rw [sumBy_insert_new hno, ← h.committed f, hrs]
    exact hsm f

variable {run : ProgramRunRecord} {journal : ProgramJournalRecord}

theorem headAgrees_added (h : HeadAgrees head rows) (hn : rows.find? row.child.childRunId = none)
    (had : RowAdded ownerScope parent run journal head row newHead) :
    HeadAgrees newHead (rows.insert row.child.childRunId row) := by
  obtain ⟨limit, reservation, -, hr, hsm, -⟩ :=
    childRelationInsertAdmits_eq_some had.admits
  refine headAgrees_insert h hn ?_ had.count ?_ ?_ hr hsm
  · rw [had.row_eq]
  · rw [had.head_eq]
  · rw [had.isOpen, if_pos rfl, had.head_eq]

/-- **A row is written with its head**, which agrees with the rows after it and
has the next epoch. -/
theorem inv_write (hs : Inv parent set)
    (hag : HeadAgrees newHead (set.rows.insert row.child.childRunId row))
    (hp : newHead.parentRunId = parent) (hc : newHead.count ≠ 0)
    (hep : newHead.epoch.toNat = set.epoch + 1) (hv : row.rowVersion.toNat ≤ set.epoch + 1)
    (hr : RowFollows set row.child.childRunId row)
    (hcl : set.closed = true → newHead.closed = true) :
    newHead.parentRunId = parent ∧ newHead.epoch.toNat = set.epoch + 1
      ∧ Inv parent (set.write row newHead) ∧ Follows set (set.write row newHead) := by
  refine ⟨hp, hep, ⟨hag, ?_, ?_, ?_, ?_⟩, ⟨.inr ?_, ?_, ?_, hcl⟩⟩
  · rintro _ ⟨⟩
    exact hp
  · rintro _ ⟨⟩
    exact hc
  · intro id new hn
    obtain ⟨rfl, rfl⟩ | hold := SortedMap.find?_insert_cases hn
    · rfl
    · exact hs.keyed id new hold
  · intro id new hn
    show new.rowVersion.toNat ≤ newHead.epoch.toNat
    rw [hep]
    obtain ⟨-, rfl⟩ | hold := SortedMap.find?_insert_cases hn
    · exact hv
    · exact le_succ_of_le (hs.version id new hold)
  · show set.epoch < newHead.epoch.toNat
    rw [hep]
    exact lt_succ_self _
  · intro id new hn
    obtain ⟨rfl, rfl⟩ | hold := SortedMap.find?_insert_cases hn
    · exact hr
    · exact .inl hold
  · exact fun id old hold => SortedMap.isSome_find?_insert hold _ _

/-- A row is added with its head. -/
theorem inv_added (hs : Inv parent set)
    (hb : Base parent set head) (hn : set.rows.find? row.child.childRunId = none)
    (had : RowAdded ownerScope parent run journal head row newHead) :
    newHead.parentRunId = parent ∧ newHead.epoch.toNat = set.epoch + 1
      ∧ Inv parent (set.write row newHead) ∧ Follows set (set.write row newHead) := by
  have hv : row.rowVersion = 1 := by rw [had.row_eq]
  refine inv_write hs (headAgrees_added hb.agrees hn had) ?_ ?_ ?_ ?_
    (.inr (.inl ⟨hn, hb.closed ▸ had.closed, hv⟩)) fun hcl => ?_
  · rw [had.head_eq]
    exact hb.parent_eq
  · intro hz
    have hc := toNat_add_one_of_ne had.count
    rw [had.head_eq] at hz
    dsimp only at hz
    rw [hz] at hc
    exact absurd hc.symm (succ_ne_zero _)
  · rw [had.head_eq, ← hb.epoch]
    exact toNat_add_one_of_ne had.epoch
  · rw [hv]
    exact succ_le_succ (zero_le _)
  · rw [← hb.closed, had.closed] at hcl
    cases hcl

/-! ## Changing a row -/

variable {old : ProgramChildRelation}

theorem metadata_of_same {lhs rhs : ProgramChildRecord} (h : sameChildMetadata lhs rhs = true) :
    lhs.childRunId = rhs.childRunId ∧ lhs.invocation = rhs.invocation := by
  unfold sameChildMetadata at h
  simp only [Bool.and_eq_true, decide_eq_true_eq] at h
  exact ⟨h.1.1.1, h.2⟩

theorem ordinal_of_changed (h : RowChanged head old row newHead) : row.ordinal = old.ordinal := by
  rw [h.row_eq]

theorem reserved_of_changed (h : RowChanged head old row newHead) (f : BudgetField) :
    row.reserved f = old.reserved f := by
  unfold ProgramChildRelation.reserved
  rw [(metadata_of_same h.metadata).2]

/-- **A changed row stays counted once**, and as open only while it is. -/
theorem headAgrees_changed (h : HeadAgrees head rows)
    (hold : rows.find? row.child.childRunId = some old) (hchd : RowChanged head old row newHead) :
    HeadAgrees newHead (rows.insert row.child.childRunId row) := by
  have hc : newHead.count = head.count := by rw [hchd.head_eq]
  have hi := (metadata_of_same hchd.metadata).2
  have hsm : ∀ f : String → ProgramChildRelation → ℕ,
      (rows.insert row.child.childRunId row).sumBy f + f row.child.childRunId old
        = rows.sumBy f + f row.child.childRunId row := by
    intro f
    have := rows.sumBy_insert row.child.childRunId row f
    rw [hold] at this
    exact this
  have hcs : ∀ id new, (rows.insert row.child.childRunId row).find? id = some new →
      ∃ before, rows.find? id = some before ∧ new.ordinal = before.ordinal
        ∧ new.child.invocation = before.child.invocation := by
    intro id new hnew
    obtain ⟨rfl, rfl⟩ | hnew := SortedMap.find?_insert_cases hnew
    · exact ⟨old, hold, ordinal_of_changed hchd, hi.symm⟩
    · exact ⟨new, hnew, rfl, rfl⟩
  refine ⟨?_, ?_, ?_, ?_, ?_, ?_⟩
  · have := hsm fun _ _ => 1
    rw [hc, h.count]
    omega
  · intro n
    rw [hc]
    constructor
    · intro hn
      obtain ⟨id, before, hb, rfl⟩ := (h.ordinals n).mp hn
      by_cases hid : id = row.child.childRunId
      · rw [hid, hold] at hb
        cases hb
        refine ⟨row.child.childRunId, row, SortedMap.find?_insert_self _ _ _, ?_⟩
        rw [ordinal_of_changed hchd]
      · refine ⟨id, before, ?_, rfl⟩
        rw [SortedMap.find?_insert_of_ne _ hid]
        exact hb
    · rintro ⟨id, new, hnew, rfl⟩
      obtain ⟨before, hb, ho, -⟩ := hcs id new hnew
      exact (h.ordinals _).mpr ⟨id, before, hb, by rw [ho]⟩
  · intro id id' new new' hnew hnew' heq
    obtain ⟨before, hb, ho, -⟩ := hcs id new hnew
    obtain ⟨before', hb', ho', -⟩ := hcs id' new' hnew'
    exact h.unique id id' before before' hb hb' (ho ▸ ho' ▸ heq)
  · have hop := hsm fun _ row => if row.isOpen then 1 else 0
    rw [if_pos hchd.isOpen, ← h.openCount] at hop
    rw [hchd.head_eq]
    dsimp only
    cases hr : row.isOpen with
    | true =>
      rw [hr, if_pos rfl] at hop
      rw [Bool.not_true, Bool.and_false, if_neg Bool.false_ne_true]
      omega
    | false =>
      rw [hr, if_neg Bool.false_ne_true] at hop
      have hp : (1 : BitVec 64) ≤ head.openCount := by
        rw [BitVec.le_def]
        show 1 ≤ head.openCount.toNat
        omega
      rw [Bool.not_false, Bool.and_true, if_pos hchd.isOpen, BitVec.toNat_sub_of_le hp]
      show head.openCount.toNat - 1 = _
      omega
  · intro id new hnew
    obtain ⟨before, hb, -, heq⟩ := hcs id new hnew
    rw [heq]
    exact h.reserves id before hb
  · intro f
    have := hsm fun _ row => row.reserved f
    rw [reserved_of_changed hchd f] at this
    have hcm : newHead.committedBudget = head.committedBudget := by
      rw [hchd.head_eq]
    rw [hcm, h.committed f]
    omega

/-- The epoch of a changed head does not wrap: the head would be below its
count. -/
theorem epoch_ne_of_changed (h : HeadAgrees head rows)
    (hold : rows.find? row.child.childRunId = some old) (hchd : RowChanged head old row newHead) :
    head.epoch ≠ BitVec.allOnes 64 := by
  intro hm
  have hlt : old.ordinal.toNat < head.count.toNat := (h.ordinals _).mpr ⟨_, old, hold, rfl⟩
  have hle := count_le_epoch hchd.valid
  rw [hchd.head_eq] at hle
  dsimp only at hle
  rw [hm, BitVec.le_def] at hle
  have hz : (BitVec.allOnes 64 + 1).toNat = 0 := by decide
  omega

/-- A row and its head change together. -/
theorem inv_changed (hs : Inv parent set) (hb : Base parent set head)
    (hold : set.rows.find? row.child.childRunId = some old)
    (hchd : RowChanged head old row newHead) :
    newHead.parentRunId = parent ∧ newHead.epoch.toNat = set.epoch + 1
      ∧ Inv parent (set.write row newHead) ∧ Follows set (set.write row newHead) := by
  have hep : newHead.epoch.toNat = set.epoch + 1 := by
    rw [hchd.head_eq, ← hb.epoch]
    exact toNat_add_one_of_ne (epoch_ne_of_changed hb.agrees hold hchd)
  have hversion_le := hs.version _ old hold
  have hv : row.rowVersion.toNat = old.rowVersion.toNat + 1 := by
    rw [hchd.row_eq]
    refine toNat_add_one_of_ne fun hm => ?_
    rw [hm, BitVec.toNat_allOnes] at hversion_le
    have := newHead.epoch.isLt
    omega
  refine inv_write hs (headAgrees_changed hb.agrees hold hchd) ?_ ?_ hep
    (hv ▸ succ_le_succ hversion_le)
    (.inr (.inr ⟨old, hold, hchd.isOpen, hv, fun hcl =>
      hchd.dispatch (hb.closed.trans hcl)⟩)) fun hcl => ?_
  · rw [hchd.head_eq]
    exact hb.parent_eq
  · intro hz
    have hlt : old.ordinal.toNat < head.count.toNat :=
      (hb.agrees.ordinals _).mpr ⟨_, old, hold, rfl⟩
    rw [hchd.head_eq] at hz
    rw [hz] at hlt
    exact absurd hlt (not_lt_zero _)
  · rw [hchd.head_eq]
    exact hb.closed.trans hcl

/-! ## Closing a head -/

/-- The head is closed. -/
theorem inv_closed {journalId : String} (hs : Inv parent set) (hhd : set.head = some head)
    (hc : ProgramChildRelationHead.create
      { head with epoch := head.epoch + 1, closed := true, closedBy := journalId }
        = some newHead) :
    Inv parent { set with head := some newHead } ∧ Follows set { set with head := some newHead }
      ∧ newHead.parentRunId = parent := by
  obtain ⟨rfl, hv⟩ := ProgramChildRelationHead.create_eq_some hc
  have hag : HeadAgrees head set.rows := by
    have := hs.agrees
    unfold Agrees at this
    rw [hhd] at this
    exact this
  have hold : set.epoch = head.epoch.toNat := by
    unfold epoch
    rw [hhd]
    rfl
  have hne : head.epoch ≠ BitVec.allOnes 64 := by
    intro hm
    have hle := count_le_epoch hv
    dsimp only at hle
    rw [hm, BitVec.le_def] at hle
    have hz : (BitVec.allOnes 64 + 1).toNat = 0 := by decide
    refine hs.counted head hhd (BitVec.eq_of_toNat_eq ?_)
    show head.count.toNat = 0
    omega
  have hep := toNat_add_one_of_ne hne
  refine ⟨⟨⟨hag.count, hag.ordinals, hag.unique, hag.openCount, hag.reserves,
    hag.committed⟩, ?_, ?_, hs.keyed, ?_⟩, ⟨.inr ?_, fun _ _ h => .inl h, ?_, fun _ => rfl⟩,
    hs.parent_eq head hhd⟩
  · rintro _ ⟨⟩
    exact hs.parent_eq head hhd
  · rintro _ ⟨⟩
    exact hs.counted head hhd
  · intro id row hr
    show row.rowVersion.toNat ≤ (head.epoch + 1).toNat
    rw [hep, ← hold]
    exact le_succ_of_le (hs.version id row hr)
  · show set.epoch < (head.epoch + 1).toNat
    rw [hep, hold]
    exact lt_succ_self _
  · intro id row hr
    rw [hr]
    rfl

/-! ## Migrating rows -/

/-- What the migration has written so far. -/
structure Migrated (rows : SortedMap String ProgramChildRelation)
    (head : ProgramChildRelationHead) : Prop where
  agrees : HeadAgrees head rows
  keyed : ∀ (id : String) (row : ProgramChildRelation),
    rows.find? id = some row → row.child.childRunId = id
  version : ∀ (id : String) (row : ProgramChildRelation),
    rows.find? id = some row → row.rowVersion = 1

/-- A child reserves at least itself. -/
theorem one_le_reservation {granted : RunBudget}
    (h : childPermanentReservation granted = some reservation) :
    1 ≤ reservation.maxTotalChildren.toNat := by
  unfold childPermanentReservation at h
  split at h
  · cases h
  rename_i hgr
  cases h
  rw [toNat_add_one_of_ne hgr]
  exact succ_le_succ (zero_le _)

/-- So counting rows does not overflow. -/
theorem count_le_committed (h : HeadAgrees head rows) :
    head.count.toNat ≤ head.committedBudget.maxTotalChildren.toNat := by
  have hcm := h.committed .maxTotalChildren
  have hc : ∀ l : List (String × ProgramChildRelation), (∀ e ∈ l,
      (childPermanentReservation e.2.child.invocation.grantedBudget).isSome = true) →
      (l.map fun _ => 1).sum ≤ (l.map fun e => e.2.reserved .maxTotalChildren).sum := by
    intro l
    induction l with
    | nil => exact fun _ => le_rfl
    | cons e l ih =>
      intro hl
      obtain ⟨he, hl⟩ := forall_mem_cons.mp hl
      simp only [map_cons, sum_cons]
      refine Nat.add_le_add ?_ (ih hl)
      obtain ⟨reservation, hr⟩ := isSome_iff_exists.mp he
      unfold ProgramChildRelation.reserved
      rw [hr]
      exact one_le_reservation hr
  have hle := hc rows.entries fun e he =>
    h.reserves e.1 e.2 ((rows.mem_entries_iff e.1 e.2).mp he)
  calc head.count.toNat = rows.sumBy fun _ _ => 1 := h.count
    _ ≤ rows.sumBy fun _ row => row.reserved .maxTotalChildren := hle
    _ = _ := hcm.symm

/-- One child of a record of an earlier version is migrated. -/
theorem Migrated.insert (h : Migrated rows head)
    (row : ProgramChildRelation) (newHead : ProgramChildRelationHead)
    (hn : rows.find? row.child.childRunId = none) (ho : row.ordinal = head.count)
    (hv : row.rowVersion = 1) (hc : newHead.count = head.count + 1)
    (hop : newHead.openCount = if row.isOpen then head.openCount + 1 else head.openCount)
    (hr : childPermanentReservation row.child.invocation.grantedBudget = some reservation)
    (hsm : addPermanentBudget head.committedBudget reservation = some newHead.committedBudget) :
    Migrated (rows.insert row.child.childRunId row) newHead := by
  have hamt := amount_addPermanentBudget hr hsm
  have hm : head.count ≠ BitVec.allOnes 64 := by
    intro hm
    have hle := count_le_committed h.agrees
    rw [hm, BitVec.toNat_allOnes] at hle
    have hch : newHead.committedBudget.maxTotalChildren.toNat
        = head.committedBudget.maxTotalChildren.toNat + reservation.maxTotalChildren.toNat :=
      hamt .maxTotalChildren
    have hp := one_le_reservation hr
    have hlt := newHead.committedBudget.maxTotalChildren.isLt
    omega
  refine ⟨headAgrees_insert h.agrees hn ho hm hc hop hr hamt,
    fun id new hnew => ?_, fun id new hnew => ?_⟩
  · obtain ⟨rfl, rfl⟩ | hb := SortedMap.find?_insert_cases hnew
    · rfl
    · exact h.keyed id new hb
  · obtain ⟨-, rfl⟩ | hb := SortedMap.find?_insert_cases hnew
    · exact hv
    · exact h.version id new hb

variable {children : List ProgramChildRecord}

/-- **The rows that a migration plans agree with its head.** -/
theorem migrated_of_planLegacyRows {done planned : List ProgramChildRelation}
    (h : Migrated rows head) (hn : ∀ child ∈ children, rows.find? child.childRunId = none)
    (hnd : (children.map childRunId).Nodup)
    (hp : planLegacyRows run children head done = some (newHead, planned)) :
    ∃ new, planned = done ++ new ∧ Migrated (writeRows rows new) newHead
      ∧ newHead.parentRunId = head.parentRunId ∧ newHead.closed = head.closed
      ∧ newHead.closedBy = head.closedBy ∧ new.length = children.length := by
  induction children generalizing head rows done with
  | nil =>
    cases hp
    exact ⟨[], (append_nil _).symm, h, rfl, rfl, rfl, rfl⟩
  | cons child children ih =>
    unfold planLegacyRows at hp
    simp only [bind_eq_bind, bind_eq_some_iff] at hp
    obtain ⟨reservation, hrsv, aggregate, hagg, row, hrow, hp⟩ := hp
    obtain ⟨rfl, -⟩ := create_eq_some hrow
    rw [map_cons, nodup_cons] at hnd
    obtain ⟨hc, hch⟩ := forall_mem_cons.mp hn
    have hr : ∀ row : ProgramChildRelation, row.child = child → ∀ other ∈ children,
        (rows.insert row.child.childRunId row).find? other.childRunId = none := by
      intro row hrow other hot
      have hne : other.childRunId ≠ child.childRunId := fun heq =>
        hnd.1 (mem_map.mpr ⟨other, hot, heq⟩)
      rw [hrow, SortedMap.find?_insert_of_ne _ hne]
      exact hch other hot
    split_ifs at hp with hop
    · have hins := h.insert ⟨run.ownerScope, run.logicalRunId, head.count, child, 1⟩
        { head with
          committedBudget := aggregate, count := head.count + 1, epoch := head.epoch + 1
          openCount := head.openCount + 1 }
        hc rfl rfl rfl (if_pos hop).symm hrsv hagg
      obtain ⟨new, rfl, hmig, hpar, hcl, hclosedBy, hl⟩ :=
        ih hins (hr _ rfl) hnd.2 hp
      exact ⟨_ :: new, append_assoc _ _ _, hmig, hpar, hcl, hclosedBy,
        congrArg Nat.succ hl⟩
    · have hins := h.insert ⟨run.ownerScope, run.logicalRunId, head.count, child, 1⟩
        { head with
          committedBudget := aggregate, count := head.count + 1, epoch := head.epoch + 1 + 1 }
        hc rfl rfl rfl (if_neg hop).symm hrsv hagg
      obtain ⟨new, rfl, hmig, hpar, hcl, hclosedBy, hl⟩ :=
        ih hins (hr _ rfl) hnd.2 hp
      exact ⟨_ :: new, append_assoc _ _ _, hmig, hpar, hcl, hclosedBy,
        congrArg Nat.succ hl⟩

/-- The migration of a parent that has no rows. -/
theorem inv_migrated {rows : List ProgramChildRelation}
    (hs : Inv parent set) (he : set.head = none) (hpar : run.logicalRunId = parent)
    (hch : children ≠ []) (hv : validLegacyChildren run children = true)
    (hp : planLegacyRelations run children = some (newHead, rows)) :
    Inv parent { head := some newHead, rows := writeRows set.rows rows }
      ∧ Follows set { head := some newHead, rows := writeRows set.rows rows } := by
  have hn : ∀ id, set.rows.find? id = none := by
    have := hs.agrees
    unfold Agrees at this
    rw [he] at this
    exact this
  have hnd : (children.map childRunId).Nodup := by
    unfold validLegacyChildren at hv
    rw [Bool.and_eq_true, decide_eq_true_eq] at hv
    exact hv.1
  unfold planLegacyRelations at hp
  simp only [bind_eq_bind, bind_eq_some_iff] at hp
  obtain ⟨⟨head, planned⟩, hrs, created, hcreate, heq⟩ := hp
  cases heq
  obtain ⟨new, hpl, hmig, hhd, -, -, hl⟩ := migrated_of_planLegacyRows
    ⟨headAgrees_of_no_rows hn rfl rfl rfl, fun id row h => (by rw [hn id] at h; cases h),
      fun id row h => (by rw [hn id] at h; cases h)⟩
    (fun child _ => hn child.childRunId) hnd hrs
  rw [hpl, nil_append]
  obtain ⟨hcrt, hheadValid⟩ := ProgramChildRelationHead.create_eq_some hcreate
  -- closing the head changes neither its counts nor its sum
  have hsm : newHead.count = head.count ∧ newHead.openCount = head.openCount
      ∧ newHead.committedBudget = head.committedBudget
      ∧ newHead.parentRunId = head.parentRunId := by
    rw [hcrt]
    split <;> exact ⟨rfl, rfl, rfl, rfl⟩
  have hag : HeadAgrees newHead (writeRows set.rows new) := by
    have h := hmig.agrees
    exact ⟨hsm.1 ▸ h.count, hsm.1 ▸ h.ordinals, h.unique, hsm.2.1 ▸ h.openCount, h.reserves,
      hsm.2.2.1 ▸ h.committed⟩
  have hc : newHead.count ≠ 0 := by
    intro hz
    have hsum := hag.count
    cases new with
    | nil =>
      cases children with
      | nil => exact hch rfl
      | cons child children => cases hl
    | cons row new =>
      -- the last row that was written is in the map
      have hm : ∀ (l : List ProgramChildRelation) (m : SortedMap String ProgramChildRelation),
          (∃ id row, m.find? id = some row) → ∃ id row, (writeRows m l).find? id = some row := by
        intro l
        induction l with
        | nil => exact fun m h => h
        | cons row l ih =>
          intro m _
          exact ih _ ⟨row.child.childRunId, row, SortedMap.find?_insert_self _ _ _⟩
      obtain ⟨id, found, hf⟩ := hm new _
        ⟨row.child.childRunId, row, SortedMap.find?_insert_self set.rows _ _⟩
      have hlt := (hag.ordinals _).mpr ⟨id, found, hf, rfl⟩
      rw [hz] at hlt
      exact absurd hlt (not_lt_zero _)
  have hep : 1 ≤ newHead.epoch.toNat := by
    have hle := count_le_epoch (hcrt ▸ hheadValid)
    rw [BitVec.le_def] at hle
    have hpos : newHead.count.toNat ≠ 0 := fun hz => hc (BitVec.eq_of_toNat_eq hz)
    omega
  have hold : set.epoch = 0 := by
    unfold epoch
    rw [he]
    rfl
  refine ⟨⟨hag, ?_, ?_, hmig.keyed, ?_⟩, ⟨.inr ?_, ?_, ?_, ?_⟩⟩
  · rintro _ ⟨⟩
    rw [hsm.2.2.2, hhd]
    exact hpar
  · rintro _ ⟨⟩
    exact hc
  · intro id row hr
    rw [hmig.version id row hr]
    exact hep
  · rw [hold]
    exact hep
  · intro id row hr
    refine .inr (.inl ⟨hn id, ?_, hmig.version id row hr⟩)
    unfold closed
    rw [he]
    rfl
  · intro id row hr
    rw [hn id] at hr
    cases hr
  · intro hcl
    unfold closed at hcl
    rw [he] at hcl
    cases hcl

end RelationSet

/-! ## Every parent -/

namespace RelationSets

/-- What one change does to the rows of every parent. -/
def Step (sets sets' : RelationSets) : Prop :=
  ∀ parent, RelationSet.Inv parent (sets'.ofParent parent)
    ∧ RelationSet.Follows (sets.ofParent parent) (sets'.ofParent parent)

variable {sets : RelationSets} {ids : Identities} {ownerScope : String}

theorem ofParent_insert (sets : RelationSets) (parent other : String) (set : RelationSet) :
    ofParent (sets.insert parent set) other =
      if other = parent then set else sets.ofParent other := by
  unfold ofParent SortedMap.getD
  rw [SortedMap.find?_insert]
  split <;> rfl

theorem reads_relationHead (others : TransitionReads) (parent : String) :
    (sets.reads others).relationHead parent = (sets.ofParent parent).head := by
  show (sets.find? parent).bind _ = ((sets.find? parent).getD {}).head
  cases sets.find? parent with
  | none | some set => rfl

theorem reads_relationRow (others : TransitionReads) (parent child : String) :
    (sets.reads others).relationRow parent child = (sets.ofParent parent).rows.find? child := by
  show (sets.find? parent).bind _ = ((sets.find? parent).getD {}).rows.find? child
  cases sets.find? parent with
  | none | some set => rfl

/-- Every parent's rows are as they should be. -/
def Inv (sets : RelationSets) : Prop := ∀ parent, RelationSet.Inv parent (sets.ofParent parent)

theorem Inv.refl (hs : sets.Inv) : Step sets sets := fun parent =>
  ⟨hs parent, RelationSet.Follows.refl _⟩

variable {parent : String}

/-- The change of one parent. -/
theorem Inv.insert (hs : sets.Inv) {set : RelationSet} (hi : RelationSet.Inv parent set)
    (hf : RelationSet.Follows (sets.ofParent parent) set) :
    Step sets (SortedMap.insert sets parent set) := by
  intro other
  rw [ofParent_insert]
  split_ifs with heq
  · rw [heq]
    exact ⟨hi, hf⟩
  · exact ⟨hs other, RelationSet.Follows.refl _⟩

/-- What a plan writes: nothing, or one row of its parent with the head. -/
def Writes (sets : RelationSets) (parent : String) (changes : RelationChanges) : Prop :=
  changes = {} ∨ ∃ row head, changes = { relationRow := some row, relationHead := some head }
    ∧ head.parentRunId = parent ∧ head.epoch.toNat = (sets.ofParent parent).epoch + 1
    ∧ RelationSet.Inv parent ((sets.ofParent parent).write row head)
    ∧ RelationSet.Follows (sets.ofParent parent) ((sets.ofParent parent).write row head)

variable {others : TransitionReads} {fence : BitVec 64} {plan : RelationPlan}

/-- What an insertion writes. -/
theorem writes_of_insert (hs : sets.Inv) {child : ProgramChildRecord} {advance : Bool}
    (h : planRelationInsert ids (sets.reads others) ownerScope parent fence child advance
      = some plan) :
    Writes sets parent plan.changes := by
  unfold RelationPlan.changes
  by_cases happ : plan.status = .applied
  · rw [if_pos happ]
    obtain ⟨run, journal, head, row, newHead, -, hhd, rfl, hcs⟩ :=
      planRelationInsert_applied h happ
    rw [reads_relationHead] at hhd
    have hb := (hs parent).base hhd
    refine .inr ⟨row, newHead, rfl, ?_⟩
    obtain ⟨hn, had⟩ | ⟨old, hold, hchd⟩ := hcs
    · rw [reads_relationRow] at hn
      exact RelationSet.inv_added (hs parent) hb hn had
    rw [reads_relationRow] at hold
    have hk : row.child.childRunId = child.childRunId :=
      (RelationSet.metadata_of_same hchd.metadata).1.symm.trans
        ((hs parent).keyed _ old hold)
    exact RelationSet.inv_changed (hs parent) hb (hk ▸ hold) hchd
  · rw [if_neg happ]
    exact .inl rfl

/-- What a change writes. -/
theorem writes_of_update (hs : sets.Inv)
    {version : Option (BitVec 64)} {next : ProgramChildRecord} {pending : Option ProgramRunRecord}
    (h : planRelationUpdate ids (sets.reads others) ownerScope parent fence version next pending
      = some plan) :
    Writes sets parent plan.changes := by
  unfold RelationPlan.changes
  by_cases happ : plan.status = .applied
  · rw [if_pos happ]
    obtain ⟨head, old, row, newHead, hhd, hold, rfl, hchd⟩ :=
      planRelationUpdate_applied h happ
    rw [reads_relationHead] at hhd
    rw [reads_relationRow] at hold
    have hb : relationHeadOrEmpty (sets.ofParent parent).head ownerScope parent = some head := by
      rw [hhd]
      rfl
    have hb := (hs parent).base hb
    have hk : row.child.childRunId = next.childRunId :=
      (RelationSet.metadata_of_same hchd.metadata).1.symm.trans ((hs parent).keyed _ old hold)
    exact .inr ⟨row, newHead, rfl, RelationSet.inv_changed (hs parent) hb (hk ▸ hold) hchd⟩
  · rw [if_neg happ]
    exact .inl rfl

variable {changes : RelationChanges}

theorem step_of_writes (hs : sets.Inv) (h : Writes sets parent changes) :
    Step sets (sets.commitRelations changes) := by
  obtain rfl | ⟨row, head, rfl, rfl, -, hi, hf⟩ := h
  · exact hs.refl
  · exact hs.insert hi hf

/-! ## A publication -/

/-- The spawn or the completion of a publication writes the row of another
parent than its run. -/
def PartWrites (sets : RelationSets) (run : ProgramRunRecord) (changes : RelationChanges) : Prop :=
  changes = {} ∨ ∃ parent, parent ≠ run.logicalRunId ∧ Writes sets parent changes

section Publication

variable {others : TransitionReads} {runExists : Bool} {run : ProgramRunRecord} {journalId : String}
  {part : Option ProgramChildRelationPart} {spawned changes : RelationChanges}

theorem partWrites_of_spawnPart (hs : sets.Inv)
    (h : spawnPart ids (sets.reads others) ownerScope runExists run part = some spawned) :
    PartWrites sets run spawned := by
  unfold spawnPart at h
  split at h
  · cases h
    exact .inl rfl
  rename_i spawn hspawn
  unfold spawnChanges at h
  split at h
  · cases h
  rename_i hg
  simp only [Bool.or_eq_true, decide_eq_true_eq, not_or] at hg
  simp only [Option.bind_eq_bind, Option.bind_eq_some_iff] at h
  obtain ⟨plan, hp, h⟩ := h
  split at h
  · cases h
  · cases h
    exact .inr ⟨_, hg.1.1.2, writes_of_insert hs hp⟩

theorem partWrites_of_completionPart (hs : sets.Inv) (hspawned : PartWrites sets run spawned)
    (h : completionPart ids (sets.reads others) ownerScope runExists run part spawned
      = some changes) : PartWrites sets run changes := by
  unfold completionPart at h
  split at h
  · cases h
    exact hspawned
  rename_i completion hcompletion
  rw [Option.map_eq_some_iff] at h
  obtain ⟨completed, hc, rfl⟩ := h
  split
  · unfold completionChanges at hc
    split at hc
    · cases hc
    rename_i hg
    simp only [Bool.or_eq_true, decide_eq_true_eq, not_or] at hg
    rw [Option.map_eq_some_iff] at hc
    obtain ⟨plan, hp, rfl⟩ := hc
    exact .inr ⟨_, hg.1.2, writes_of_update hs hp⟩
  · exact hspawned

theorem closePart_eq_some {closed : ProgramChildRelationHead}
    (h : closePart (sets.reads others) run journalId = some (some closed)) :
    ∃ head, (sets.ofParent run.logicalRunId).head = some head
      ∧ ProgramChildRelationHead.create
        { head with epoch := head.epoch + 1, closed := true, closedBy := journalId }
          = some closed := by
  unfold closePart planRelationClose at h
  rw [reads_relationHead] at h
  split at h
  · split at h
    · cases h
    rename_i head hhd
    split at h
    · cases h
    rw [map_eq_some_iff] at h
    obtain ⟨created, hcrt, hcl⟩ := h
    cases hcl
    exact ⟨head, hhd, hcrt⟩
  · cases h

/-- The part of another parent leaves the rows of the run alone. -/
theorem ofParent_commitRelations (h : PartWrites sets run changes) :
    (sets.commitRelations changes).ofParent run.logicalRunId = sets.ofParent run.logicalRunId := by
  obtain rfl | ⟨parent, hp, rfl | ⟨row, head, rfl, rfl, -⟩⟩ := h
  · rfl
  · rfl
  · show ofParent (SortedMap.insert sets head.parentRunId _) _ = _
    rw [ofParent_insert, if_neg hp.symm]

theorem step_of_partWrites (hs : sets.Inv) (h : PartWrites sets run changes) :
    Step sets (sets.commitRelations changes) := by
  obtain rfl | ⟨parent, -, hws⟩ := h
  · exact hs.refl
  · exact step_of_writes hs hws

variable {head : ProgramChildRelationHead}

/-- A row that is written raises the epoch of its parent. -/
theorem epoch_lt_of_writes {parent : String}
    (h : Writes sets parent changes) (hhd : changes.relationHead = some head) :
    head.parentRunId = parent ∧
      (sets.ofParent parent).epoch < ((sets.commitRelations changes).ofParent parent).epoch := by
  obtain rfl | ⟨row, written, rfl, rfl, hep, -⟩ := h
  · cases hhd
  cases hhd
  refine ⟨rfl, ?_⟩
  show _ < RelationSet.epoch (ofParent (SortedMap.insert sets head.parentRunId _) _)
  rw [ofParent_insert, if_pos rfl]
  show _ < head.epoch.toNat
  rw [hep]
  exact lt_succ_self _

/-- A publication closes nothing, or the head of its run after its other
part. -/
theorem commitRelations_closed (h : PartWrites sets run changes)
    (closed : Option ProgramChildRelationHead) :
    sets.commitRelations { changes with closedRelationHead := closed }
        = sets.commitRelations changes
      ∨ ∃ head, closed = some head ∧
        sets.commitRelations { changes with closedRelationHead := closed }
          = (sets.commitRelations changes).commitClosed head := by
  have hn : changes.closedRelationHead = none := by
    obtain rfl | ⟨parent, -, rfl | ⟨row, head, rfl, -⟩⟩ := h <;> rfl
  cases closed with
  | none =>
    left
    unfold commitRelations
    rw [hn]
  | some head =>
    by_cases hc : SortedMap.contains sets head.parentRunId = true
    · refine .inr ⟨head, rfl, ?_⟩
      unfold commitRelations
      dsimp only
      rw [if_pos hc, hn]
    · left
      unfold commitRelations
      dsimp only
      rw [if_neg hc, hn]

/-- A publication writes the part of another parent, and then maybe closes the
head of its run. -/
theorem relationPartsBind_eq_some (hs : sets.Inv)
    (h : relationPartsBind ids (sets.reads others) ownerScope runExists run journalId part
      = some changes) :
    ∃ written, PartWrites sets run written ∧ changes.relationHead = written.relationHead ∧
      (sets.commitRelations changes = sets.commitRelations written
        ∨ ∃ old head, (sets.ofParent run.logicalRunId).head = some old
          ∧ ProgramChildRelationHead.create
            { old with epoch := old.epoch + 1, closed := true, closedBy := journalId } = some head
          ∧ sets.commitRelations changes = (sets.commitRelations written).commitClosed head) := by
  unfold relationPartsBind at h
  split at h
  · cases h
  simp only [bind_eq_bind, bind_eq_some_iff] at h
  obtain ⟨spawned, hspawned, completed, hc, closed, hcl, h⟩ := h
  cases h
  have hp := partWrites_of_completionPart hs (partWrites_of_spawnPart hs hspawned) hc
  refine ⟨completed, hp, rfl, ?_⟩
  obtain heq | ⟨head, rfl, heq⟩ := commitRelations_closed hp closed
  · exact .inl heq
  · obtain ⟨old, hold, hcrt⟩ := closePart_eq_some hcl
    exact .inr ⟨old, head, hold, hcrt, heq⟩

theorem step_of_publish (hs : sets.Inv)
    (h : relationPartsBind ids (sets.reads others) ownerScope runExists run journalId part
      = some changes) : Step sets (sets.commitRelations changes) := by
  obtain ⟨written, hp, -, heq | ⟨old, head, hold, hcrt, heq⟩⟩ :=
    relationPartsBind_eq_some hs h
  · rw [heq]
    exact step_of_partWrites hs hp
  · rw [heq]
    obtain ⟨hi, hf, hpar⟩ := RelationSet.inv_closed (hs run.logicalRunId) hold hcrt
    intro other
    unfold commitClosed
    rw [hpar, ofParent_insert, ofParent_commitRelations hp]
    split_ifs with hot
    · rw [hot]
      exact ⟨hi, hf⟩
    · exact step_of_partWrites hs hp other

theorem epoch_lt_of_publish (hs : sets.Inv)
    (h : relationPartsBind ids (sets.reads others) ownerScope runExists run journalId part
      = some changes) (hhd : changes.relationHead = some head) :
    (sets.ofParent head.parentRunId).epoch
      < ((sets.commitRelations changes).ofParent head.parentRunId).epoch := by
  obtain ⟨written, hp, hwr, heq⟩ := relationPartsBind_eq_some hs h
  rw [hwr] at hhd
  obtain rfl | ⟨parent, hpar, hws⟩ := hp
  · cases hhd
  obtain ⟨rfl, hlt⟩ := epoch_lt_of_writes hws hhd
  obtain heq | ⟨old, closed, hold, hcrt, heq⟩ := heq
  · rw [heq]
    exact hlt
  obtain ⟨-, -, hcl⟩ := RelationSet.inv_closed (hs run.logicalRunId) hold hcrt
  rw [heq]
  unfold commitClosed
  rw [hcl, ofParent_insert, if_neg hpar]
  exact hlt

end Publication

/-! ## Every sequence of changes -/

theorem step_of_migrate (hs : sets.Inv) (run : ProgramRunRecord)
    (children : List ProgramChildRecord) : Step sets (sets.migrate run children) := by
  unfold migrate
  split_ifs with hg
  · exact hs.refl
  rw [not_or, not_or, Bool.not_eq_false, Bool.not_eq_true, Option.isSome_eq_false_iff,
    isNone_iff_eq_none] at hg
  obtain ⟨hch, hv, he⟩ := hg
  split
  · exact hs.refl
  rename_i head rows hp
  obtain ⟨hi, hf⟩ :=
    RelationSet.inv_migrated (hs run.logicalRunId) he rfl hch hv hp
  exact hs.insert hi hf

variable {op : RelationOp}

theorem step_eq_of_changes (h : op.changes ids ownerScope sets = some changes) :
    sets.step ids ownerScope op = sets.commitRelations changes := by
  cases op with
  | migrate run children => cases h
  | _ =>
    unfold step
    dsimp only
    rw [h]

theorem step_of_changes (hs : sets.Inv) (h : op.changes ids ownerScope sets = some changes) :
    Step sets (sets.commitRelations changes) := by
  cases op with
  | migrate run children => cases h
  | insert others parentRunId fence child =>
    obtain ⟨plan, hp, rfl⟩ := Option.map_eq_some_iff.mp h
    exact step_of_writes hs (writes_of_insert hs hp)
  | update others parentRunId fence version next =>
    obtain ⟨plan, hp, rfl⟩ := Option.map_eq_some_iff.mp h
    exact step_of_writes hs (writes_of_update hs hp)
  | publish others runExists run journalId part => exact step_of_publish hs h

/-- **One change keeps every parent's head in agreement with its rows.** -/
theorem step_of_inv (hs : sets.Inv) (op : RelationOp) :
    Step sets (sets.step ids ownerScope op) := by
  cases hc : op.changes ids ownerScope sets with
  | some changes =>
    rw [step_eq_of_changes hc]
    exact step_of_changes hs hc
  | none =>
    cases op with
    | migrate run children => exact step_of_migrate hs run children
    | _ =>
      unfold step
      dsimp only
      rw [hc]
      exact hs.refl

/-- A change that writes a row raises the epoch of its parent. -/
theorem epoch_lt_of_changes (hs : sets.Inv) {head : ProgramChildRelationHead}
    (h : op.changes ids ownerScope sets = some changes) (hhd : changes.relationHead = some head) :
    (sets.ofParent head.parentRunId).epoch
      < ((sets.step ids ownerScope op).ofParent head.parentRunId).epoch := by
  rw [step_eq_of_changes h]
  cases op with
  | migrate run children => cases h
  | insert others parentRunId fence child =>
    obtain ⟨plan, hp, rfl⟩ := Option.map_eq_some_iff.mp h
    obtain ⟨rfl, hlt⟩ := epoch_lt_of_writes (writes_of_insert hs hp) hhd
    exact hlt
  | update others parentRunId fence version next =>
    obtain ⟨plan, hp, rfl⟩ := Option.map_eq_some_iff.mp h
    obtain ⟨rfl, hlt⟩ := epoch_lt_of_writes (writes_of_update hs hp) hhd
    exact hlt
  | publish others runExists run journalId part => exact epoch_lt_of_publish hs h hhd

theorem run_concat (ids : Identities) (ownerScope : String) (ops : List RelationOp)
    (op : RelationOp) :
    run ids ownerScope (ops ++ [op]) = (run ids ownerScope ops).step ids ownerScope op := by
  unfold run
  rw [foldl_append]
  rfl

theorem inv_run (ids : Identities) (ownerScope : String) (ops : List RelationOp) :
    (run ids ownerScope ops).Inv := by
  induction ops using reverseRecOn with
  | nil => exact RelationSet.inv_default
  | append_singleton ops op ih =>
    intro parent
    rw [run_concat]
    exact (step_of_inv ih op parent).1

/-- **Heads and rows agree along every sequence of changes**: after any inserts,
updates, publications and migrations, by any callers and whatever happens to
runs in between, the head of every parent counts and sums its rows; and each
change raises the epoch, loses no row, writes only new rows and open ones, and
lets nothing new start under a parent that is closed. -/
theorem agrees_run (ids : Identities) (ownerScope : String) (ops : List RelationOp)
    (parent : String) :
    ((run ids ownerScope ops).ofParent parent).Agrees
      ∧ ∀ before op, before ++ [op] <+: ops →
        RelationSet.Follows ((run ids ownerScope before).ofParent parent)
            ((run ids ownerScope (before ++ [op])).ofParent parent)
        ∧ ∀ changes head, op.changes ids ownerScope (run ids ownerScope before) = some changes →
          changes.relationHead = some head → head.parentRunId = parent →
          ((run ids ownerScope before).ofParent parent).epoch
            < ((run ids ownerScope (before ++ [op])).ofParent parent).epoch := by
  refine ⟨(inv_run ids ownerScope ops parent).agrees, ?_⟩
  intro before op _
  have hi := inv_run ids ownerScope before
  rw [run_concat]
  refine ⟨(step_of_inv hi op parent).2, ?_⟩
  rintro changes head hc hhd rfl
  exact epoch_lt_of_changes hi hc hhd

end RelationSets

end NeoGraph.Program

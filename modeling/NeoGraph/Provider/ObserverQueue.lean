import Mathlib

/-!
# The queue of a stream observer

A callback of the transport retains the events of a stream, and the consumer
drains them in batches and hands them to the observer one by one. What is
retained counts against a limit of events and one of bytes: each event is
charged for what it owns, a document that events share is charged once, and the
memory of the containers counts as well.

An event is reserved with an estimate before anything is allocated, and charged
with what it owns afterwards; where an allocation fails, what was reserved is
given back, and the stream ends there. Every subtraction and every lookup that
the code takes for granted is checked here, so a run that goes wrong is
`.error .undefined`. `accounts_exactly` says that none does.
-/

namespace NeoGraph.Provider.ObserverQueue

open Function List Bool Nat

/-! ## Sizes and events -/

def sizeMax : ℕ := 2 ^ 64 - 1

/-- Addition stops at the largest number. -/
def sizeSum (a b : ℕ) : ℕ := if sizeMax - a < b then sizeMax else a + b

theorem sizeSum_of_le {a b : ℕ} (h : a + b ≤ sizeMax) : sizeSum a b = a + b :=
  if_neg (by omega)

/-- The limits of a queue, the sizes that the compiler fixes, and the size of
each document. -/
structure Layout (D : Type) where
  maxEvents : ℕ
  maxBytes : ℕ
  maxBytes_le : maxBytes ≤ sizeMax
  ownedEvent : ℕ
  string : ℕ
  documentPointer : ℕ
  /-- A node of the table of documents. -/
  node : ℕ
  retainedBytes : D → ℕ

/-- What an entry of the table of documents is charged. -/
def Layout.documentBytes {D : Type} (l : Layout D) (d : D) : ℕ :=
  sizeSum (l.retainedBytes d) l.documentPointer

/-- An event of the stream, as its callback sees it. -/
structure Event (D : Type) where
  document : Option D
  memberBytes : ℕ
  borrowedPayload : ℕ

/-- An event that was copied for the observer. -/
structure OwnedEvent (D : Type) where
  /-- Which event of the stream it is. -/
  place : ℕ
  document : Option D
  charge : ℕ

/-- A document that events share, with their number and its size. -/
structure RetainedDocument where
  references : ℕ
  bytes : ℕ

/-- What is counted, and the memory of the containers. -/
structure Accounts (D : Type) where
  retainedEvents : ℕ := 0
  retainedBytes : ℕ := 0
  allocatedBytes : ℕ := 0
  documents : D → Option RetainedDocument := fun _ => none
  /-- The buckets of the table of documents. -/
  buckets : ℕ := 0
  queueBytes : ℕ := 0
  batchBytes : ℕ := 0

/-- The state between the stream and its observer. -/
structure Bridge (D : Type) where
  abandoned : Bool := false
  resourceFailure : Bool := false
  accounts : Accounts D := {}
  events : List (OwnedEvent D) := []
  /-- The events of the draining batch that are not released. -/
  batch : List (OwnedEvent D) := []
  /-- The observer has been given the first of them. -/
  holding : Bool := false
  callbackError : Bool := false
  /-- The events that the observer was given. -/
  handed : List ℕ := []
  /-- How many events the stream had so far, and how many were retained. -/
  received : ℕ := 0
  kept : ℕ := 0

/-- What the allocator answers while an event is retained. -/
structure Allocations where
  /-- What the members and the payload of the copy take, if it can be made. -/
  owned : Option (ℕ × ℕ)
  node : Bool
  /-- New buckets for the table of documents. -/
  buckets : Option (ℕ × Bool)
  /-- A new buffer for the queue. -/
  queue : Option (ℕ × Bool)

/-- How an operation fails. -/
inductive Failure where
  | badAlloc
  /-- A subtraction underflows, or an entry is missing. -/
  | undefined
deriving DecidableEq

/-- Subtraction that must not underflow. -/
def sub (a b : ℕ) : Except Failure ℕ := if b ≤ a then .ok (a - b) else .error .undefined

theorem sub_add (a b : ℕ) : sub (a + b) b = .ok a := by
  unfold sub
  rw [if_pos (Nat.le_add_left b a), Nat.add_sub_cancel]

section Queue

variable {D : Type} [DecidableEq D] (l : Layout D)

/-! ## Memory of the containers -/

namespace Accounts

omit [DecidableEq D] in
/-- The memory resource of the containers. -/
def allocate (a : Accounts D) (bytes : ℕ) (succeeds : Bool) : Except Failure (Accounts D) :=
  let used := sizeSum a.retainedBytes a.allocatedBytes
  if l.maxBytes < used ∨ l.maxBytes - used < bytes ∨ succeeds = false then .error .badAlloc
  else .ok { a with allocatedBytes := a.allocatedBytes + bytes }

omit [DecidableEq D] in
/-- Memory is given back. -/
def deallocate (a : Accounts D) (bytes : ℕ) : Except Failure (Accounts D) := do
  let allocatedBytes ← sub a.allocatedBytes bytes
  .ok { a with allocatedBytes }

/-- A document comes into the table. -/
def emplace (a : Accounts D) (d : D) (o : Allocations) : Except Failure (Accounts D) := do
  let a ← a.allocate l l.node o.node
  let a ← match o.buckets with
    | none => .ok a
    | some (bytes, succeeds) => do
      let a' ← a.allocate l bytes succeeds
      let a' ← a'.deallocate a.buckets
      .ok { a' with buckets := bytes }
  .ok { a with documents := update a.documents d (some ⟨0, l.documentBytes d⟩) }

def erase (a : Accounts D) (d : D) : Except Failure (Accounts D) := do
  let a ← a.deallocate l.node
  .ok { a with documents := update a.documents d none }

omit [DecidableEq D] in
/-- The queue has room for one more event. -/
def pushBack (a : Accounts D) (o : Allocations) : Except Failure (Accounts D) :=
  match o.queue with
  | none => .ok a
  | some (bytes, succeeds) => do
    let a' ← a.allocate l bytes succeeds
    let a' ← a'.deallocate a.queueBytes
    .ok { a' with queueBytes := bytes }

/-- The event is not retained any more. -/
def releaseLocked (a : Accounts D) (e : OwnedEvent D) : Except Failure (Accounts D) := do
  let retainedBytes ← sub a.retainedBytes e.charge
  let retainedEvents ← sub a.retainedEvents 1
  let a := { a with retainedBytes, retainedEvents }
  match e.document with
  | none => .ok a
  | some d =>
    match a.documents d with
    | none => .error .undefined
    | some entry => do
      let references ← sub entry.references 1
      if references = 0 then do
        let retainedBytes ← sub a.retainedBytes entry.bytes
        { a with retainedBytes }.erase l d
      else .ok { a with documents := update a.documents d (some { entry with references }) }

/-- All events go, with the documents only they share. -/
def releaseAll : Accounts D → List (OwnedEvent D) → Except Failure (Accounts D)
  | a, [] => .ok a
  | a, e :: events => do
    let a ← a.releaseLocked l e
    a.releaseAll events

omit [DecidableEq D] in
/-- The document of an event, if it is not in the table. -/
def newDocument (a : Accounts D) (document : Option D) : Option D :=
  document.filter fun d => (a.documents d).isNone

def insertDocument (a : Accounts D) (o : Allocations) : Option D → Except Failure (Accounts D)
  | none => .ok a
  | some d => a.emplace l d o

def eraseInserted (a : Accounts D) : Option D → Except Failure (Accounts D)
  | none => .ok a
  | some d => a.erase l d

/-- The event that is in the queue is counted. -/
def count (a : Accounts D) (document : Option D) : Except Failure (Accounts D) :=
  let a := { a with retainedEvents := a.retainedEvents + 1 }
  match document with
  | none => .ok a
  | some d =>
    match a.documents d with
    | none => .error .undefined
    | some entry =>
      let entry := { entry with references := entry.references + 1 }
      .ok { a with documents := update a.documents d (some entry) }

end Accounts

/-! ## The queue -/

omit [DecidableEq D] in
/-- What an event takes, before it is copied. -/
def estimate (e : Event D) : ℕ :=
  sizeSum (sizeSum l.ownedEvent e.memberBytes) (sizeSum e.borrowedPayload l.string)

omit [DecidableEq D] in
/-- What the copy of an event is charged. -/
def ownedCharge (e : Event D) (o : Allocations) : Option ℕ :=
  match o.owned with
  | none => none
  | some (memberBytes, capacity) =>
    let charge := sizeSum (sizeSum l.ownedEvent memberBytes) (sizeSum capacity 1)
    if estimate l e < charge then none else some charge

namespace Bridge

omit [DecidableEq D] in
/-- What was reserved is given back, and the stream ends. -/
def fail (b : Bridge D) (charge : ℕ) : Except Failure (Bridge D) := do
  let retainedBytes ← sub b.accounts.retainedBytes charge
  .ok { b with resourceFailure := true, accounts := { b.accounts with retainedBytes } }

/-- An event is retained whose copy is made and charged. -/
def retainOwned (b : Bridge D) (e : Event D) (charge documentBytes : ℕ) (o : Allocations) :
    Except Failure (Bridge D) :=
  let inserted := b.accounts.newDocument e.document
  match b.accounts.insertDocument l o inserted with
  | .error .undefined => .error .undefined
  | .error .badAlloc => b.fail (charge + documentBytes)
  | .ok a =>
    match a.pushBack l o with
    | .error .undefined => .error .undefined
    | .error .badAlloc => do
      let a ← a.eraseInserted l inserted
      { b with accounts := a }.fail (charge + documentBytes)
    | .ok a => do
      let a ← a.count e.document
      .ok { b with
        accounts := a
        events := b.events ++ [⟨b.received, e.document, charge⟩]
        kept := b.kept + 1 }

/-- An event is retained for which room is reserved. -/
def retainReserved (b : Bridge D) (e : Event D) (documentBytes : ℕ) (o : Allocations) :
    Except Failure (Bridge D) :=
  match ownedCharge l e o with
  | none => b.fail (estimate l e + documentBytes)
  | some charge => do
    let retainedBytes ← sub b.accounts.retainedBytes (estimate l e - charge)
    { b with accounts := { b.accounts with retainedBytes } }.retainOwned l e charge documentBytes o

/-- The callback of an event, but for its count. -/
def retainEvent (b : Bridge D) (e : Event D) (o : Allocations) : Except Failure (Bridge D) :=
  if b.abandoned || b.resourceFailure then .ok b
  else
    let documentBytes := (b.accounts.newDocument e.document).elim 0 l.documentBytes
    let used := sizeSum b.accounts.retainedBytes b.accounts.allocatedBytes
    let available := if used ≤ l.maxBytes then l.maxBytes - used else 0
    if l.maxEvents ≤ b.accounts.retainedEvents ∨ l.maxBytes < used ∨ available < documentBytes
        ∨ available - documentBytes < estimate l e then
      .ok { b with resourceFailure := true }
    else
      retainReserved l { b with accounts := { b.accounts with
        retainedBytes := b.accounts.retainedBytes + (estimate l e + documentBytes) } } e
        documentBytes o

/-- **The callback of an event.** -/
def retain (b : Bridge D) (e : Event D) (o : Allocations) : Except Failure (Bridge D) := do
  let b ← b.retainEvent l e o
  .ok { b with received := b.received + 1 }

omit [DecidableEq D] in
/-- The buffer of a batch that is released is freed. -/
def free (b : Bridge D) : Except Failure (Bridge D) :=
  match b.batch with
  | _ :: _ => .ok b
  | [] => do
    let a ← b.accounts.deallocate b.accounts.batchBytes
    .ok { b with accounts := { a with batchBytes := 0 } }

omit [DecidableEq D] in
/-- The consumer takes all that is queued. -/
def drain (b : Bridge D) : Except Failure (Bridge D) :=
  match b.batch with
  | _ :: _ => .ok b
  | [] => do
    let b ← b.free
    .ok { b with
      accounts := { b.accounts with batchBytes := b.accounts.queueBytes, queueBytes := 0 }
      batch := b.events
      events := [] }

omit [DecidableEq D] in
/-- The observer is given the next event of the batch. -/
def hand (b : Bridge D) (throws : Bool) : Bridge D :=
  match b.batch with
  | [] => b
  | e :: _ =>
    if b.holding || b.callbackError then b
    else { b with handed := b.handed ++ [e.place], holding := !throws, callbackError := throws }

/-- The event that the observer was given is released. -/
def release (b : Bridge D) : Except Failure (Bridge D) :=
  match b.holding, b.batch with
  | true, e :: batch => do
    let a ← b.accounts.releaseLocked l e
    .ok { b with accounts := a, batch := batch, holding := false }
  | _, _ => .ok b

/-- After the observer threw, the rest of the batch is released. -/
def releaseBatch (b : Bridge D) : Except Failure (Bridge D) :=
  if b.callbackError then do
    let a ← b.accounts.releaseAll l b.batch
    .ok { b with accounts := a, batch := [] }
  else .ok b

/-- The stream gives up, and drops what is queued. -/
def abandon (b : Bridge D) : Except Failure (Bridge D) := do
  let a ← b.accounts.releaseAll l b.events
  .ok { b with abandoned := true, accounts := a, events := [] }

end Bridge

/-- An operation of the stream or of the observer. -/
inductive Op (D : Type) where
  | retain (e : Event D) (o : Allocations)
  | drain
  | hand (throws : Bool)
  | release
  | releaseBatch
  | free
  | abandon

namespace Bridge

/-- An operation on the bridge. -/
def step (b : Bridge D) : Op D → Except Failure (Bridge D)
  | .retain e o => b.retain l e o
  | .drain => b.drain
  | .hand throws => .ok (b.hand throws)
  | .release => b.release l
  | .releaseBatch => b.releaseBatch l
  | .free => b.free
  | .abandon => b.abandon l

def run : Bridge D → List (Op D) → Except Failure (Bridge D)
  | b, [] => .ok b
  | b, op :: ops => do
    let b ← b.step l op
    b.run ops

end Bridge

/-! ## What the accounts say -/

omit [DecidableEq D] in
/-- The documents of events, one for each event that has one. -/
def references (L : List (OwnedEvent D)) : List D := L.filterMap OwnedEvent.document

/-- The table of the documents that events share. -/
def table (L : List (OwnedEvent D)) (d : D) : Option RetainedDocument :=
  if d ∈ references L then some ⟨(references L).count d, l.documentBytes d⟩ else none

/-- What events own, and the documents they share, once each. -/
def charges (L : List (OwnedEvent D)) : ℕ :=
  (L.map OwnedEvent.charge).sum + ∑ d ∈ (references L).toFinset, l.documentBytes d

namespace Accounts

/-- The bytes of the containers are counted, and within the limit. -/
structure Memory (a : Accounts D) (nodes : ℕ) : Prop where
  allocated : a.allocatedBytes = nodes * l.node + a.buckets + a.queueBytes + a.batchBytes
  within : a.retainedBytes + a.allocatedBytes ≤ l.maxBytes

/-- **The accounts are exact** for the events that are retained, and what is
reserved. -/
structure Exact (a : Accounts D) (L : List (OwnedEvent D)) (reserved : ℕ) : Prop where
  events : a.retainedEvents = L.length
  limited : a.retainedEvents ≤ l.maxEvents
  bytes : a.retainedBytes = charges l L + reserved
  documents : a.documents = table l L
  memory : a.Memory l (references L).toFinset.card

end Accounts

variable {l} {a a' : Accounts D} {L L' : List (OwnedEvent D)} {e : OwnedEvent D} {r : ℕ}

theorem table_perm (h : L.Perm L') : table l L = table l L' := by
  have href : (references L).Perm (references L') := h.filterMap _
  funext d
  unfold table
  rw [href.count_eq d]
  exact if_congr href.mem_iff rfl rfl

theorem charges_perm (h : L.Perm L') : charges l L = charges l L' := by
  have href : (references L).Perm (references L') := h.filterMap _
  unfold charges
  rw [(h.map OwnedEvent.charge).sum_eq, toFinset_eq_of_perm _ _ href]

theorem Accounts.Exact.perm (h : a.Exact l L r) (hp : L.Perm L') : a.Exact l L' r where
  events := h.events.trans hp.length_eq
  limited := h.limited
  bytes := by rw [← charges_perm hp, h.bytes]
  documents := h.documents.trans (table_perm hp)
  memory := by
    have href : (references L).Perm (references L') := hp.filterMap _
    rw [← toFinset_eq_of_perm _ _ href]
    exact h.memory

omit [DecidableEq D] in
theorem references_cons_none (h : e.document = none) : references (e :: L) = references L :=
  filterMap_cons_none h

variable {d : D}

omit [DecidableEq D] in
theorem references_cons_some (h : e.document = some d) : references (e :: L) = d :: references L :=
  filterMap_cons_some h

theorem table_cons_some (h : e.document = some d) : table l (e :: L) = update (table l L) d
      (some ⟨(references L).count d + 1, l.documentBytes d⟩) := by
  funext d'
  rw [update_apply]
  unfold table
  rw [references_cons_some h]
  split
  · rename_i hm
    by_cases heq : d' = d
    · rw [heq, if_pos rfl, count_cons_self]
    · rw [if_neg heq, if_pos ((mem_cons.mp hm).resolve_left heq), count_cons_of_ne (Ne.symm heq)]
  · rename_i hm
    obtain ⟨hne, hm⟩ := not_or.mp (mt mem_cons.mpr hm)
    rw [if_neg hne, if_neg hm]

theorem table_of_notMem (h : d ∉ references L) : table l L d = none := if_neg h

theorem table_of_mem (h : d ∈ references L) :
    table l L d = some ⟨(references L).count d, l.documentBytes d⟩ := if_pos h

theorem charges_cons_none (h : e.document = none) :
    charges l (e :: L) = e.charge + charges l L := by
  unfold charges
  rw [references_cons_none h, map_cons, sum_cons, add_assoc]

/-- A document that no other event shares is charged with its event. -/
theorem charges_cons_some (h : e.document = some d) : charges l (e :: L)
      = e.charge + (if d ∈ references L then 0 else l.documentBytes d) + charges l L := by
  unfold charges
  rw [references_cons_some h, map_cons, sum_cons, toFinset_cons]
  split_ifs with hm
  · rw [Finset.insert_eq_of_mem (mem_toFinset.mpr hm)]
    omega
  · rw [Finset.sum_insert (mt mem_toFinset.mp hm)]
    omega

theorem card_references_cons (h : e.document = some d) : (references (e :: L)).toFinset.card
      = (references L).toFinset.card + if d ∈ references L then 0 else 1 := by
  rw [references_cons_some h, toFinset_cons]
  split_ifs with hm
  · rw [Finset.insert_eq_of_mem (mem_toFinset.mpr hm), add_zero]
  · exact Finset.card_insert_of_notMem (mt mem_toFinset.mp hm)

/-! ## An event is released -/

variable {nodes : ℕ}

theorem Accounts.Memory.erase (h : a.Memory l (nodes + 1)) (d : D) :
    ∃ bytes, a.erase l d = .ok { a with
        allocatedBytes := bytes, documents := update a.documents d none }
      ∧ { a with allocatedBytes := bytes, documents := update a.documents d none }.Memory l
        nodes := by
  obtain ⟨ha, hwi⟩ := h
  have heq : a.allocatedBytes = nodes * l.node + a.buckets + a.queueBytes + a.batchBytes
    + l.node := by
    rw [ha, succ_mul]
    omega
  refine ⟨nodes * l.node + a.buckets + a.queueBytes + a.batchBytes, ?_, rfl, ?_⟩
  · unfold Accounts.erase Accounts.deallocate
    rw [heq, sub_add]
    rfl
  · dsimp only
    omega

/-- **A release keeps the accounts exact**, and goes through. -/
theorem Accounts.Exact.release (h : a.Exact l (e :: L) r) :
    ∃ a', a.releaseLocked l e = .ok a' ∧ a'.Exact l L r := by
  obtain ⟨he, hl, hbs, hdc, hmm⟩ := h
  have he' : sub a.retainedEvents 1 = .ok L.length := by
    rw [he, length_cons, sub_add]
  unfold Accounts.releaseLocked
  cases hd : e.document with
  | none =>
    rw [charges_cons_none hd, add_assoc, add_comm] at hbs
    rw [hbs, sub_add, he']
    refine ⟨_, rfl, rfl, ?_, rfl, ?_, ?_⟩
    · dsimp only
      rw [he, length_cons] at hl
      omega
    · unfold table at hdc ⊢
      rw [references_cons_none hd] at hdc
      exact hdc
    · rw [references_cons_none hd] at hmm
      exact ⟨hmm.allocated, by have := hmm.within; dsimp only; omega⟩
  | some d =>
    rw [charges_cons_some hd] at hbs
    rw [card_references_cons hd] at hmm
    rw [table_cons_some hd] at hdc
    have hc : a.retainedBytes = (if d ∈ references L then 0 else l.documentBytes d)
        + charges l L + r + e.charge := by omega
    rw [hc, sub_add, he']
    have hen : a.documents d
        = some ⟨(references L).count d + 1, l.documentBytes d⟩ := by
      rw [hdc, update_self]
    have hlt : L.length ≤ l.maxEvents := by
      rw [he, length_cons] at hl
      omega
    have hwi := hmm.within
    dsimp only [Except.bind, bind]
    rw [hen]
    dsimp only
    rw [sub_add]
    dsimp only
    by_cases hm : d ∈ references L
    · -- other events share the document
      rw [if_pos hm] at hmm hc
      rw [if_pos hm, if_neg (count_pos_iff.mpr hm).ne']
      refine ⟨_, rfl, rfl, hlt, ?_, ?_, hmm.allocated, ?_⟩
      · dsimp only
        omega
      · dsimp only
        rw [hdc, update_idem, ← table_of_mem hm, update_eq_self]
      · dsimp only
        omega
    · rw [if_neg hm] at hmm hc
      rw [if_neg hm, if_pos (count_eq_zero_of_not_mem hm), add_assoc, add_comm, sub_add]
      dsimp only
      have hmm' : Accounts.Memory l { a with
          retainedBytes := charges l L + r, retainedEvents := L.length }
          ((references L).toFinset.card + 1) :=
        ⟨hmm.allocated, by dsimp only; omega⟩
      obtain ⟨bytes, her, herased⟩ := hmm'.erase d
      refine ⟨_, her, rfl, hlt, rfl, ?_, herased⟩
      rw [hdc, update_idem, ← table_of_notMem hm, update_eq_self]

theorem Accounts.Exact.releaseAll (h : a.Exact l (L' ++ L) r) :
    ∃ a', a.releaseAll l L' = .ok a' ∧ a'.Exact l L r := by
  induction L' generalizing a with
  | nil => exact ⟨a, rfl, h⟩
  | cons e L' ih =>
    obtain ⟨a₁, hrel, h₁⟩ := h.release
    obtain ⟨a₂, hr, h₂⟩ := ih h₁
    unfold Accounts.releaseAll
    rw [hrel]
    exact ⟨a₂, hr, h₂⟩

/-! ## The containers grow -/

omit [DecidableEq D] in
theorem allocate_spec (h : a.retainedBytes + a.allocatedBytes ≤ l.maxBytes) (bytes : ℕ)
    (succeeds : Bool) : a.allocate l bytes succeeds = .error .badAlloc
      ∨ a.allocate l bytes succeeds = .ok { a with allocatedBytes := a.allocatedBytes + bytes }
        ∧ a.retainedBytes + (a.allocatedBytes + bytes) ≤ l.maxBytes := by
  unfold Accounts.allocate
  rw [sizeSum_of_le (h.trans l.maxBytes_le)]
  dsimp only
  split_ifs with hrm
  · exact .inl rfl
  · obtain ⟨-, hrm⟩ := not_or.mp hrm
    obtain ⟨hrm, -⟩ := not_or.mp hrm
    exact .inr ⟨rfl, by omega⟩

omit [DecidableEq D] in
/-- The queue gets a new buffer, or keeps its own. -/
theorem Accounts.Memory.pushBack (h : a.Memory l nodes) (o : Allocations) :
    a.pushBack l o = .error .badAlloc ∨ ∃ bytes queueBytes,
      a.pushBack l o = .ok { a with allocatedBytes := bytes, queueBytes := queueBytes }
        ∧ { a with allocatedBytes := bytes, queueBytes := queueBytes }.Memory l nodes := by
  unfold Accounts.pushBack
  cases o.queue with
  | none => exact .inr ⟨a.allocatedBytes, a.queueBytes, rfl, h⟩
  | some request =>
    obtain ⟨bytes, succeeds⟩ := request
    dsimp only
    obtain hf | ⟨hg, hwi⟩ := allocate_spec h.within bytes succeeds
    · rw [hf]
      exact .inl rfl
    have heq : a.allocatedBytes + bytes
        = nodes * l.node + a.buckets + bytes + a.batchBytes + a.queueBytes := by
      rw [h.allocated]
      omega
    rw [hg]
    refine .inr ⟨nodes * l.node + a.buckets + bytes + a.batchBytes, bytes, ?_, rfl, ?_⟩
    · dsimp only [bind, Except.bind]
      unfold Accounts.deallocate
      rw [heq, sub_add]
      rfl
    · dsimp only
      omega

/-- A document comes into the table, or nothing changes. -/
theorem Accounts.Memory.emplace (h : a.Memory l nodes) (d : D) (o : Allocations) :
    a.emplace l d o = .error .badAlloc ∨ ∃ bytes buckets, a.emplace l d o = .ok { a with
          allocatedBytes := bytes
          buckets := buckets
          documents := update a.documents d (some ⟨0, l.documentBytes d⟩) }
        ∧ bytes = (nodes + 1) * l.node + buckets + a.queueBytes + a.batchBytes
        ∧ a.retainedBytes + bytes ≤ l.maxBytes := by
  unfold Accounts.emplace
  obtain hf | ⟨hg, hwi⟩ := allocate_spec h.within l.node o.node
  · rw [hf]
    exact .inl rfl
  have hnd : a.allocatedBytes + l.node
      = (nodes + 1) * l.node + a.queueBytes + a.batchBytes + a.buckets := by
    rw [h.allocated, succ_mul]
    omega
  rw [hg]
  dsimp only [bind, Except.bind]
  cases o.buckets with
  | none => exact .inr ⟨_, a.buckets, rfl, by omega, hwi⟩
  | some request =>
    obtain ⟨bytes, succeeds⟩ := request
    dsimp only
    have hwi' : { a with allocatedBytes := a.allocatedBytes + l.node }.retainedBytes
        + { a with allocatedBytes := a.allocatedBytes + l.node }.allocatedBytes
          ≤ l.maxBytes := hwi
    obtain hf | ⟨hg, hwi⟩ := allocate_spec hwi' bytes succeeds
    · rw [hf]
      exact .inl rfl
    rw [hg]
    dsimp only
    refine .inr ⟨(nodes + 1) * l.node + a.queueBytes + a.batchBytes + bytes, bytes, ?_,
      by omega, by dsimp only at hwi; omega⟩
    unfold Accounts.deallocate
    dsimp only
    rw [hnd, add_right_comm, sub_add]
    rfl

/-! ## An event is retained -/

theorem Accounts.Exact.giveBack {c : ℕ} (h : a.Exact l L (r + c)) :
    sub a.retainedBytes c = .ok (charges l L + r)
      ∧ { a with retainedBytes := charges l L + r }.Exact l L r := by
  have hbs : a.retainedBytes = charges l L + r + c := by
    rw [h.bytes]
    omega
  refine ⟨by rw [hbs, sub_add], h.events, h.limited, rfl, h.documents, h.memory.allocated, ?_⟩
  have := h.memory.within
  dsimp only
  omega

variable {b : Bridge D} {source : Event D} {o : Allocations} {documentBytes : ℕ}

theorem Accounts.Exact.fail (h : b.accounts.Exact l L r) :
    ∃ a', b.fail r = .ok { b with resourceFailure := true, accounts := a' } ∧ a'.Exact l L 0 := by
  rw [← zero_add r] at h
  obtain ⟨hs, hex⟩ := h.giveBack
  unfold Bridge.fail
  rw [hs]
  exact ⟨_, rfl, hex⟩

/-- An event that is in the queue is counted. -/
theorem Accounts.count_spec (he : a.retainedEvents = L.length) (hlt : L.length < l.maxEvents)
    (hbs : a.retainedBytes = charges l (e :: L))
    (hmm : a.Memory l (references (e :: L)).toFinset.card)
    (hn : e.document = none → a.documents = table l L)
    (hs : ∀ d, e.document = some d → a.documents = update (table l L) d
      (some ⟨(references L).count d, l.documentBytes d⟩)) :
    ∃ a', a.count e.document = .ok a' ∧ a'.Exact l (e :: L) 0 := by
  unfold Accounts.count
  have he' : a.retainedEvents + 1 = (e :: L).length := by rw [he, length_cons]
  have hl : a.retainedEvents + 1 ≤ l.maxEvents := by rw [he]; exact hlt
  cases hd : e.document with
  | none =>
    refine ⟨_, rfl, he', hl, hbs, ?_, hmm.allocated, hmm.within⟩
    unfold table
    rw [references_cons_none hd]
    exact hn hd
  | some d =>
    dsimp only
    rw [hs d hd, update_self]
    refine ⟨_, rfl, he', hl, hbs, ?_, hmm.allocated, hmm.within⟩
    rw [table_cons_some hd]
    exact update_idem _ _ _

variable {charge : ℕ}

omit [DecidableEq D] in
theorem ownedCharge_le (h : ownedCharge l source o = some charge) : charge ≤ estimate l source := by
  unfold ownedCharge at h
  split at h
  · cases h
  dsimp only at h
  split at h
  · cases h
  · rename_i hle
    cases h
    exact not_lt.mp hle

/-- What becomes of a queue that retains an event: the stream ends, or the event
is in the queue. -/
def Retained (l : Layout D) (b : Bridge D) (source : Event D) (b' : Bridge D) : Prop :=
  (∃ a, b' = { b with resourceFailure := true, accounts := a }
      ∧ a.Exact l (b.batch ++ b.events) 0)
    ∨ ∃ a charge, b' = { b with
          accounts := a
          events := b.events ++ [⟨b.received, source.document, charge⟩]
          kept := b.kept + 1 }
      ∧ a.Exact l (b.batch ++ (b.events ++ [⟨b.received, source.document, charge⟩])) 0

theorem newDocument_of_mem (h : a.documents = table l L) (hm : d ∈ references L) :
    a.newDocument (some d) = none := by
  unfold Accounts.newDocument
  rw [h, Option.filter_some, table_of_mem hm]
  rfl

theorem newDocument_of_notMem (h : a.documents = table l L) (hm : d ∉ references L) :
    a.newDocument (some d) = some d := by
  unfold Accounts.newDocument
  rw [h, Option.filter_some, table_of_notMem hm]
  rfl

/-- An event that brings no document of its own comes into the queue. -/
theorem push_spec (h : b.accounts.Exact l (b.batch ++ b.events) charge)
    (hlt : b.accounts.retainedEvents < l.maxEvents)
    (hs : ∀ d, source.document = some d → d ∈ references (b.batch ++ b.events)) :
    b.accounts.pushBack l o = .error .badAlloc ∨ ∃ a a', b.accounts.pushBack l o = .ok a
      ∧ a.count source.document = .ok a'
      ∧ a'.Exact l (⟨b.received, source.document, charge⟩ :: (b.batch ++ b.events)) 0 := by
  obtain hf | ⟨bytes, queueBytes, hp, hmm⟩ := h.memory.pushBack o
  · exact .inl hf
  have hchg : charges l (⟨b.received, source.document, charge⟩ :: (b.batch ++ b.events))
        = charge + charges l (b.batch ++ b.events)
      ∧ (references (⟨b.received, source.document, charge⟩ :: (b.batch ++ b.events))).toFinset.card
        = (references (b.batch ++ b.events)).toFinset.card := by
    cases hd : source.document with
    | none => exact ⟨charges_cons_none rfl, rfl⟩
    | some d =>
      have hm := hs d hd
      rw [charges_cons_some rfl, card_references_cons rfl, if_pos hm, if_pos hm]
      exact ⟨rfl, rfl⟩
  obtain ⟨a', hc, hex⟩ := @Accounts.count_spec D _ l
    { b.accounts with allocatedBytes := bytes, queueBytes := queueBytes } (b.batch ++ b.events)
    ⟨b.received, source.document, charge⟩ h.events (h.events ▸ hlt)
    (by rw [hchg.1, add_comm]; exact h.bytes) (hchg.2 ▸ hmm)
    (fun _ => h.documents) (fun d hd => by
      rw [← table_of_mem (hs d hd), update_eq_self]
      exact h.documents)
  exact .inr ⟨_, a', hp, hc, hex⟩

/-- A copied event is queued, or its room given back. -/
theorem retainOwned_spec (h : b.accounts.Exact l (b.batch ++ b.events) (charge + documentBytes))
    (hlt : b.accounts.retainedEvents < l.maxEvents)
    (hd : documentBytes = (b.accounts.newDocument source.document).elim 0 l.documentBytes) :
    ∃ b', b.retainOwned l source charge documentBytes o = .ok b' ∧ Retained l b source b' := by
  obtain ⟨aFail, hf, hexactFail⟩ := h.fail
  have hp : (⟨b.received, source.document, charge⟩ :: (b.batch ++ b.events)).Perm
      (b.batch ++ (b.events ++ [⟨b.received, source.document, charge⟩])) := by
    rw [← append_assoc]
    exact (perm_append_singleton _ _).symm
  unfold Bridge.retainOwned
  by_cases hs : ∀ d, source.document = some d → d ∈ references (b.batch ++ b.events)
  · -- nothing comes into the table
    have hnew : b.accounts.newDocument source.document = none := by
      cases hcs : source.document with
      | none => rfl
      | some d => exact newDocument_of_mem h.documents (hs d hcs)
    rw [hnew] at hd ⊢
    obtain rfl : documentBytes = 0 := hd
    obtain hps | ⟨a, a', hps, hc, hex⟩ := push_spec h hlt hs
    · dsimp only [Accounts.insertDocument]
      rw [hps]
      exact ⟨_, hf, .inl ⟨aFail, rfl, hexactFail⟩⟩
    · dsimp only [Accounts.insertDocument]
      rw [hps]
      dsimp only [bind, Except.bind]
      rw [hc]
      exact ⟨_, rfl, .inr ⟨a', charge, rfl, hex.perm hp⟩⟩
  · obtain ⟨d, hs⟩ := not_forall.mp hs
    obtain ⟨hcs, hm⟩ := Classical.not_imp.mp hs
    have hnew : b.accounts.newDocument source.document = some d := by
      rw [hcs]
      exact newDocument_of_notMem h.documents hm
    have hn : b.accounts.documents d = none := by
      rw [h.documents]
      exact table_of_notMem hm
    rw [hnew] at hd ⊢
    obtain rfl : documentBytes = l.documentBytes d := hd
    dsimp only [Accounts.insertDocument]
    obtain hemplace | ⟨bytes, buckets, hemplace, hbs, hwi⟩ := h.memory.emplace d o
    · rw [hemplace]
      exact ⟨_, hf, .inl ⟨aFail, rfl, hexactFail⟩⟩
    rw [hemplace]
    dsimp only
    have hmm : Accounts.Memory l { b.accounts with
        allocatedBytes := bytes
        buckets := buckets
        documents := update b.accounts.documents d (some ⟨0, l.documentBytes d⟩) }
        ((references (b.batch ++ b.events)).toFinset.card + 1) := ⟨hbs, hwi⟩
    obtain hps | ⟨bytes', queueBytes, hps, hmm'⟩ := hmm.pushBack o
    · -- the document leaves the table again
      obtain ⟨bytes', he, herased⟩ := hmm.erase d
      rw [hps]
      dsimp only [Accounts.eraseInserted]
      rw [he]
      obtain ⟨a, hf, hex⟩ := @Accounts.Exact.fail D _ l _ _
        { b with accounts := { b.accounts with
          allocatedBytes := bytes'
          buckets := buckets
          documents := update (update b.accounts.documents d
            (some ⟨0, l.documentBytes d⟩)) d none } }
        ⟨h.events, h.limited, h.bytes, by
          rw [update_idem, ← hn, update_eq_self]
          exact h.documents, herased⟩
      exact ⟨_, hf, .inl ⟨a, rfl, hex⟩⟩
    · rw [hps]
      obtain ⟨a', hc, hex⟩ := @Accounts.count_spec D _ l { b.accounts with
          allocatedBytes := bytes'
          buckets := buckets
          documents := update b.accounts.documents d (some ⟨0, l.documentBytes d⟩)
          queueBytes := queueBytes } (b.batch ++ b.events)
        ⟨b.received, source.document, charge⟩ h.events (h.events ▸ hlt)
        (by
          rw [charges_cons_some hcs, if_neg hm, add_comm]
          exact h.bytes)
        (by
          rw [card_references_cons hcs, if_neg hm]
          exact hmm')
        (fun hn' => nomatch hn'.symm.trans hcs) (fun d' hcs' => by
          obtain rfl := Option.some.inj (hcs.symm.trans hcs')
          rw [count_eq_zero_of_not_mem hm, ← h.documents])
      dsimp only [bind, Except.bind]
      rw [hc]
      exact ⟨_, rfl, .inr ⟨a', charge, rfl, hex.perm hp⟩⟩

theorem retainReserved_spec
    (h : b.accounts.Exact l (b.batch ++ b.events) (estimate l source + documentBytes))
    (hlt : b.accounts.retainedEvents < l.maxEvents) (hd : documentBytes
      = (b.accounts.newDocument source.document).elim 0 l.documentBytes) :
    ∃ b', b.retainReserved l source documentBytes o = .ok b' ∧ Retained l b source b' := by
  unfold Bridge.retainReserved
  cases hc : ownedCharge l source o with
  | none =>
    obtain ⟨a, hf, hex⟩ := h.fail
    exact ⟨_, hf, .inl ⟨a, rfl, hex⟩⟩
  | some charge =>
    have hle := ownedCharge_le hc
    have h₁ : b.accounts.Exact l (b.batch ++ b.events)
        (charge + documentBytes + (estimate l source - charge)) := by
      rw [show charge + documentBytes + (estimate l source - charge)
        = estimate l source + documentBytes by omega]
      exact h
    obtain ⟨hs, hex⟩ := h₁.giveBack
    dsimp only
    rw [hs]
    obtain ⟨b', hrt, hr⟩ := @retainOwned_spec D _ l
      { b with accounts := { b.accounts with
      retainedBytes := charges l (b.batch ++ b.events) + (charge + documentBytes) } } source o
      documentBytes charge hex hlt hd
    exact ⟨b', hrt, hr⟩

theorem retainEvent_spec (h : b.accounts.Exact l (b.batch ++ b.events) 0)
    (hop : (b.abandoned || b.resourceFailure) = false) :
    ∃ b', b.retainEvent l source o = .ok b' ∧ Retained l b source b' := by
  have hwi := h.memory.within
  unfold Bridge.retainEvent
  rw [hop, if_neg Bool.false_ne_true, sizeSum_of_le (hwi.trans l.maxBytes_le)]
  dsimp only
  rw [if_pos hwi]
  split_ifs with hrm
  · exact ⟨_, rfl, .inl ⟨b.accounts, rfl, h⟩⟩
  obtain ⟨hlt, hrm⟩ := not_or.mp hrm
  obtain ⟨-, hrm⟩ := not_or.mp hrm
  obtain ⟨hd, hestimate⟩ := not_or.mp hrm
  have hbs := h.bytes
  obtain ⟨b', hrt, hr⟩ := @retainReserved_spec D _ l { b with accounts := {
      b.accounts with retainedBytes := b.accounts.retainedBytes + (estimate l source
        + (b.accounts.newDocument source.document).elim 0 l.documentBytes) } } source o
    ((b.accounts.newDocument source.document).elim 0 l.documentBytes)
    ⟨h.events, h.limited, by dsimp only; omega, h.documents, h.memory.allocated, by
      dsimp only
      omega⟩ (not_le.mp hlt) rfl
  exact ⟨b', hrt, hr⟩

/-! ## Runs -/

omit [DecidableEq D] in
/-- The places of the events that are to be handed. -/
def Bridge.waiting (b : Bridge D) : List ℕ :=
  ((if b.holding then b.batch.tail else b.batch) ++ b.events).map OwnedEvent.place

/-- What holds of every queue that is reached. -/
structure Sound (l : Layout D) (b : Bridge D) : Prop where
  exact : b.accounts.Exact l (b.batch ++ b.events) 0
  /-- What was retained is the beginning of the stream. -/
  kept : b.kept ≤ b.received ∧ (b.resourceFailure = false → b.abandoned = false →
    b.kept = b.received)
  held : b.holding = true → b.batch ≠ [] ∧ b.callbackError = false
  handed : b.handed <+: range b.kept
  /-- All that was retained is handed in its turn. -/
  waiting : b.callbackError = false → b.handed ++ b.waiting <+: range b.kept
    ∧ (b.abandoned = false → b.handed ++ b.waiting = range b.kept)

omit [DecidableEq D] in
theorem Accounts.Memory.free (h : a.Memory l nodes) :
    ∃ bytes, a.deallocate a.batchBytes = .ok { a with allocatedBytes := bytes }
      ∧ { a with allocatedBytes := bytes, batchBytes := 0 }.Memory l nodes := by
  obtain ⟨ha, hwi⟩ := h
  refine ⟨nodes * l.node + a.buckets + a.queueBytes, ?_, rfl, ?_⟩
  · unfold Accounts.deallocate
    rw [ha, sub_add]
    rfl
  · dsimp only
    omega

theorem Sound.free (h : Sound l b) : ∃ b', b.free = .ok b' ∧ Sound l b'
    ∧ b' = { b with accounts := b'.accounts } ∧ (b.batch = [] → b'.accounts.batchBytes = 0) := by
  unfold Bridge.free
  split
  · rename_i hbat
    exact ⟨b, rfl, h, rfl, fun hn => nomatch hbat.symm.trans hn⟩
  obtain ⟨bytes, hfr, hmm⟩ := h.exact.memory.free
  rw [hfr]
  exact ⟨_, rfl, ⟨⟨h.exact.events, h.exact.limited, h.exact.bytes, h.exact.documents, hmm⟩,
    h.kept, h.held, h.handed, h.waiting⟩, rfl, fun _ => rfl⟩

/-- Retaining keeps the accounts exact. -/
theorem Sound.retain (h : Sound l b) : ∃ b', b.retain l source o = .ok b' ∧ Sound l b' := by
  unfold Bridge.retain
  cases hop : b.abandoned || b.resourceFailure with
  | true =>
    have hr : b.retainEvent l source o = .ok b := by
      unfold Bridge.retainEvent
      rw [hop]
      rfl
    rw [hr]
    refine ⟨_, rfl, h.exact, ⟨Nat.le_succ_of_le h.kept.1, fun hflr hab => ?_⟩, h.held,
      h.handed, h.waiting⟩
    rw [show b.abandoned = false from hab, show b.resourceFailure = false from hflr]
      at hop
    cases hop
  | false =>
    obtain ⟨hab, hflr⟩ := or_eq_false_iff.mp hop
    obtain ⟨b', hr, ⟨a, rfl, hex⟩ | ⟨a, charge, rfl, hex⟩⟩ :=
      @retainEvent_spec D _ l b source o h.exact hop
    · rw [hr]
      exact ⟨_, rfl, hex, ⟨Nat.le_succ_of_le h.kept.1, fun hno => (nomatch hno)⟩, h.held,
        h.handed, h.waiting⟩
    · rw [hr]
      have hp := h.kept.2 hflr hab
      refine ⟨_, rfl, hex, ⟨Nat.succ_le_succ h.kept.1, fun _ _ => congrArg Nat.succ hp⟩,
        h.held, h.handed.trans ?_, fun herr => ?_⟩
      · rw [range_succ]
        exact prefix_append _ _
      · have hw := (h.waiting herr).2 hab
        have heq : b.handed ++ Bridge.waiting { b with
            accounts := a
            events := b.events ++ [⟨b.received, source.document, charge⟩]
            kept := b.kept + 1 } = range (b.kept + 1) := by
          rw [range_succ, ← hw, hp]
          unfold Bridge.waiting
          dsimp only
          rw [← append_assoc, map_append, append_assoc]
          rfl
        exact ⟨heq ▸ prefix_refl _, fun _ => heq⟩

/-- So does draining. -/
theorem Sound.drain (h : Sound l b) : ∃ b', b.drain = .ok b' ∧ Sound l b' := by
  unfold Bridge.drain
  split
  · exact ⟨b, rfl, h⟩
  rename_i hbat
  obtain ⟨b', hfr, hsd, heq, hz⟩ := h.free
  have hn : b'.batch = [] := by rw [heq]; exact hbat
  have hhd : b'.holding = false := by
    cases hc : b'.holding with
    | false => rfl
    | true => exact absurd hn (hsd.held hc).1
  have hex := hsd.exact
  rw [hfr]
  rw [hn, nil_append] at hex
  refine ⟨_, rfl, ?_, hsd.kept, fun hc => absurd (hhd.symm.trans hc) nofun,
    hsd.handed, ?_⟩
  · refine ⟨hex.events.trans (by rw [append_nil]), hex.limited, ?_, ?_, ?_⟩
    · rw [append_nil]
      exact hex.bytes
    · rw [append_nil]
      exact hex.documents
    rw [append_nil]
    refine ⟨?_, hex.memory.within⟩
    have ha := hex.memory.allocated
    rw [hz hbat] at ha
    exact ha
  · have hw := hsd.waiting
    unfold Bridge.waiting at hw ⊢
    rw [hhd, hn] at hw
    dsimp only
    rw [hhd, if_neg Bool.false_ne_true, List.append_nil]
    exact hw

theorem Sound.hand (h : Sound l b) (throws : Bool) : Sound l (b.hand throws) := by
  unfold Bridge.hand
  split
  · exact h
  rename_i e batch hbat
  split_ifs with hid
  · exact h
  obtain ⟨hhd, herr⟩ := or_eq_false_iff.mp (not_eq_true _ ▸ hid)
  obtain ⟨hini, heq⟩ := h.waiting herr
  have hw : b.waiting = e.place :: (batch ++ b.events).map OwnedEvent.place := by
    unfold Bridge.waiting
    rw [hhd, hbat, if_neg Bool.false_ne_true]
    rfl
  rw [hw, ← singleton_append, ← append_assoc] at hini heq
  refine ⟨h.exact, h.kept, fun hc => ⟨by rw [hbat]; exact nofun, ?_⟩,
    (prefix_append _ _).trans hini, fun herr' => ?_⟩
  · exact not_eq_true' _ ▸ hc
  · have ht : throws = false := herr'
    unfold Bridge.waiting
    dsimp only
    rw [ht, hbat]
    exact ⟨hini, heq⟩

theorem Sound.release (h : Sound l b) : ∃ b', b.release l = .ok b' ∧ Sound l b' := by
  unfold Bridge.release
  split
  · rename_i e batch hhd hbat
    have hex := h.exact
    rw [hbat, cons_append] at hex
    obtain ⟨a, hr, hex⟩ := hex.release
    rw [hr]
    refine ⟨_, rfl, hex, h.kept, fun hno => (nomatch hno), h.handed, fun herr => ?_⟩
    have hw := h.waiting herr
    unfold Bridge.waiting at hw
    rw [hhd, hbat] at hw
    exact hw
  · exact ⟨b, rfl, h⟩

theorem Sound.releaseBatch (h : Sound l b) : ∃ b', b.releaseBatch l = .ok b' ∧ Sound l b' := by
  unfold Bridge.releaseBatch
  split_ifs with herr
  · obtain ⟨a, hr, hex⟩ := h.exact.releaseAll
    rw [hr]
    refine ⟨_, rfl, hex, h.kept, fun hhd => ?_, h.handed, fun hno => ?_⟩
    · exact absurd ((h.held hhd).2.symm.trans herr) false_ne_true
    · exact absurd (hno.symm.trans herr) false_ne_true
  · exact ⟨b, rfl, h⟩

theorem Sound.abandon (h : Sound l b) : ∃ b', b.abandon l = .ok b' ∧ Sound l b' := by
  unfold Bridge.abandon
  obtain ⟨a, hr, hex⟩ := (h.exact.perm perm_append_comm).releaseAll
  rw [hr]
  refine ⟨_, rfl, ?_, ⟨h.kept.1, fun _ hno => (nomatch hno)⟩, h.held, h.handed, fun herr =>
    ⟨List.IsPrefix.trans ?_ (h.waiting herr).1, fun hno => (nomatch hno)⟩⟩
  · dsimp only
    rw [append_nil]
    exact hex
  · unfold Bridge.waiting
    dsimp only
    rw [append_nil, map_append, ← append_assoc]
    exact prefix_append _ _

theorem Sound.step (h : Sound l b) (op : Op D) : ∃ b', b.step l op = .ok b' ∧ Sound l b' := by
  cases op with
  | retain e o => exact h.retain
  | drain => exact h.drain
  | hand throws => exact ⟨_, rfl, h.hand throws⟩
  | release => exact h.release
  | releaseBatch => exact h.releaseBatch
  | free =>
    obtain ⟨b', hfr, hsd, -⟩ := h.free
    exact ⟨b', hfr, hsd⟩
  | abandon => exact h.abandon

theorem Sound.run (h : Sound l b) (ops : List (Op D)) :
    ∃ b', b.run l ops = .ok b' ∧ Sound l b' := by
  induction ops generalizing b with
  | nil => exact ⟨b, rfl, h⟩
  | cons op ops ih =>
    obtain ⟨b₁, hs, h₁⟩ := h.step op
    obtain ⟨b₂, hr, h₂⟩ := ih h₁
    unfold Bridge.run
    rw [hs]
    exact ⟨b₂, hr, h₂⟩

theorem sound_empty (l : Layout D) : Sound l ({} : Bridge D) where
  exact := ⟨rfl, zero_le _, rfl, rfl, by simp [references], zero_le _⟩
  kept := ⟨le_rfl, fun _ _ => rfl⟩
  held hno := nomatch hno
  handed := prefix_refl _
  waiting _ := ⟨prefix_refl _, fun _ => rfl⟩

/-- **The queue of an observer accounts exactly.** Whatever is retained, drained
and abandoned, with any failures of the allocator: nothing underflows and no
entry is missing; the counts are those of the events that are not released, and
of the documents they share, once each; the limits are kept; and what the
observer is given is the beginning of what was retained, which is the beginning
of the stream, and all of it but for a limit, an abandon or an observer that
throws. -/
theorem accounts_exactly (l : Layout D) (ops : List (Op D)) :
    ∃ b, ({} : Bridge D).run l ops = .ok b
      ∧ b.accounts.retainedEvents = (b.batch ++ b.events).length
      ∧ b.accounts.retainedBytes = ((b.batch ++ b.events).map OwnedEvent.charge).sum
          + ∑ d ∈ (references (b.batch ++ b.events)).toFinset, l.documentBytes d
      ∧ b.accounts.retainedBytes + b.accounts.allocatedBytes ≤ l.maxBytes
      ∧ b.accounts.retainedEvents ≤ l.maxEvents
      ∧ b.handed <+: range b.kept
      ∧ (b.callbackError = false → b.abandoned = false →
        b.handed ++ b.waiting = range b.kept)
      ∧ b.kept ≤ b.received
      ∧ (b.resourceFailure = false → b.abandoned = false → b.kept = b.received) := by
  obtain ⟨b, hr, h⟩ := (sound_empty l).run ops
  exact ⟨b, hr, h.exact.events, h.exact.bytes, h.exact.memory.within, h.exact.limited, h.handed,
    fun herr hab => (h.waiting herr).2 hab, h.kept.1, h.kept.2⟩

end Queue

end NeoGraph.Provider.ObserverQueue

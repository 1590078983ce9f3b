import NeoGraph.Context.SqliteHistories

/-!
# The two stores agree

The store in memory and the store in SQLite keep the histories of their calls.
So they answer every call alike, or both refuse it; both hold one chain per
feed, in which nothing ever changes; and what was taken as a range is read back
from both, at every later time (`stores_agree`).

A store in SQLite that was opened with an archive of native messages serves the
owner of the archive alone: there the two stores differ
(`stores_differ_archive`).
-/

namespace NeoGraph.Context

open List InMemoryContextStore SQLiteContextStore ContextHistories

open Program (isSha256Identity)

variable {M : Type}

/-- The records of a feed, in sequence. -/
def SQLiteContextStore.recordsOf (fmt : SqliteFormat M) (store : SQLiteContextStore)
    (feed : ContextStoreFeed) : Except Exn (List (RuntimeHistoryRecord M)) :=
  (orderBySequence (store.rows feed)).mapM fun row => fmt.decode row.canonical feed.ownerId

section After

variable (fmt : SqliteFormat M) (calls : List (StoreCall M))

/-- The store in memory after some calls. -/
def memoryAfter : InMemoryContextStore M := after fmt.toContextFormat calls

/-- The store in SQLite after the same calls. -/
def sqliteAfter : SQLiteContextStore := after fmt calls

/-- **Both stores hold these records in the feed**, and they form a chain. -/
structure HoldChain (feed : ContextStoreFeed) (rs : List (RuntimeHistoryRecord M)) : Prop where
  memory : (memoryAfter fmt calls).recordsOf feed = rs
  sqlite : (sqliteAfter fmt calls).recordsOf fmt feed = .ok rs
  chain : IsChain feed.feedId rs

/-- Both stores answer a call with this reply. -/
def BothAnswer (c : StoreCall M) (reply : StoreReply M) : Prop :=
  ((memoryAfter fmt calls).call fmt.toContextFormat c).1 = .ok reply
    ∧ ((sqliteAfter fmt calls).call fmt c).1 = .ok reply

/-- One of the stores answers a call with this reply. -/
def OneAnswers (c : StoreCall M) (reply : StoreReply M) : Prop :=
  ((memoryAfter fmt calls).call fmt.toContextFormat c).1 = .ok reply
    ∨ ((sqliteAfter fmt calls).call fmt c).1 = .ok reply

/-- The stores give equal results, or both throw. -/
def SameAnswer (c : StoreCall M) : Prop :=
  ((memoryAfter fmt calls).call fmt.toContextFormat c).1.toOption
    = ((sqliteAfter fmt calls).call fmt c).1.toOption

end After

section Agreement

variable {fmt : SqliteFormat M} {made : RuntimeHistoryRecord M → Prop}
  {calls : List (StoreCall M)} {c : StoreCall M}

/-- The store in memory answers as the histories do. -/
theorem answer_memory (hrd : fmt.Reads made) (h : ∀ c ∈ calls, c.Within (fmt.Admits made))
    (hc : c.Within (fmt.Admits made)) :
    ((memoryAfter fmt calls).call fmt.toContextFormat c).1.toOption
      = ((ContextHistories.after fmt.toContextFormat calls).step fmt.toContextFormat c).1 :=
  ((refines_after hrd.identified (fun _ _ hadm => hadm.made) h).call
    (chained_after h) hrd.identified (fun _ _ hadm => hadm.made) hc).1

/-- So does the store on disk. -/
theorem answer_sqlite (hrd : fmt.Reads made) (h : ∀ c ∈ calls, c.Within (fmt.Admits made))
    (hc : c.Within (fmt.Admits made)) : ((sqliteAfter fmt calls).call fmt c).1.toOption
      = ((ContextHistories.after fmt.toContextFormat calls).step fmt.toContextFormat c).1 :=
  ((refines_after hrd h).call hrd (chained_after h) hc).1

/-- What the histories answer both stores answer. -/
theorem bothAnswer (hrd : fmt.Reads made) (h : ∀ c ∈ calls, c.Within (fmt.Admits made))
    (hc : c.Within (fmt.Admits made)) {reply : StoreReply M}
    (hr : ((ContextHistories.after fmt.toContextFormat calls).step fmt.toContextFormat c).1
      = some reply) : BothAnswer fmt calls c reply :=
  ⟨toOption_eq_some.mp ((answer_memory hrd h hc).trans hr),
    toOption_eq_some.mp ((answer_sqlite hrd h hc).trans hr)⟩

/-- Both stores hold the chain of every feed. -/
theorem holdChain (hrd : fmt.Reads made) (h : ∀ c ∈ calls, c.Within (fmt.Admits made))
    (feed : ContextStoreFeed) :
    HoldChain fmt calls feed ((ContextHistories.after fmt.toContextFormat calls).history feed) := by
  have hc : (ContextHistories.after fmt.toContextFormat calls).Chained (fmt.Admits made) :=
    chained_after h
  refine ⟨?_, ?_, hc.chain feed⟩
  · exact (refines_after hrd.identified (fun _ _ hadm => hadm.made) h).recordsOf_eq hc feed
  unfold SQLiteContextStore.recordsOf sqliteAfter
  rw [(refines_after hrd h).rows,
    orderBySequence_eq (hc.chain feed) (List.Sublist.refl _), mapM_eq_ok,
    forall₂_map_left_iff]
  exact forall₂_same.mpr fun r hm => hrd.decode (hc.admitted feed r hm)

/-- **The stores agree.** Whatever the calls of any owners and feeds were, every
call is answered alike by both stores or refused by both. In both, the records
of every feed are one chain; they stay, a new append of one of them is answered
as already present, and a range that was taken is read back at every later time,
with the records and bytes it was taken from. -/
theorem stores_agree (hrd : fmt.Reads made) (h : ∀ c ∈ calls, c.Within (fmt.Admits made)) :
    (∀ c : StoreCall M, c.Within (fmt.Admits made) → SameAnswer fmt calls c)
      ∧ ∀ feed, ∃ rs, HoldChain fmt calls feed rs
        ∧ (∀ r ∈ rs, ∀ expectedHeadId : Option String,
          expectedHeadId.all isSha256Identity = true →
            BothAnswer fmt calls (.appendHistory feed r expectedHeadId) (.append .alreadyPresent))
        ∧ ∀ more : List (StoreCall M), (∀ c ∈ more, c.Within (fmt.Admits made)) →
          (∃ rest, HoldChain fmt (calls ++ more) feed (rs ++ rest))
          ∧ ∀ first last range,
            OneAnswers fmt calls (.snapshotHistory feed first last) (.range range) →
              fmt.rangeDigest (jsonlOf ((slice rs first last).map RuntimeHistoryRecord.canonical))
                  = range.digest
                ∧ BothAnswer fmt (calls ++ more) (.hydrateRecords range)
                  (.records (slice rs first last))
                ∧ BothAnswer fmt (calls ++ more) (.hydrateHistory range)
                  (.text (jsonlOf ((slice rs first last).map RuntimeHistoryRecord.canonical))) := by
  have hc : (ContextHistories.after fmt.toContextFormat calls).Chained (fmt.Admits made) :=
    ContextHistories.chained_after h
  refine ⟨fun c hwi => (answer_memory hrd h hwi).trans
    (answer_sqlite hrd h hwi).symm, fun feed => ⟨_, holdChain hrd h feed, ?_, ?_⟩⟩
  · intro r hr expectedHeadId hhd
    exact bothAnswer hrd h (c := .appendHistory feed r expectedHeadId) (hc.admitted feed r hr)
      (congrArg Prod.fst (ContextHistories.step_appendHistory_again hc hr hhd))
  · intro more hmr
    have ha : ∀ c ∈ calls ++ more, c.Within (fmt.Admits made) := fun c hm =>
      (List.mem_append.mp hm).elim (h c) (hmr c)
    have hp : (ContextHistories.after fmt.toContextFormat calls).history feed
        <+: (ContextHistories.after fmt.toContextFormat (calls ++ more)).history feed :=
      ContextHistories.history_prefix_after calls more feed
    refine ⟨?_, fun first last range hrg => ?_⟩
    · obtain ⟨rest, hrs⟩ := hp
      refine ⟨rest, ?_⟩
      rw [hrs]
      exact holdChain hrd ha feed
    · have htk : ((ContextHistories.after fmt.toContextFormat calls).step fmt.toContextFormat
          (.snapshotHistory feed first last)).1 = some (.range range) := by
        obtain hmm | hsql := hrg
        · rw [← answer_memory hrd h (c := .snapshotHistory feed first last) trivial, hmm]
          rfl
        · rw [← answer_sqlite hrd h (c := .snapshotHistory feed first last) trivial, hsql]
          rfl
      obtain ⟨hdg, hrc, ht⟩ := ContextHistories.hydrate_of_snapshot hc
        (ContextHistories.chained_after ha) hp hrd.digest htk
      exact ⟨hdg, bothAnswer hrd ha (c := .hydrateRecords range) trivial hrc,
        bothAnswer hrd ha (c := .hydrateHistory range) trivial ht⟩

end Agreement

/-! ## A store with an archive -/

/-- The first record of a feed. -/
def demoRecord : RuntimeHistoryRecord Unit where
  feedId := "feed"
  sequence := 1
  messageId := "hello"
  message := ()
  predecessorId := none
  id := "sha256:0000000000000000000000000000000000000000000000000000000000000000"
  canonical := "record"
  sequence_pos := Nat.one_pos
  predecessor_iff := ⟨fun _ => rfl, fun _ => rfl⟩

/-- The record after it. -/
def demoReply : RuntimeHistoryRecord Unit where
  feedId := "feed"
  sequence := 2
  messageId := "reply"
  message := ()
  predecessorId := some demoRecord.id
  id := "reply id"
  canonical := "reply"
  sequence_pos := Nat.two_pos
  predecessor_iff := iff_of_false (Option.some_ne_none demoRecord.id) (Nat.succ_ne_self 1)

def demoFeed : ContextStoreFeed := ⟨"alice", "feed"⟩

/-- A format that reads the two records, with an archive of this owner. -/
def demoFormat (archiveOwner : Option String) : SqliteFormat Unit where
  rangeDigest _ := String.ofList ("sha256:".toList ++ replicate 64 '0')
  rangeUri _ _ _ _ _ := ""
  parseArtifact _ := .error (.invalidArgument "Context artifact")
  parseRecord canonical :=
    .ok (if canonical = demoRecord.canonical then demoRecord else demoReply)
  extractMessageId canonical :=
    some (if canonical = demoRecord.canonical then demoRecord.messageId else demoReply.messageId)
  native _ := false
  archiveOwner := archiveOwner
  serializeNative record _ := .ok record.canonical

def DemoMade (r : RuntimeHistoryRecord Unit) : Prop := r = demoRecord ∨ r = demoReply

theorem demoFormat_reads (archiveOwner : Option String) :
    (demoFormat archiveOwner).Reads DemoMade where
  identified :=
    { id_ne := by rintro r (rfl | rfl) <;> decide
      id_injective := by
        rintro r r' (rfl | rfl) (rfl | rfl) h
        · rfl
        · exact absurd h (by decide)
        · exact absurd h (by decide)
        · rfl
      canonical_injective := by
        rintro r r' (rfl | rfl) (rfl | rfl) h
        · rfl
        · exact absurd h (by decide)
        · exact absurd h (by decide)
        · rfl }
  parse h := by obtain rfl | rfl := h <;> rfl
  extract h := by obtain rfl | rfl := h <;> rfl
  plain _ := rfl
  digest _ := by
    show isSha256Identity (String.ofList ("sha256:".toList ++ replicate 64 '0')) = true
    unfold isSha256Identity
    rw [String.toList_ofList]
    decide +kernel

/-- A feed with its first record, and with the record after it. -/
def demoCalls : List (StoreCall Unit) := [.appendHistory demoFeed demoRecord none]

def demoMore : List (StoreCall Unit) := [.appendHistory demoFeed demoReply (some demoRecord.id)]

/-- The range of the first record, taken before the second one was appended, is
read back after it, and both stores hold the chain of the two. -/
theorem stores_agree_chain : ∃ range rs rest,
    OneAnswers (demoFormat none) demoCalls (.snapshotHistory demoFeed 1 1) (.range range)
      ∧ HoldChain (demoFormat none) (demoCalls ++ demoMore) demoFeed (rs ++ rest)
      ∧ (rs ++ rest).map RuntimeHistoryRecord.messageId = ["hello", "reply"]
      ∧ BothAnswer (demoFormat none) (demoCalls ++ demoMore) (.hydrateRecords range)
        (.records (slice rs 1 1)) := by
  have hcs : ∀ c ∈ demoCalls, c.Within ((demoFormat none).Admits DemoMade) := by
    intro c hc
    rw [List.mem_singleton.mp hc]
    exact ⟨.inl rfl, by decide, rfl⟩
  have hm : ∀ c ∈ demoMore, c.Within ((demoFormat none).Admits DemoMade) := by
    intro c hc
    rw [List.mem_singleton.mp hc]
    exact ⟨.inr rfl, by decide, rfl⟩
  obtain ⟨-, hfeeds⟩ := stores_agree (demoFormat_reads none) hcs
  obtain ⟨rs, -, -, hlt⟩ := hfeeds demoFeed
  obtain ⟨⟨rest, hch⟩, hranges⟩ := hlt demoMore hm
  have htk : OneAnswers (demoFormat none) demoCalls (.snapshotHistory demoFeed 1 1)
      (.range ((demoFormat none).range demoFeed 1 1 (jsonlOf [demoRecord.canonical]))) :=
    .inl rfl
  refine ⟨_, rs, rest, htk, hch, ?_, (hranges 1 1 _ htk).2.1⟩
  rw [← hch.memory]
  decide +kernel

/-- **A store with the archive of another owner refuses an append** that the
store in memory makes: the record has no native part and its sequence is small. -/
theorem stores_differ_archive :
    (demoFormat (some "bob")).Reads DemoMade ∧ demoRecord.sequence < 2 ^ 63
      ∧ ¬SameAnswer (demoFormat (some "bob")) [] (.appendHistory demoFeed demoRecord none) := by
  refine ⟨demoFormat_reads _, by decide, fun hsm => ?_⟩
  have hmm : ((memoryAfter (demoFormat (some "bob")) []).call
      (demoFormat (some "bob")).toContextFormat
        (.appendHistory demoFeed demoRecord none)).1.toOption = some (.append .appended) :=
    rfl
  have hsql : ((sqliteAfter (demoFormat (some "bob")) []).call
      (demoFormat (some "bob")) (.appendHistory demoFeed demoRecord none)).1.toOption = none := rfl
  unfold SameAnswer at hsm
  rw [hmm, hsql] at hsm
  cases hsm

end NeoGraph.Context

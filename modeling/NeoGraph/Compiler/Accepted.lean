import NeoGraph.Compiler.Parse

/-!
# Accepted documents

What the failure routing keys of an accepted document say, and what was read
from them: each reader has a lemma that lists the spellings it accepts.

A reader reports what it does not accept and goes on, so that a document is told
all its faults at once. Accepted is what nothing was reported about; the lemmas
say nothing about a value that was read beside a report.
-/

namespace NeoGraph.Compiler

open Checked

/-! ## Fields -/

variable {α : Type} {β : Type} {x : Checked α}

theorem Checked.map_accepts {f : α → β} {b : β} :
    (f <$> x).Accepts b ↔ ∃ a, x.Accepts a ∧ f a = b := by
  show (x >>= fun a => pure (f a)).Accepts b ↔ _
  simp only [bind_accepts, pure_accepts]

/-- A computation without findings gives its value. -/
theorem Checked.accepts_value (h : x.diagnostics = []) : x.Accepts x.value := ⟨h, rfl⟩

/-! ## Failure routing -/

variable {field : String}

theorem optionalField_accepts {object : Document} {read : Document → Checked (Option α)}
    {o : Option α} (h : (optionalField object field read).Accepts o) :
    object.get? field = none ∧ o = none
      ∨ ∃ v, object.get? field = some v ∧ (read v).Accepts o := by
  unfold optionalField at h
  split at h
  · rename_i hn
    exact .inl ⟨hn, (pure_accepts.mp h).symm⟩
  · rename_i v hv
    exact .inr ⟨v, hv, h⟩

/-- What was read from an integer of a node's retry policy. -/
def ReadsInteger (v : Option Document) (o : Option ℤ) : Prop :=
  v = none ∧ o = none
    ∨ ∃ w n, v = some w ∧ int? w = some n ∧ o = some n ∧ 0 ≤ n ∧ n ≤ 2 ^ 31 - 1

variable {policy : Document} {pointer : String}

theorem boundedInteger_accepts {minimum maximum : ℤ} (hmin : 0 ≤ minimum)
    (hm : maximum ≤ 2 ^ 31 - 1) {o : Option ℤ}
    (h : (optionalField policy field fun v => boundedInteger v pointer minimum maximum).Accepts o) :
    ReadsInteger (policy.get? field) o := by
  obtain h | ⟨v, hv, h⟩ := optionalField_accepts h
  · exact .inl h
  unfold boundedInteger at h
  split at h
  · exact absurd h not_report_bind
  rename_i n hn
  split_ifs at h with hrg
  · exact .inr ⟨v, n, hv, hn, (pure_accepts.mp h).symm, by omega, by omega⟩
  · exact absurd h not_report_bind

variable {index : ℕ}

/-- Every member of a list of codes is text. -/
theorem readCodes_accepts {seen names : Finset String} {codes : List Document}
    (h : (readCodes pointer index seen codes).Accepts names) :
    ∃ l : List String, codes = l.map .str ∧ names = seen ∪ l.toFinset := by
  induction codes generalizing index seen with
  | nil =>
    obtain rfl := pure_accepts.mp h
    exact ⟨[], rfl, by rw [List.toFinset_nil, Finset.union_empty]⟩
  | cons code codes ih =>
    cases code with
    | str text =>
      rw [readCodes] at h
      split at h
      · rw [bind_unit_accepts] at h
        obtain ⟨l, rfl, rfl⟩ := ih h.2
        refine ⟨text :: l, rfl, ?_⟩
        rw [List.toFinset_cons, Finset.insert_union, Finset.union_insert]
      · exact absurd h not_report_bind
    | _ =>
      rw [readCodes] at h
      · exact absurd h not_report_bind
      · exact nofun

/-- What was read from the retry policy of a node. -/
structure ReadsNodePolicy (f : FloatOps) (policy : Document) (spec : NodeRetryPolicySpec) :
    Prop where
  maxRetries : ReadsInteger (policy.get? "max_retries") spec.maxRetries
  initialDelayMs : ReadsInteger (policy.get? "initial_delay_ms") spec.initialDelayMs
  maxDelayMs : ReadsInteger (policy.get? "max_delay_ms") spec.maxDelayMs
  maxVisits : ReadsInteger (policy.get? "max_visits") spec.maxVisits
  attemptTimeoutMs : ReadsInteger (policy.get? "attempt_timeout_ms") spec.attemptTimeoutMs
  backoffMultiplier : policy.get? "backoff_multiplier" = none ∧ spec.backoffMultiplier = none
    ∨ ∃ w bits, policy.get? "backoff_multiplier" = some w ∧ double? f w = some bits
        ∧ spec.backoffMultiplier = some bits
  errorText : policy.get? "error_text" = spec.errorText.map Json.bool
  nonRetryable : policy.get? "non_retryable" = none ∧ spec.nonRetryable = ∅
    ∨ ∃ l : List String, policy.get? "non_retryable" = some (.arr (l.map .str))
        ∧ spec.nonRetryable = l.toFinset
  known : ∀ n ∈ policy.members, isAnnotationKey n.1 = true ∨ n.1 ∈ nodeRetryFields

variable {f : FloatOps}

theorem readBackoff_accepts {o : Option UInt64}
    (h : (optionalField policy field (readBackoff f pointer)).Accepts o) :
    policy.get? field = none ∧ o = none
      ∨ ∃ w bits, policy.get? field = some w ∧ double? f w = some bits ∧ o = some bits := by
  obtain h | ⟨v, hv, h⟩ := optionalField_accepts h
  · exact .inl h
  unfold readBackoff at h
  split at h
  · exact absurd h not_report_bind
  rename_i bits hb
  split at h
  · exact .inr ⟨v, bits, hv, hb, (pure_accepts.mp h).symm⟩
  · exact absurd h not_report_bind

theorem readBoolean_accepts {o : Option Bool}
    (h : (optionalField policy field (readBoolean pointer)).Accepts o) :
    policy.get? field = o.map Json.bool := by
  obtain ⟨hv, rfl⟩ | ⟨v, hv, h⟩ := optionalField_accepts h
  · exact hv
  unfold readBoolean at h
  split at h
  · obtain rfl := pure_accepts.mp h
    exact hv
  · exact absurd h not_report_bind

theorem readNonRetryable_accepts {o : Option (Finset String)}
    (h : (optionalField policy field (readNonRetryable pointer)).Accepts o) :
    policy.get? field = none ∧ o.getD ∅ = ∅
      ∨ ∃ l : List String, policy.get? field = some (.arr (l.map .str))
          ∧ o.getD ∅ = l.toFinset := by
  obtain ⟨hv, rfl⟩ | ⟨v, hv, h⟩ := optionalField_accepts h
  · exact .inl ⟨hv, rfl⟩
  unfold readNonRetryable at h
  split at h
  · split at h
    · rw [bind_accepts] at h
      obtain ⟨names, hn, h⟩ := h
      obtain rfl := pure_accepts.mp h
      obtain ⟨l, rfl, rfl⟩ := readCodes_accepts hn
      exact .inr ⟨l, hv, Finset.empty_union _⟩
    · exact absurd h not_report_bind
  · exact absurd h not_report_bind

theorem parseNodeRetryPolicy_accepts {spec : NodeRetryPolicySpec}
    (h : (parseNodeRetryPolicy f policy pointer).Accepts spec) : ReadsNodePolicy f policy spec := by
  unfold parseNodeRetryPolicy at h
  simp only [bind_accepts, pure_accepts] at h
  obtain ⟨_, h₀, maxRetries, h₁, initialDelay, h₂, maxDelay, h₃, maxVisits, h₄, timeout, h₅,
    backoff, h₆, errorText, h₇, codes, h₈, rfl⟩ := h
  have hini := boundedInteger_accepts (by decide) (by decide) h₂
  refine ⟨boundedInteger_accepts (by decide) (by decide) h₁, hini,
    boundedInteger_accepts ?_ (by decide) h₃,
    boundedInteger_accepts (by decide) (by decide) h₄,
    boundedInteger_accepts (by decide) (by decide) h₅, readBackoff_accepts h₆,
    readBoolean_accepts h₇, readNonRetryable_accepts h₈, enforceConsumed_accepts.mp h₀.1⟩
  obtain ⟨-, h⟩ | ⟨w, n, -, -, h, hn, -⟩ := hini
  · rw [show initialDelay = none from h]
    decide
  · rw [show initialDelay = some n from h]
    exact hn

/-- What was read from the members of an object under a failure key. -/
def ReadsMembers {β : Type} (R : Document → Option β → Prop) (v : Option Document)
    (l : List (String × β)) : Prop :=
  v = none ∧ l = []
    ∨ ∃ (members : List (String × Document)) (value : String × Document → Option β),
        v = some (.obj members)
        ∧ (∀ m ∈ members, m.2.isObject = true ∧ R m.2 (value m))
        ∧ l = members.filterMap fun m => (value m).map fun b => (m.1, b)

theorem failureKeyMembers_accepts {definition : Document} {key : String}
    {read : String → String → Document → Checked (Option β)} {l : List (String × β)}
    {R : Document → Option β → Prop}
    (hrd : ∀ name pointer v o, (read name pointer v).Accepts o → R v o)
    (h : (failureKeyMembers definition key read).Accepts l) :
    ReadsMembers R (definition.get? key) l := by
  unfold failureKeyMembers at h
  split at h
  · rename_i hn
    exact .inl ⟨hn, (pure_accepts.mp h).symm⟩
  · rename_i members hmbr
    rw [collect_accepts] at h
    obtain ⟨hd, rfl⟩ := h
    refine .inr ⟨members,
      fun m => (read m.1 ("/" ++ key ++ "/" ++ pointerToken m.1) m.2).value, hmbr, ?_, ?_⟩
    · rintro ⟨name, v⟩ hm
      have hv := accepts_value (hd _ hm)
      dsimp only at hv
      split at hv
      · rw [bind_accepts] at hv
        obtain ⟨o, ho, -⟩ := hv
        exact ⟨rfl, hrd _ _ _ _ (accepts_value ho.1)⟩
      · exact absurd hv not_report_bind
    · refine List.filterMap_congr fun m hm => ?_
      obtain ⟨name, v⟩ := m
      have hv := accepts_value (hd _ hm)
      dsimp only at hv ⊢
      split at hv
      · rfl
      · exact absurd hv not_report_bind
  · exact absurd h not_report_bind

/-- What was read from a failure exit. -/
structure ReadsExit (exit : Document) (code : String) : Prop where
  code : exit.get? "code" = none ∧ code = "" ∨ exit.get? "code" = some (.str "NG.Aborted")
    ∧ code = ""
    ∨ exit.get? "code" = some (.str code) ∧ code ≠ "" ∧ code ≠ "NG.Aborted"
  known : ∀ n ∈ exit.members, isAnnotationKey n.1 = true ∨ n.1 ∈ ["code"]

variable {o : Option String}

theorem readExitCode_accepts {v : Option Document} (h : (readExitCode pointer v).Accepts o) :
    ∃ code, o = some code ∧ (v = none ∧ code = "" ∨ v = some (.str "NG.Aborted") ∧ code = ""
      ∨ v = some (.str code) ∧ code ≠ "" ∧ code ≠ "NG.Aborted") := by
  unfold readExitCode at h
  split at h
  · exact ⟨"", (pure_accepts.mp h).symm, .inl ⟨rfl, rfl⟩⟩
  · rename_i text
    split at h
    · rename_i ht
      exact ⟨"", (pure_accepts.mp h).symm, .inr (.inl ⟨ht ▸ rfl, rfl⟩)⟩
    rename_i ht
    split at h
    · rename_i hauthor
      refine ⟨text, (pure_accepts.mp h).symm, .inr (.inr ⟨rfl, ?_, ht⟩)⟩
      rintro rfl
      revert hauthor
      decide
    · exact absurd h not_report_bind
  · exact absurd h not_report_bind

/-- What was read from a failure edge. -/
structure ReadsFailureEdge (edge : Document) (e : FailureEdge) : Prop where
  object : edge.isObject = true
  src : edge.get? "from" = some (.str e.src)
  dst : edge.get? "to" = some (.str e.dst)
  errorChannel : edge.get? "error_channel" = e.errorChannel.map Json.str
  known : ∀ n ∈ edge.members, isAnnotationKey n.1 = true ∨ n.1 ∈ ["from", "to", "error_channel"]

variable {edge : Document}

theorem readFailureEnd_accepts (h : (readFailureEnd edge pointer field).Accepts o) :
    ∃ s, o = some s ∧ edge.get? field = some (.str s) := by
  unfold readFailureEnd at h
  split at h
  · exact absurd h not_report_bind
  · rename_i s hs
    split at h
    · exact absurd h not_report_bind
    · exact ⟨s, (pure_accepts.mp h).symm, hs⟩
  · exact absurd h not_report_bind

theorem readErrorChannel_accepts {o : Option (Option String)}
    (h : (readErrorChannel edge pointer).Accepts o) :
    ∃ channel, o = some channel ∧ edge.get? "error_channel" = channel.map Json.str := by
  unfold readErrorChannel at h
  split at h
  · rename_i hn
    exact ⟨none, (pure_accepts.mp h).symm, hn⟩
  · rename_i s hs
    split at h
    · exact absurd h not_report_bind
    · exact ⟨some s, (pure_accepts.mp h).symm, hs⟩
  · exact absurd h not_report_bind

theorem readFailureEdge_accepts {o : Option FailureEdge}
    (h : (readFailureEdge pointer edge).Accepts o) : ∃ e, o = some e ∧ ReadsFailureEdge edge e := by
  unfold readFailureEdge at h
  split at h
  · simp only [bind_accepts, pure_accepts] at h
    obtain ⟨_, hkn, _, hsrc, _, hdst, _, hc, rfl⟩ := h
    obtain ⟨src, rfl, hf⟩ := readFailureEnd_accepts hsrc
    obtain ⟨dst, rfl, hto⟩ := readFailureEnd_accepts hdst
    obtain ⟨channel, rfl, hnm⟩ := readErrorChannel_accepts hc
    exact ⟨⟨src, dst, channel⟩, rfl, rfl, hf, hto, hnm, enforceConsumed_accepts.mp hkn.1⟩
  · exact absurd h not_report_bind

/-- The failure edges that were accepted. -/
theorem readFailureEdges_accepts {context : FailureKeyContext} {exits : SortedMap String String}
    {sources : List String} {items : List Document} {edges : List FailureEdge}
    (h : (readFailureEdges context exits index sources items).Accepts edges) :
    List.Forall₂ ReadsFailureEdge items edges := by
  induction items generalizing index sources edges with
  | nil =>
    obtain rfl := pure_accepts.mp h
    exact List.Forall₂.nil
  | cons v items ih =>
    rw [readFailureEdges, bind_accepts] at h
    obtain ⟨_, he, h⟩ := h
    obtain ⟨e, rfl, hrd⟩ := readFailureEdge_accepts he
    dsimp only at h
    split at h
    · exact absurd h not_report_bind
    rw [bind_accepts] at h
    obtain ⟨rest, hr, h⟩ := h
    obtain rfl := pure_accepts.mp h
    exact List.Forall₂.cons hrd (ih hr)

/-- What was read from the failure routing keys. -/
structure ReadsFailureKeys (f : FloatOps) (d : Document) (keys : FailureRoutingKeys) : Prop where
  policies : ∃ l, ReadsMembers (fun v o => ∃ spec, ReadsNodePolicy f v spec
      ∧ o = if spec.isEmpty then none else some spec) (d.get? "node_retry_policies") l
    ∧ keys.nodeRetryPolicies = SortedMap.ofList l
  exits : ∃ l, ReadsMembers (fun v o => ∃ code, ReadsExit v code ∧ o = some code)
      (d.get? "failure_exits") l
    ∧ keys.failureExits = SortedMap.ofList l
  edges : d.get? "failure_edges" = none ∧ keys.failureEdges = []
    ∨ ∃ items edges, d.get? "failure_edges" = some (.arr items)
        ∧ List.Forall₂ ReadsFailureEdge items edges
        ∧ keys.failureEdges = edges.insertionSort fun a b => a.src ≤ b.src

/-- What was read where nothing was reported. -/
theorem parseFailureRoutingKeys_accepts {d : Document} {keys : FailureRoutingKeys}
    (h : (parseFailureRoutingKeys f d).Accepts keys) : ReadsFailureKeys f d keys := by
  unfold parseFailureRoutingKeys at h
  simp only [bind_accepts, pure_accepts] at h
  obtain ⟨policies, hpol, exits, he, edges, hed, rfl⟩ := h
  refine ⟨⟨policies, failureKeyMembers_accepts ?_ hpol, rfl⟩,
    ⟨exits, failureKeyMembers_accepts ?_ he, rfl⟩, ?_⟩
  · intro name pointer v o ho
    rw [bind_accepts] at ho
    obtain ⟨spec, hsp, ho⟩ := ho
    exact ⟨spec, parseNodeRetryPolicy_accepts hsp, (pure_accepts.mp ho).symm⟩
  · intro name pointer v o ho
    simp only [bind_accepts] at ho
    obtain ⟨_, hkn, _, hc, ho⟩ := ho
    obtain ⟨code, rfl, hrd⟩ := readExitCode_accepts hc
    dsimp only at ho
    split at ho
    · exact absurd ho not_report_bind
    · exact ⟨code, ⟨hrd, enforceConsumed_accepts.mp hkn.1⟩, (pure_accepts.mp ho).symm⟩
  · unfold parseFailureEdges at hed
    split at hed
    · rename_i hn
      exact .inl ⟨hn, (pure_accepts.mp hed).symm⟩
    · rename_i items his
      rw [bind_accepts] at hed
      obtain ⟨es, hes, hs⟩ := hed
      exact .inr ⟨items, es, his, readFailureEdges_accepts hes, (pure_accepts.mp hs).symm⟩
    · exact absurd hed not_report_bind

end NeoGraph.Compiler

import Mathlib

/-!
# Machines whose operations may fail

A component with an explicit state and operations that either produce a
new state or fail and change nothing. `runOps` is the state after a
sequence of operations, and `succeeded` lists the operations of the
sequence that did not fail.

Safety properties of such a component are proved operation by operation.
`runOps_invariant_of_succeeded` and `runOps_invariant` lift an invariant of
single operations to sequences, and `claims_nodup` says that a slot which
an operation burns is not claimed again. Where a failed operation ends the
run, `Throughout` says that something holds of all its steps.

A component of immutable values answers each call with a new value.
`runCalls` is the value after a sequence of calls and `answers` lists the
answers; two values that are related, in a way calls keep, answer a sequence
alike (`answers_related`).
-/

open List

variable {S O E : Type*}

/-- The state after a sequence of operations, of which those that fail
change nothing. -/
def runOps (step : S → O → Except E S) : S → List O → S
  | s, [] => s
  | s, op :: ops =>
    match step s op with
    | .ok s' => runOps step s' ops
    | .error _ => runOps step s ops

/-- The operations of a sequence that do not fail, each with the state it
was applied to. -/
def succeeded (step : S → O → Except E S) : S → List O → List (S × O)
  | _, [] => []
  | s, op :: ops =>
    match step s op with
    | .ok s' => (s, op) :: succeeded step s' ops
    | .error _ => succeeded step s ops

variable {step : S → O → Except E S} {P : S → Prop} {s : S} {ops : List O}

/-- **An invariant of single operations is an invariant of sequences.**
Only the operations that do not fail have to keep it, and the sequence may
promise something about those. -/
theorem runOps_invariant_of_succeeded {Q : O → Prop}
    (hst : ∀ s op s', P s → Q op → step s op = .ok s' → P s') (hs : P s)
    (ho : ∀ p ∈ succeeded step s ops, Q p.2) : P (runOps step s ops) := by
  induction ops generalizing s with
  | nil => exact hs
  | cons op ops ih =>
    unfold succeeded at ho
    unfold runOps
    cases h : step s op with
    | ok s' =>
      rw [h] at ho
      exact ih (hst s op s' hs (ho (s, op) mem_cons_self) h)
        (fun p hp => ho p (mem_cons_of_mem _ hp))
    | error e =>
      rw [h] at ho
      exact ih hs ho

/-- An invariant of all operations is an invariant of all sequences. -/
theorem runOps_invariant (hst : ∀ s op s', P s → step s op = .ok s' → P s')
    (hs : P s) (ops : List O) : P (runOps step s ops) :=
  runOps_invariant_of_succeeded (Q := fun _ => True)
    (fun s op s' hs _ h => hst s op s' hs h) hs (fun _ _ => trivial)

theorem runOps_append (s : S) (ops ops' : List O) :
    runOps step s (ops ++ ops') = runOps step (runOps step s ops) ops' := by
  induction ops generalizing s with
  | nil => rfl
  | cons op ops ih =>
    simp only [cons_append, runOps]
    cases step s op with
    | ok s' => exact ih s'
    | error e => exact ih s

/-- A last operation that does not fail. -/
theorem runOps_concat {s' : S} {op : O}
    (h : step (runOps step s ops) op = .ok s') : runOps step s (ops ++ [op]) = s' := by
  simp only [runOps_append, runOps, h]

/-- **Slots that are burned are used at most once.** If operations may
claim a slot, a claim succeeds only on a slot that is not burned and burns
it, and no operation restores a slot, then the slots claimed along a
sequence are all different, and different from those burned before. -/
theorem claims_nodup {K : Type*} {B : S → Set K} {claim : O → Option K}
    (hmono : ∀ s op s', step s op = .ok s' → B s ⊆ B s')
    (hcl : ∀ s op s' k, step s op = .ok s' → claim op = some k → k ∉ B s ∧ k ∈ B s')
    (s : S) (ops : List O) : ((succeeded step s ops).filterMap (fun p => claim p.2)).Nodup
      ∧ ∀ k ∈ (succeeded step s ops).filterMap (fun p => claim p.2), k ∉ B s := by
  induction ops generalizing s with
  | nil => exact ⟨nodup_nil, fun k hk => absurd hk not_mem_nil⟩
  | cons op ops ih =>
    unfold succeeded
    cases h : step s op with
    | error e => exact ih s
    | ok s' =>
      obtain ⟨hnd, hfr⟩ := ih s'
      have hfr' : ∀ k ∈ (succeeded step s' ops).filterMap (fun p => claim p.2), k ∉ B s :=
        fun k hk hb => hfr k hk (hmono s op s' h hb)
      cases hk : claim op with
      | none =>
        simp only [filterMap_cons, hk]
        exact ⟨hnd, hfr'⟩
      | some k =>
        obtain ⟨hk₁, hk₂⟩ := hcl s op s' k h hk
        simp only [filterMap_cons, hk]
        refine ⟨nodup_cons.mpr ⟨fun hm => hfr k hm hk₂, hnd⟩, fun k' hk' => ?_⟩
        obtain rfl | hk' := mem_cons.mp hk'
        · exact hk₁
        · exact hfr' k' hk'

/-! ## Steps that stop a run -/

/-- Something holds of every step of a run, with the state it is taken in. -/
def Throughout (step : S → O → Option S) (P : S → O → Prop) : S → List O → Prop
  | _, [] => True
  | s, op :: ops => P s op ∧ ∀ s', step s op = some s' → Throughout step P s' ops

/-- What is the same of every step in the states that an invariant holds of is
the same throughout a run. -/
theorem throughout_congr {next : S → O → Option S} {I : S → Prop} {P Q : S → O → Prop}
    (hkp : ∀ s op s', I s → next s op = some s' → I s') (hPQ : ∀ s op, I s → (P s op ↔ Q s op))
    {s : S} (hs : I s) (ops : List O) : Throughout next P s ops ↔ Throughout next Q s ops := by
  induction ops generalizing s with
  | nil => exact Iff.rfl
  | cons op ops ih =>
    unfold Throughout
    exact and_congr (hPQ s op hs) (forall_congr' fun s' => forall_congr' fun hst =>
      ih (hkp s op s' hs hst))

/-! ## Values that answer calls -/

section Answers

variable {V C U : Type}

/-- The value after a sequence of calls, each made on the value the previous
one answered with. -/
def runCalls (call : V → C → Except E U) (value : U → V) : V → List C → Except E V
  | v, [] => .ok v
  | v, c :: cs =>
    match call v c with
    | .ok u => runCalls call value (value u) cs
    | .error e => .error e

/-- The answers to a sequence of calls. -/
def answers (call : V → C → Except E U) (value : U → V) : V → List C → Except E (List U)
  | _, [] => .ok []
  | v, c :: cs =>
    match call v c with
    | .ok u =>
      match answers call value (value u) cs with
      | .ok us => .ok (u :: us)
      | .error e => .error e
    | .error e => .error e

/-- The value after one call, if the call answers. -/
def callStep (call : V → C → Except E U) (value : U → V) (v : V) (c : C) : Option V :=
  (call v c).toOption.map value

variable {call : V → C → Except E U} {value : U → V}
  {P K : V → Prop} {Q : C → Prop} {L M : V → C → Prop} {v : V} {cs : List C}

/-- What holds of a run after a call that answered. -/
theorem Throughout.after {c : C} {u : U} (h : Throughout (callStep call value) L v (c :: cs))
    (hu : call v c = .ok u) : Throughout (callStep call value) L (value u) cs :=
  h.2 (value u) (by rw [callStep, hu]; rfl)

/-- **Calls answer under an invariant** `P`, which holds of every value reached;
what single calls keep besides, sequences keep. -/
theorem runCalls_keeps (hc : ∀ v c, P v → Q c →
      ∃ u, call v c = .ok u ∧ P (value u) ∧ (K v → L v c → K (value u))) (hv : P v)
    (hcs : ∀ c ∈ cs, Q c) : ∃ w, runCalls call value v cs = .ok w ∧ P w
      ∧ (K v → Throughout (callStep call value) L v cs → K w) := by
  induction cs generalizing v with
  | nil => exact ⟨v, rfl, hv, fun hK _ => hK⟩
  | cons c cs ih =>
    obtain ⟨u, hu, hP, hkp⟩ := hc v c hv (hcs c mem_cons_self)
    obtain ⟨w, hw, hPw, hKw⟩ := ih hP fun c' hc' => hcs c' (mem_cons_of_mem c hc')
    refine ⟨w, ?_, hPw, fun hK hL => hKw (hkp hK hL.1) (hL.after hu)⟩
    rw [runCalls, hu]
    exact hw

/-- **Related values answer alike.** -/
theorem answers_related {R : V → V → Prop} {S : U → U → Prop}
    (hc : ∀ v w c, R v w → Q c → M v c → ∃ u u', call v c = .ok u ∧ call w c = .ok u'
      ∧ S u u' ∧ R (value u) (value u')) {w : V} (hvw : R v w) (hcs : ∀ c ∈ cs, Q c)
    (hM : Throughout (callStep call value) M v cs) :
    ∃ us us', answers call value v cs = .ok us ∧ answers call value w cs = .ok us'
      ∧ List.Forall₂ S us us' := by
  induction cs generalizing v w with
  | nil => exact ⟨[], [], rfl, rfl, List.Forall₂.nil⟩
  | cons c cs ih =>
    obtain ⟨u, u', hu, hu', hS, hR⟩ := hc v w c hvw (hcs c mem_cons_self) hM.1
    obtain ⟨us, us', hus, hus', ha⟩ :=
      ih hR (fun c' hc' => hcs c' (mem_cons_of_mem c hc')) (hM.after hu)
    refine ⟨u :: us, u' :: us', ?_, ?_, List.Forall₂.cons hS ha⟩
    · rw [answers, hu]
      dsimp only
      rw [hus]
    · rw [answers, hu']
      dsimp only
      rw [hus']

/-- **Values that are stored between calls.** `P` holds of every value reached
and `K` of those that are stored, if `L` holds of the calls before. A stored
value is read back as one that `R` relates to it, and related values answer
alike the calls that `M` holds of. -/
theorem runCalls_stored {B : Type} {serialize : V → Except E B} {parse : B → Except E V}
    {R A : V → V → Prop} {O N : V → C → U → Prop} {S : U → U → Prop}
    (hcl : ∀ v c, P v → Q c → ∃ u, call v c = .ok u ∧ O v c u ∧ P (value u) ∧ N v c u)
    (hLM : ∀ v c, M v c → L v c)
    (hkp : ∀ v c u, K v → Q c → L v c → N v c u → K (value u))
    (hrd : ∀ v, K v → ∃ bytes w, serialize v = .ok bytes ∧ parse bytes = .ok w ∧ R v w)
    (heq : ∀ v w, R v w → K v → A w v)
    (ha : ∀ v w c, R v w → P v → Q c → M v c → ∃ u u', call v c = .ok u
      ∧ call w c = .ok u' ∧ S u u' ∧ R (value u) (value u')) (hv : P v) (hcs : ∀ c ∈ cs, Q c) :
    ∃ w, runCalls call value v cs = .ok w ∧ (∀ c, Q c → ∃ u, call w c = .ok u ∧ O w c u)
      ∧ (K v → Throughout (callStep call value) L v cs → ∃ bytes w', serialize w = .ok bytes
        ∧ parse bytes = .ok w' ∧ A w' w ∧ ∀ cs, (∀ c ∈ cs, Q c) →
          Throughout (callStep call value) M w cs → ∃ us us', answers call value w cs = .ok us
            ∧ answers call value w' cs = .ok us'
            ∧ List.Forall₂ (fun u u' => S u u' ∧ A (value u') (value u)) us us') := by
  obtain ⟨w, hr, hP, hK⟩ := runCalls_keeps (fun v c hv hc => by
    obtain ⟨u, hu, -, hP, hN⟩ := hcl v c hv hc
    exact ⟨u, hu, hP, fun hK hL => hkp v c u hK hc hL hN⟩) hv hcs
  refine ⟨w, hr, fun c hc => ?_, fun hKv hL => ?_⟩
  · obtain ⟨u, hu, hO, -⟩ := hcl w c hP hc
    exact ⟨u, hu, hO⟩
  have hKw := hK hKv hL
  obtain ⟨bytes, w', hbs, hp, hR⟩ := hrd w hKw
  refine ⟨bytes, w', hbs, hp, heq w w' hR hKw, fun cs hcs => ?_⟩
  refine answers_related (R := fun v w => R v w ∧ K v ∧ P v) ?_ ⟨hR, hKw, hP⟩ hcs
  rintro v w c ⟨hR, hKv, hPv⟩ hQ hM
  obtain ⟨u, u', hu, hu', hS, hR'⟩ := ha v w c hR hPv hQ hM
  obtain ⟨u₁, hu₁, -, hPu, hN⟩ := hcl v c hPv hQ
  cases Except.ok.inj (hu.symm.trans hu₁)
  have hKu := hkp v c u hKv hQ (hLM v c hM) hN
  exact ⟨u, u', hu, hu', ⟨hS, heq _ _ hR' hKu⟩, hR', hKu, hPu⟩

end Answers

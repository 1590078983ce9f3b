import NeoGraph.Program.GraphMigration

/-!
# A migrated checkpoint continues as before

A checkpoint leads to the nodes it names and to the plans of the super-steps
from there on (`continuation`). Two topologies with the same projection have
the same scheduler if they also agree on what the shape leaves out
(`scheduler_eq`), and then the continuation is kept
(`migration_keeps_continuation`). They need not agree: `join_fires_early` is
a migration after which a join does not wait for one of its sources.
-/

namespace NeoGraph.Program.Migration

open List CanonicalJson Compiler

/-! ## Continuations -/

/-- What the nodes of a super-step leave to the scheduler. -/
structure SuperStep (σ : Type) where
  routings : List StepRouting
  state : σ
  /-- The nodes whose failure is handled. -/
  failed : List Bool

/-- The plans of super-steps, each with the barrier state after it. A
failure to plan ends the run. -/
def superSteps {σ : Type} (sch : Scheduler σ) :
    BarrierState → List (SuperStep σ) → List (Except Exn (NextStepPlan × BarrierState))
  | _, [] => []
  | barriers, step :: steps =>
    match sch.planNextStep step.routings step.state barriers step.failed with
    | .error e => [.error e]
    | .ok (plan, barriers') => .ok (plan, barriers') :: superSteps sch barriers' steps

/-- What a checkpoint leads to: the nodes that run next, and the plans from
there on. -/
def continuation {σ : Type} (sch : Scheduler σ) (checkpoint : Checkpoint)
    (steps : List (SuperStep σ)) : List String × List (Except Exn (NextStepPlan × BarrierState)) :=
  (checkpoint.nextNodes, superSteps sch checkpoint.barrierState steps)

/-- A join has all the signals it waits for. -/
def joinSatisfied {σ : Type} (sch : Scheduler σ) (join : String) (signals : Finset String) : Bool :=
  satisfied (sch.barrierSpecs.find? join) (sch.joinSpecs.find? join) signals

/-- What the shape leaves out: what joins wait for, and the routes under the
hidden marker. -/
structure SameWaits (s t : TopologySpec) : Prop where
  barriers : s.barrierSpecs = t.barrierSpecs
  joins : s.joinSpecs = t.joinSpecs
  legacy : (linkConditionalEdges s).map (fun ce => ce.routes.find? legacyDefaultRoute)
    = (linkConditionalEdges t).map fun ce => ce.routes.find? legacyDefaultRoute

theorem SameDeclared.withHistoricalRoute {ce ce' : ConditionalEdge} (h : SameDeclared ce ce') :
    SameDeclared (withHistoricalRoute ce) (withHistoricalRoute ce') := by
  obtain ⟨hsrc, hc, hr⟩ := withHistoricalRoute_spec ce
  obtain ⟨hsrc', hc', hr'⟩ := withHistoricalRoute_spec ce'
  refine ⟨?_, ?_, fun key hk => ?_⟩
  · rw [hsrc, hsrc', h.src]
  · rw [hc, hc', h.condition]
  · rw [hr key hk, hr' key hk, h.routes key hk]

variable {s t : TopologySpec}

/-- Linking keeps the edges the same. -/
theorem linkConditionalEdges_related (hv : s.schemaVersion = t.schemaVersion)
    (h : List.Forall₂ SameDeclared s.conditionalEdges t.conditionalEdges) :
    List.Forall₂ SameDeclared (linkConditionalEdges s) (linkConditionalEdges t) := by
  unfold linkConditionalEdges
  rw [← hv]
  split
  · rw [forall₂_map_left_iff, forall₂_map_right_iff]
    exact h.imp fun _ _ hd => hd.withHistoricalRoute
  · exact h

/-- Conditional edges are the same if they are declared so and fall back to
the same target. -/
theorem eq_of_sameDeclared {l l' : List ConditionalEdge} (h : List.Forall₂ SameDeclared l l')
    (hl : l.map (fun ce => ce.routes.find? legacyDefaultRoute)
      = l'.map fun ce => ce.routes.find? legacyDefaultRoute) : l = l' := by
  induction h with
  | nil => rfl
  | @cons ce ce' l l' hd hr ih =>
    rw [map_cons, map_cons, cons.injEq] at hl
    obtain ⟨src, condition, routes⟩ := ce
    obtain ⟨src', condition', routes'⟩ := ce'
    have hrt : routes = routes' := by
      refine SortedMap.ext_find? fun key => ?_
      by_cases hk : key = legacyDefaultRoute
      · rw [hk]
        exact hl.1
      · exact hd.routes key hk
    have hsrc : src = src' := hd.src
    have hc : condition = condition' := hd.condition
    rw [ih hl.2, hsrc, hc, hrt]

section Continuation

variable {appendFloat : UInt64 → Except Exn Bytes}
  {readFloat : UInt64 → Json Bytes}
  {parseText : Bytes → Option (Json Bytes)}
  (hformat : Format appendFloat readFloat parseText)
  {Id : Type} {sha256 : Bytes → Id} (hsha : Function.Injective sha256)
  {ctx : ParseContext}
include hformat hsha

/-- Topologies with the same projection have the same scheduler if they
agree on what the shape leaves out. -/
theorem scheduler_eq {source target : Document} {s t : TopologySpec}
    {projection projection' : TopologyProjection Id}
    (hs : Compiler.parse ctx source = .ok s) (ht : Compiler.parse ctx target = .ok t)
    (hsrc : topologyProjection appendFloat sha256 ctx source = .ok projection)
    (htgt : topologyProjection appendFloat sha256 ctx target = .ok projection')
    (hsh : projection.shapeId = projection'.shapeId) (hw : SameWaits s t)
    {σ : Type} (registry : ConditionRegistry σ) : t.scheduler registry = s.scheduler registry := by
  obtain ⟨s', bytes, hs', hbs, hid⟩ := topologyProjection_eq_ok hsrc
  obtain ⟨t', bytes', ht', hbs', hid'⟩ := topologyProjection_eq_ok htgt
  rw [hs] at hs'
  rw [ht] at ht'
  cases hs'
  cases ht'
  rw [hid, hid'] at hsh
  rw [← hsha hsh] at hbs'
  have hsm := sameBytes_of_documentBytes hformat hbs hbs'
  obtain ⟨hv, hsrt⟩ := parse_spec hs
  obtain ⟨hv', hsrt'⟩ := parse_spec ht
  obtain ⟨heq, hed, hc, hflr⟩ :=
    same_of_shape hformat.number hv hv' hsrt hsrt' hsm
  have hlk := eq_of_sameDeclared (linkConditionalEdges_related heq hc) hw.legacy
  unfold TopologySpec.scheduler
  rw [hed, hlk, hw.barriers, hw.joins, hflr]

/-- **A shape-preserving migration keeps the continuation** between
topologies whose joins wait for the same signals: the target plans what the
source would, over any further super-steps, and its joins wait for exactly
the signals they were waiting for. -/
theorem migration_keeps_continuation {source target : Document} {s t : TopologySpec}
    {projection : TopologyProjection Id} (hs : Compiler.parse ctx source = .ok s)
    (ht : Compiler.parse ctx target = .ok t)
    (hsrc : topologyProjection appendFloat sha256 ctx source = .ok projection)
    (htgt : topologyProjection appendFloat sha256 ctx target = .ok projection)
    (hw : SameWaits s t) {data : SemanticAdapterData} {capsule : GraphMigrationCapsule}
    {checkpoint : Checkpoint} (hproject : data.project capsule = .ok checkpoint) {σ : Type}
    (registry : ConditionRegistry σ) :
    (∀ steps, continuation (t.scheduler registry) checkpoint steps
      = continuation (s.scheduler registry) capsule.checkpoint steps)
    ∧ ∀ join signals, joinSatisfied (t.scheduler registry) join signals
      = joinSatisfied (s.scheduler registry) join signals := by
  rw [SemanticAdapterData.project_eq_ok hproject,
    scheduler_eq hformat hsha hs ht hsrc htgt rfl hw registry]
  exact ⟨fun steps => rfl, fun join signals => rfl⟩

end Continuation

/-! ## A join that fires early -/

theorem id_bits (bits : UInt64) : id (id bits) = id bits := rfl

theorem id_two : id (0x4000000000000000 : UInt64) = 0x4000000000000000 := rfl

/-- A context in which node types and metadata have no rules. -/
def openContext : ParseContext where
  floats := ⟨fun _ => 0, fun _ => 0, id, id_bits, id_two⟩
  dump _ := ""
  nodeConfig _ _ _ _ _ := []
  metadata _ := []

/-- A graph in which `j` is reached from `a` after one super-step and from
`b` after two. -/
def joinGraph (name : String) (waitFor : List String) : Document :=
  .obj [
    ("schema_version", .uint 1),
    ("name", .str name),
    ("nodes", .obj [
      ("a", .obj [("type", .str "work")]),
      ("b", .obj [("type", .str "work")]),
      ("c", .obj [("type", .str "work")]),
      ("j", .obj [("type", .str "work"),
        ("barrier", .obj [("wait_for", .arr (waitFor.map .str))])])]),
    ("edges", .arr ([("__start__", "a"), ("__start__", "c"), ("c", "b"), ("a", "j"),
      ("b", "j")].map fun e => .obj [("from", .str e.1), ("to", .str e.2)]))]

/-- The Core of the source graph. -/
def joinBinding : CoreBinding := ⟨"owner", "version", "bundle", "core", "generation"⟩

/-- A checkpoint before the first super-step. -/
def joinCapsule : GraphMigrationCapsule := ⟨joinBinding, [], "__start__", ["a", "c"], ∅⟩

/-- A registry without conditions. -/
def noConditions : ConditionRegistry Unit where
  condition name := .error (.runtimeError name)
  conditionSpec _ := none

/-- The first super-step: `a` and `c` return. -/
def firstStep : List (SuperStep Unit) := [⟨[⟨"a", none⟩, ⟨"c", none⟩], (), []⟩]

instance (s t : TopologySpec) : Decidable (SameWaits s t) :=
  decidable_of_iff
    (s.barrierSpecs = t.barrierSpecs ∧ s.joinSpecs = t.joinSpecs
      ∧ (linkConditionalEdges s).map (fun ce => ce.routes.find? legacyDefaultRoute)
        = (linkConditionalEdges t).map fun ce => ce.routes.find? legacyDefaultRoute)
    ⟨fun h => ⟨h.1, h.2.1, h.2.2⟩, fun h => ⟨h.1, h.2, h.3⟩⟩

/-- A migration of the graph: the two topologies, their projections, and the
checkpoint for the target. -/
def migrateJoin (target : Document) :
    Option (TopologySpec × TopologySpec × TopologyProjection Bytes × SemanticAdapterData
      × Checkpoint) := do
  let s ← (Compiler.parse openContext (joinGraph "first" ["a", "b"])).toOption
  let t ← (Compiler.parse openContext target).toOption
  let p ← (topologyProjection refuseFloat id openContext
    (joinGraph "first" ["a", "b"])).toOption
  let q ← (topologyProjection refuseFloat id openContext target).toOption
  let data ← (prepareSemanticAdapterData joinBinding p q).toOption
  let checkpoint ← (data.project joinCapsule).toOption
  some (s, t, p, data, checkpoint)

/-- What a migrated join is made of. -/
theorem migrateJoin_eq_some {target : Document}
    {p : TopologyProjection Bytes} {data : SemanticAdapterData} {checkpoint : Checkpoint}
    (h : migrateJoin target = some (s, t, p, data, checkpoint)) :
    Compiler.parse openContext (joinGraph "first" ["a", "b"]) = .ok s
      ∧ Compiler.parse openContext target = .ok t
      ∧ topologyProjection refuseFloat id openContext (joinGraph "first" ["a", "b"]) = .ok p
      ∧ topologyProjection refuseFloat id openContext target = .ok p
      ∧ prepareSemanticAdapterData joinBinding p p = .ok data
      ∧ data.project joinCapsule = .ok checkpoint := by
  unfold migrateJoin at h
  simp only [Option.bind_eq_bind, Option.bind_eq_some_iff, toOption_eq_some] at h
  obtain ⟨s', hs, t', ht, p', hp, q', hq, data', hd, checkpoint', hcp, h⟩ := h
  cases h
  obtain rfl := prepareSemanticAdapterData_eq_ok hd
  exact ⟨hs, ht, hp, hq, hd, hcp⟩

/-- The target's join no longer waits for `b`. The projections agree all the
same, and the join fires with `a` alone. -/
theorem join_fires_early :
    ∃ s t p data checkpoint,
      Compiler.parse openContext (joinGraph "first" ["a", "b"]) = .ok s
      ∧ Compiler.parse openContext (joinGraph "second" ["a"]) = .ok t
      ∧ topologyProjection refuseFloat id openContext (joinGraph "first" ["a", "b"]) = .ok p
      ∧ topologyProjection refuseFloat id openContext (joinGraph "second" ["a"]) = .ok p
      ∧ prepareSemanticAdapterData joinBinding p p = .ok data
      ∧ data.project joinCapsule = .ok checkpoint
      ∧ continuation (t.scheduler noConditions) checkpoint firstStep
        ≠ continuation (s.scheduler noConditions) joinCapsule.checkpoint firstStep := by
  have hc : (migrateJoin (joinGraph "second" ["a"])).any (fun r =>
      decide (continuation (r.2.1.scheduler noConditions) r.2.2.2.2 firstStep
        ≠ continuation (r.1.scheduler noConditions) joinCapsule.checkpoint firstStep)) = true := by
    decide +kernel
  obtain ⟨⟨s, t, p, data, checkpoint⟩, hmigrate, hdiffer⟩ := (Option.any_eq_true _ _).mp hc
  obtain ⟨hs, ht, hp, hq, hd, hcp⟩ := migrateJoin_eq_some hmigrate
  exact ⟨s, t, p, data, checkpoint, hs, ht, hp, hq, hd, hcp, of_decide_eq_true hdiffer⟩

/-- With the same joins the target plans what the source would. -/
theorem migration_keeps_continuation_renamed :
    ∃ s t checkpoint,
      Compiler.parse openContext (joinGraph "first" ["a", "b"]) = .ok s
      ∧ Compiler.parse openContext (joinGraph "second" ["a", "b"]) = .ok t
      ∧ ∀ steps, continuation (t.scheduler noConditions) checkpoint steps
        = continuation (s.scheduler noConditions) joinCapsule.checkpoint steps := by
  have hc : (migrateJoin (joinGraph "second" ["a", "b"])).any (fun r =>
      decide (SameWaits r.1 r.2.1)) = true := by
    decide +kernel
  obtain ⟨⟨s, t, p, data, checkpoint⟩, hmigrate, hw⟩ := (Option.any_eq_true _ _).mp hc
  obtain ⟨hs, ht, hp, hq, -, hcp⟩ := migrateJoin_eq_some hmigrate
  exact ⟨s, t, checkpoint, hs, ht, (migration_keeps_continuation format_refuseFloat
    Function.injective_id hs ht hp hq (of_decide_eq_true hw) hcp noConditions).1⟩

end NeoGraph.Program.Migration

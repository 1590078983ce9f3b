import NeoGraph.CanonicalJson.Documents
import NeoGraph.Compiler.Link

/-!
# Migrating a checkpoint between topologies

A run that stopped at a checkpoint of one graph may be continued under
another one. Whether it may is decided on a projection of the two topologies
(`topologyProjection`): the printed topology without its name, metadata and
retry timing, with node bodies blanked, hashed into a shape; and the names of
the nodes, of the channels a checkpoint keeps, and of the joins. Two
topologies with the same projection have an adapter between them, which
passes a checkpoint on unchanged once all names in it are known
(`SemanticAdapterData.project`).

The shape determines the edges, the routes of conditional edges and the
failure targets (`same_of_shape`). What a join waits for is written in its
node's body and is blanked with it, and a route under the hidden marker of
legacy graphs is not printed.
-/

namespace NeoGraph.Program.Migration

open CanonicalJson Compiler List

/-! ## The projection -/

/-- Why a definition has no projection: it is not accepted, or its shape has
no canonical bytes. -/
inductive ProjectionError where
  | rejected (diagnostics : List CompilerDiagnostic)
  | thrown (exception : Exn)

/-- What is compared of two topologies. -/
structure TopologyProjection (Id : Type) where
  shapeId : Id
  nodeNames : List String
  checkpointChannelNames : List String
  barrierNames : List String
deriving DecidableEq

/-- The keys of a topology that are no part of its shape. -/
def shapeless (key : String) : Bool :=
  key = "name" || key = "metadata" || key = "node_retry_policies"

/-- The shape: the printed topology, with blank node bodies. -/
def topologyShape (topology : TopologySpec) : Document :=
  .obj (Json.put (topology.toJson.members.filter fun m => !shapeless m.1) "nodes"
    (.obj (topology.nodeDefs.keys.map fun name => (name, .obj []))))

/-- The channels a checkpoint keeps, in declaration order. -/
def checkpointChannelNames (topology : TopologySpec) : List String :=
  (topology.channelDefs.filter fun cd => cd.persistence = .checkpoint).map fun cd => cd.name

/-- The names of barriers and `any_of` joins. -/
def barrierNames (topology : TopologySpec) : List String :=
  (topology.barrierSpecs.keys ++ topology.joinSpecs.keys).insertionSort (· ≤ ·)

section Projection

variable (appendFloat : UInt64 → Except Exn Bytes) {Id : Type} (sha256 : Bytes → Id)
  (ctx : ParseContext)

/-- **The projection of a sealed definition.** -/
def topologyProjection (definition : Document) : Except ProjectionError (TopologyProjection Id) :=
  match Compiler.parse ctx definition with
  | .error diagnostics => .error (.rejected diagnostics)
  | .ok topology =>
    match documentBytes appendFloat (topologyShape topology) with
    | .error exception => .error (.thrown exception)
    | .ok bytes => .ok ⟨sha256 bytes, topology.nodeDefs.keys, checkpointChannelNames topology,
        barrierNames topology⟩

end Projection

variable {Id : Type}

/-- What a projection is the digest of. -/
theorem topologyProjection_eq_ok {appendFloat : UInt64 → Except Exn Bytes} {sha256 : Bytes → Id}
    {ctx : ParseContext} {definition : Document} {projection : TopologyProjection Id}
    (h : topologyProjection appendFloat sha256 ctx definition = .ok projection) :
    ∃ topology bytes, Compiler.parse ctx definition = .ok topology
      ∧ documentBytes appendFloat (topologyShape topology) = .ok bytes
      ∧ projection.shapeId = sha256 bytes := by
  unfold topologyProjection at h
  split at h
  · cases h
  rename_i topology hp
  split at h
  · cases h
  · rename_i bytes hbs
    cases h
    exact ⟨topology, bytes, hp, hbs, rfl⟩

/-! ## The adapter -/

/-- The Core a checkpoint belongs to. -/
structure CoreBinding where
  ownerScope : String
  programVersionId : String
  bundleId : String
  coreName : String
  coreGenerationId : String
deriving DecidableEq

/-- A checkpoint, up to the values of its channels. -/
structure Checkpoint where
  /-- The channels it keeps. -/
  channels : List (String × Document)
  currentNode : String
  nextNodes : List String
  barrierState : BarrierState

/-- A checkpoint that was sealed for migration. -/
structure GraphMigrationCapsule where
  source : CoreBinding
  checkpoint : Checkpoint

/-- **An adapter**: the source it is for, and the names both topologies
have. Names are searched by bisection, so they are sorted. -/
structure SemanticAdapterData where
  source : CoreBinding
  nodeNames : List String
  checkpointChannelNames : List String
  barrierNames : List String
  sorted_nodeNames : nodeNames.Pairwise (· < ·)
  sorted_checkpointChannelNames : checkpointChannelNames.Pairwise (· < ·)
  sorted_barrierNames : barrierNames.Pairwise (· < ·)

/-- A failed check. -/
def adapterError (what : String) : Exn :=
  .invalidArgument ("Graph semantic migration adapter " ++ what)

/-- A check. -/
def ensure (ok : Bool) (what : String) : Except Exn Unit :=
  if ok then .ok () else .error (adapterError what)

theorem ensure_eq_ok {ok : Bool} {what : String} : ensure ok what = .ok () ↔ ok = true := by
  unfold ensure
  split_ifs with h
  · exact iff_of_true rfl h
  · refine iff_of_false ?_ h
    rintro ⟨⟩

/-- Tokens, sorted and unique. -/
def sortedTokens (names : List String) :
    Except Exn { names : List String // names.Pairwise (· < ·) } := do
  names.forM fun name =>
    validateToken (utf8 name) "Graph semantic migration adapter topology token"
  if h : names.Pairwise (· < ·) then .ok ⟨names, h⟩
  else .error (adapterError "topology tokens must be sorted and unique")

/-- The adapter between two topologies of the same projection. -/
def prepareSemanticAdapterData {Id : Type} [DecidableEq Id] (binding : CoreBinding)
    (source target : TopologyProjection Id) : Except Exn SemanticAdapterData := do
  ensure (source = target) "requires an identity-mapped topology shape"
  let nodeNames ← sortedTokens source.nodeNames
  let channelNames ← sortedTokens source.checkpointChannelNames
  let barrierNames ← sortedTokens source.barrierNames
  ensure (!nodeNames.1.isEmpty) "requires a nonempty control-free topology"
  .ok ⟨binding, nodeNames.1, channelNames.1, barrierNames.1, nodeNames.2, channelNames.2,
    barrierNames.2⟩

theorem prepareSemanticAdapterData_eq_ok [DecidableEq Id] {binding : CoreBinding}
    {p q : TopologyProjection Id} {data : SemanticAdapterData}
    (h : prepareSemanticAdapterData binding p q = .ok data) : p = q := by
  unfold prepareSemanticAdapterData at h
  exact of_decide_eq_true (ensure_eq_ok.mp (bind_unit_eq_ok.mp h).1)

namespace SemanticAdapterData

/-- A node of the graph, or one of its ends. -/
def knownNode (data : SemanticAdapterData) (name : String) : Bool :=
  name = startNode || name = endNode || data.nodeNames.contains name

/-- The signals a join of a checkpoint holds. -/
def checkBarrier (data : SemanticAdapterData) (entry : String × Finset String) :
    Except Exn Unit := do
  ensure (data.barrierNames.contains entry.1) "cannot project an unknown barrier"
  ensure (decide (∀ signal ∈ entry.2, data.knownNode signal = true))
    "cannot project an unknown barrier signal"

/-- **The checkpoint of the source, for the target.** -/
def project (data : SemanticAdapterData) (capsule : GraphMigrationCapsule) :
    Except Exn Checkpoint := do
  ensure (capsule.source = data.source) "does not bind the source capsule"
  let result := capsule.checkpoint
  ensure (result.channels.all fun m => data.checkpointChannelNames.contains m.1)
    "cannot project an unknown channel"
  ensure (data.checkpointChannelNames.all fun name => (result.channels.lookup name).isSome)
    "requires every checkpoint channel"
  ensure (data.knownNode result.currentNode) "cannot project an unknown current node"
  ensure (result.nextNodes.all data.knownNode) "cannot project an unknown frontier node"
  result.barrierState.entries.forM data.checkBarrier
  .ok result

/-- A checkpoint is passed on as it is. -/
theorem project_eq_ok {data : SemanticAdapterData} {capsule : GraphMigrationCapsule}
    {result : Checkpoint} (h : data.project capsule = .ok result) :
    result = capsule.checkpoint := by
  unfold project at h
  iterate 6 rw [bind_unit_eq_ok] at h
  obtain ⟨-, -, -, -, -, -, h⟩ := h
  cases h
  rfl

end SemanticAdapterData

/-! ## What the shape determines -/

/-- The shape has what is printed under a key of the topology. -/
theorem get?_topologyShape (topology : TopologySpec) {name : String} (hnds : name ≠ "nodes")
    (hsh : shapeless name = false) :
    (topologyShape topology).get? name = (topology.keys.lookup name).join := by
  unfold topologyShape
  rw [← TopologySpec.get?_toJson, Json.get?, Json.members, Json.lookup_put, if_neg hnds,
    Json.lookup_filter_name _ (fun name => !shapeless name), hsh]
  rfl

/-- The declared routes of a conditional edge, without the hidden marker. -/
structure SameDeclared (ce ce' : ConditionalEdge) : Prop where
  src : ce.src = ce'.src
  condition : ce.condition = ce'.condition
  routes : ∀ key, key ≠ legacyDefaultRoute → ce.routes.find? key = ce'.routes.find? key

/-- What is printed of the routes under a key. -/
theorem get?_printRoutes (routes : SortedMap String String) {key : String}
    (hk : key ≠ legacyDefaultRoute) :
    ((printRoutes routes).bind fun v => v.get? key) = (routes.find? key).map .str := by
  have hlk : ∀ entries : List (String × String),
      (((entries.filter fun e => e.1 ≠ legacyDefaultRoute).map fun e =>
        (e.1, (.str e.2 : Document))).lookup key) = (lookupEntry key entries).map .str := by
    intro entries
    induction entries with
    | nil => rfl
    | cons e entries ih =>
      rw [filter_cons, lookupEntry]
      by_cases he : key = e.1
      · rw [if_pos he, if_pos (by simpa [← he] using hk), map_cons, lookup_cons, he,
          beq_self_eq_true]
        rfl
      · rw [if_neg he, ← ih]
        split
        · rw [map_cons, lookup_cons, beq_false_of_ne he]
        · rfl
  unfold printRoutes SortedMap.find?
  split_ifs with hemp
  · rw [isEmpty_iff.mp hemp]
    rfl
  · exact hlk routes.entries

section Shape

variable {readFloat : UInt64 → Json Bytes}

/-- A printed list agrees item by item. -/
theorem forall₂_of_printList {α : Type} {print : α → Document} {R : α → α → Prop}
    (hprint : ∀ {a b}, SameBytes readFloat (print a) (print b) → R a b) {l l' : List α}
    (h : Option.Rel (SameBytes readFloat) (printList print l) (printList print l')) :
    Forall₂ R l l' := by
  unfold printList at h
  split at h
  · rename_i hl
    split at h
    · rename_i hl'
      rw [isEmpty_iff.mp hl, isEmpty_iff.mp hl']
      exact Forall₂.nil
    · cases h
  · split at h
    · cases h
    cases h with
    | some h =>
      have his := h.arr
      rw [forall₂_map_left_iff, forall₂_map_right_iff] at his
      exact his.imp fun a b hab => hprint hab

variable (hnumber : ∀ bits, (readFloat bits).isNumber = true)
include hnumber

theorem eq_of_printEdge {e e' : Edge} (h : SameBytes readFloat (printEdge e) (printEdge e')) :
    e = e' := by
  obtain ⟨src, dst⟩ := e
  obtain ⟨src', dst'⟩ := e'
  have hsrc : src = src' := h.text hnumber "from" rfl rfl
  have hdst : dst = dst' := h.text hnumber "to" rfl rfl
  rw [hsrc, hdst]

theorem eq_of_printFailureEdge {e e' : FailureEdge}
    (h : SameBytes readFloat (printFailureEdge e) (printFailureEdge e')) : e = e' := by
  obtain ⟨src, dst, errorChannel⟩ := e
  obtain ⟨src', dst', errorChannel'⟩ := e'
  have hsrc : src = src' := h.text hnumber "from" rfl rfl
  have hdst : dst = dst' := h.text hnumber "to" rfl rfl
  have herr : errorChannel = errorChannel' := by
    have hprt : ∀ e : FailureEdge,
        (printFailureEdge e).get? "error_channel" = e.errorChannel.map .str := by
      rintro ⟨src, dst, errorChannel⟩
      cases errorChannel with
      | none | some channel => rfl
    have hc := h.get? hnumber "error_channel"
    rw [hprt, hprt] at hc
    exact SameBytes.str? hc
  rw [hsrc, hdst, herr]

/-- Edges with one document are one, but for how they are linked. -/
theorem sameDeclared_of_printConditionalEdge {ce ce' : ConditionalEdge}
    (h : SameBytes readFloat (printConditionalEdge ce) (printConditionalEdge ce')) :
    SameDeclared ce ce' := by
  refine ⟨h.text hnumber "from" rfl rfl, h.text hnumber "condition" rfl rfl, fun key hk => ?_⟩
  have hprt : ∀ ce : ConditionalEdge,
      (((printConditionalEdge ce).get? "routes").bind fun v => v.get? key)
        = (ce.routes.find? key).map .str := by
    intro ce
    have hr : (printConditionalEdge ce).get? "routes" = printRoutes ce.routes := by
      unfold printConditionalEdge
      rw [Json.get?, Json.members, Json.lookup_present]
      · rfl
      · show Nodup ["from", "condition", "routes"]
        decide
    rw [hr, get?_printRoutes ce.routes hk]
  have hrt := SameBytes.get?_bind hnumber (h.get? hnumber "routes") key
  rw [hprt, hprt] at hrt
  exact SameBytes.str? hrt

/-- **What a shape determines** of two accepted topologies. -/
theorem same_of_shape {s t : TopologySpec} (hs : s.schemaVersion ≤ 1) (ht : t.schemaVersion ≤ 1)
    (hsrt : s.failureEdges.Pairwise fun a b => a.src ≤ b.src)
    (hsrt' : t.failureEdges.Pairwise fun a b => a.src ≤ b.src)
    (h : SameBytes readFloat (topologyShape s) (topologyShape t)) :
    s.schemaVersion = t.schemaVersion ∧ s.edges = t.edges
      ∧ Forall₂ SameDeclared s.conditionalEdges t.conditionalEdges
      ∧ s.failureEdges = t.failureEdges := by
  have hk : ∀ name, name ≠ "nodes" → shapeless name = false →
      Option.Rel (SameBytes readFloat) (s.keys.lookup name).join (t.keys.lookup name).join := by
    intro name hnds hsh
    rw [← get?_topologyShape s hnds hsh, ← get?_topologyShape t hnds hsh]
    exact h.get? hnumber name
  have hv := hk "schema_version" (by decide) (by decide)
  have hed := hk "edges" (by decide) (by decide)
  have hc := hk "conditional_edges" (by decide) (by decide)
  have hflr := hk "failure_edges" (by decide) (by decide)
  have hprt : ∀ topology : TopologySpec,
      topology.failureEdges.Pairwise (fun a b => a.src ≤ b.src) →
      (topology.keys.lookup "failure_edges").join
        = printList printFailureEdge topology.failureEdges := by
    intro topology hsrt
    show printFailureEdges topology.failureEdges = _
    unfold printFailureEdges printList
    split
    · rename_i hn
      rw [hn]
      rfl
    · rename_i hne
      rw [hsrt.insertionSort_eq, if_neg]
      exact fun he => hne (isEmpty_iff.mp he)
  refine ⟨?_, ?_, ?_, ?_⟩
  · have hv : Option.Rel (SameBytes readFloat)
        (if 0 < s.schemaVersion then some (ofInt s.schemaVersion) else none)
        (if 0 < t.schemaVersion then some (ofInt t.schemaVersion) else none) := hv
    split at hv
    · split at hv
      · omega
      · cases hv
    · split at hv
      · cases hv
      · omega
  · exact forall₂_eq_eq_eq ▸ forall₂_of_printList (eq_of_printEdge hnumber) hed
  · exact forall₂_of_printList (sameDeclared_of_printConditionalEdge hnumber) hc
  · rw [hprt s hsrt, hprt t hsrt'] at hflr
    exact forall₂_eq_eq_eq ▸ forall₂_of_printList (eq_of_printFailureEdge hnumber) hflr

end Shape
end NeoGraph.Program.Migration

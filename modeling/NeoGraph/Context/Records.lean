import NeoGraph.Basic
import NeoGraph.Lib.JsonObject
import NeoGraph.Program.Records

/-!
# Runtime context

What a turn of a run is assembled from: the records of a feed, which hold the
messages of a conversation in sequence, the artifacts that are added to it, and
the epochs, which select a window of a feed and a set of artifacts and say in
which order they are laid out.

Values are checked when they are made, so an artifact and an epoch carry their
check. Their ids are digests of their content and are fields here, as are the
canonical bytes; messages are a parameter.
-/

namespace NeoGraph.Context

open Program (isToken isSha256Identity)

/-! ## Kinds -/

/-- Who speaks in a message. -/
inductive Role where
  | system
  | user
  | assistant
  | developer
  | tool
deriving DecidableEq

/-- What an artifact of a context is. -/
inductive ContextArtifactKind where
  | rawHistory
  | derivedContext
  | requiredSkill
  | hookOutput
  | hardConstraint
  | untrustedSupplemental
deriving DecidableEq

/-- Where an artifact stands among the messages of a turn. -/
inductive ContextPlacement where
  | beforeLatestUser
  | afterLatestUser
  | afterHistory
  | beforeHistory
deriving DecidableEq

/-- What is promised about the contexts of a run. -/
inductive RuntimeGuaranteeProfile where
  | legacy
  | recorded
  | strict
deriving DecidableEq

/-- How long the bytes of an artifact stay the same inside a run. -/
inductive StabilityClass where
  | stable
  | slow
  | volatile
deriving DecidableEq

/-- Whether an artifact that is sent again replaces the one before. -/
inductive AnchorMode where
  | replace
  | keepInPlace
deriving DecidableEq

/-- Why the prompt of an epoch does not extend the one before. -/
inductive ContextBreakReason where
  | compaction
  | stableChange
  | layoutChange
  | anchorDrop
  | orderChange
  | explicit
deriving DecidableEq

/-- The order in which a turn puts its parts. -/
inductive AssemblyLayout where
  | legacy
  | stableFirst
deriving DecidableEq

/-- What an epoch says of the prompt of its predecessor. -/
inductive ContextPrefixClaim where
  | extends
  | breaks
deriving DecidableEq

/-- The order in which a layout puts the classes. -/
def StabilityClass.tier : StabilityClass → ℕ
  | .stable => 0
  | .slow => 1
  | .volatile => 2

/-- Skills and hard constraints are told as by the system. -/
def contextArtifactKindRendersAsSystem (kind : ContextArtifactKind) : Bool :=
  kind = .requiredSkill || kind = .hardConstraint

def compactionProducerId : String := "neograph-compaction.v1"

/-- How stable an artifact is, where it does not say so itself. -/
def deriveStabilityClass (kind : ContextArtifactKind) (producerId : String) : StabilityClass :=
  if contextArtifactKindRendersAsSystem kind then .stable
  else if kind = .derivedContext ∧ producerId = compactionProducerId then .slow
  else .volatile

/-! ## Records -/

/-- A message of a feed. The first record of a feed has no predecessor, and
every other one names its own. -/
structure RuntimeHistoryRecord (M : Type) where
  feedId : String
  sequence : ℕ
  messageId : String
  message : M
  predecessorId : Option String
  id : String
  canonical : String
  sequence_pos : 0 < sequence
  predecessor_iff : predecessorId = none ↔ sequence = 1

/-! ## Artifacts -/

/-- What a range of a feed may be: none, or one that starts at a record. -/
def validRange (feedId : String) (first last : ℕ) : Bool :=
  if first = 0 ∧ last = 0 then feedId = ""
  else feedId ≠ "" && first ≠ 0 && first ≤ last && isToken feedId

/-- The content of an artifact. -/
structure ContextArtifactData where
  kind : ContextArtifactKind := .derivedContext
  producerId : String
  sourceDigest : String
  sourceFeedId : String := ""
  coversFromSequence : ℕ := 0
  coversThroughSequence : ℕ := 0
  mediaType : String
  placement : ContextPlacement := .beforeLatestUser
  priority : ℤ := 0
  required : Bool := false
  content : Json String
  stabilityClass : Option StabilityClass := none
  anchorMode : Option AnchorMode := none

/-- What is checked of an artifact when it is made. -/
def ContextArtifactData.valid (data : ContextArtifactData) : Bool :=
  isToken data.producerId && isSha256Identity data.sourceDigest && isToken data.mediaType
    && validRange data.sourceFeedId data.coversFromSequence data.coversThroughSequence
    && !(data.kind = .requiredSkill && (!data.required || data.sourceFeedId ≠ ""))
    && !(data.kind = .hardConstraint && !data.required)
    && !(data.stabilityClass = some .volatile && contextArtifactKindRendersAsSystem data.kind)

/-- An artifact with its canonical text and the digest that names it. -/
structure ContextArtifact where
  data : ContextArtifactData
  id : String
  canonical : String
  valid : data.valid = true

namespace ContextArtifact

/-- How stable an artifact is. -/
def stabilityClass (artifact : ContextArtifact) : StabilityClass :=
  artifact.data.stabilityClass.getD
    (deriveStabilityClass artifact.data.kind artifact.data.producerId)

def anchorMode (artifact : ContextArtifact) : AnchorMode := artifact.data.anchorMode.getD .replace

end ContextArtifact

/-! ## Epochs -/

/-- The content of an epoch: what the prompt of one turn was made of. -/
structure ContextEpochData where
  runId : String
  sequence : ℕ
  predecessorId : Option String := none
  feedId : String := ""
  rawFromSequence : ℕ := 0
  rawThroughSequence : ℕ := 0
  rawWindowDigest : String
  artifactIds : List String := []
  guaranteeProfile : RuntimeGuaranteeProfile := .recorded
  orderedArtifactIds : Option (List String) := none
  prefixClaim : Option ContextPrefixClaim := none
  breakReason : Option ContextBreakReason := none
  assemblyLayout : AssemblyLayout := .legacy

/-- A set of identities, in ascending order. -/
def isIdSet (ids : List String) : Bool :=
  ids.all isSha256Identity && ids.Pairwise (· < ·)

/-- What is checked of an epoch when it is made, after its artifacts are sorted. -/
def ContextEpochData.valid (data : ContextEpochData) : Bool :=
  isToken data.runId && data.sequence ≠ 0 && (data.sequence = 1) == data.predecessorId.isNone
    && data.predecessorId.all isSha256Identity
    && validRange data.feedId data.rawFromSequence data.rawThroughSequence
    && isSha256Identity data.rawWindowDigest && isIdSet data.artifactIds
    && (data.orderedArtifactIds.all fun ordered =>
      ordered.mergeSort (· ≤ ·) = data.artifactIds)
    && !(data.assemblyLayout = .stableFirst && data.orderedArtifactIds.isNone)
    && !(data.prefixClaim = some .extends
      && (data.predecessorId.isNone || data.orderedArtifactIds.isNone))
    && (data.prefixClaim = some .breaks) == data.breakReason.isSome

/-- An epoch whose content passed its checks, and the digest that names it. -/
structure ContextEpoch where
  data : ContextEpochData
  id : String
  valid : data.valid = true

namespace ContextEpoch

/-- The artifacts of an epoch in the order it fixes, without an order none. -/
def ordered (epoch : ContextEpoch) : List String := epoch.data.orderedArtifactIds.getD []

end ContextEpoch

end NeoGraph.Context

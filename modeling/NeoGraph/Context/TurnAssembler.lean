import NeoGraph.Context.Records
import NeoGraph.Context.Store

/-!
# Assembling a turn

A stable-first epoch fixes the order of its artifacts: Stable artifacts, then
Slow ones, then Volatile ones, the last behind the history and the others in
front of it (`validateContextLayout`). Its claim to extend the request of its
predecessor is checked on what the two record and on the artifacts they select
(`verifyContextEpochClaim`).

A turn of a run is assembled from the window of its epoch, which is read from
the store and checked to be a chain, and from the artifacts the epoch selects.
Everything that may change from one call to the next stands behind the history.
The assembler says where the Stable part and the append-only part end
(`PrefixShape`). Messages, and the provider that prepares the request, are
parameters.
-/

namespace NeoGraph.Context

/-- Why a layout or a claim is refused. -/
inductive ContextStabilityRefusal where
  | predecessorUnavailable
  | predecessorOrderUnknown
  | artifactsMismatch
  | rawWindowMoved
  | rawWindowNotGrown
  | stablePrefixChanged
  | anchorDropped
  | anchorOutOfRange
  | layoutChangeUndeclared
  | stableOutsideHistoryHead
  | volatileOutsideTail
  | tierOrderViolated
  | volatileSystemText
deriving DecidableEq

/-- The exceptions of the layout and of the assembler. -/
inductive ContextExn where
  | stability (code : ContextStabilityRefusal)
  | other (exn : Exn)
deriving DecidableEq

/-- The first artifact of an id. -/
def artifactById (artifacts : List ContextArtifact) (id : String) : Option ContextArtifact :=
  artifacts.find? fun artifact => artifact.id = id

/-- The artifacts that an epoch selects, which have to be exactly those it
records. -/
def selectedArtifacts (epoch : ContextEpoch) (artifacts : List ContextArtifact) :
    Except ContextExn Unit :=
  if !(artifacts.map ContextArtifact.id).Nodup
      || artifacts.length ≠ epoch.data.artifactIds.length
      || !(epoch.data.artifactIds.all fun id => (artifactById artifacts id).isSome) then
    .error (.stability .artifactsMismatch)
  else .ok ()

/-- The class of the artifact of an id. -/
def classOf (artifacts : List ContextArtifact) (id : String) : StabilityClass :=
  ((artifactById artifacts id).map ContextArtifact.stabilityClass).getD .volatile

/-- Stable and Slow artifacts in the order the epoch fixes. -/
def stablePrefix (epoch : ContextEpoch) (artifacts : List ContextArtifact) : List String :=
  epoch.ordered.filter fun id => classOf artifacts id ≠ .volatile

/-- One artifact of the order, behind one of class `tier`. -/
def checkLayoutOf (artifact : ContextArtifact) (tier : StabilityClass) :
    Except ContextExn StabilityClass :=
  let cls := artifact.stabilityClass
  if cls = .volatile && artifact.data.placement ≠ .afterHistory then
    .error (.stability .volatileOutsideTail)
  else if cls ≠ .volatile && artifact.data.placement ≠ .beforeHistory then
    .error (.stability .stableOutsideHistoryHead)
  else if cls.tier < tier.tier then .error (.stability .tierOrderViolated)
  else .ok cls

/-- The artifacts of an order, one behind the other. -/
def checkLayout (artifacts : List ContextArtifact) :
    List String → StabilityClass → Except ContextExn Unit
  | [], _ => .ok ()
  | id :: ids, tier =>
    match artifactById artifacts id with
    | none => .error (.other (.logicError "map::at"))
    | some artifact => do
      let cls ← checkLayoutOf artifact tier
      checkLayout artifacts ids cls

/-- Artifacts stand where their stability allows it. -/
def validateContextLayout (epoch : ContextEpoch) (artifacts : List ContextArtifact) :
    Except ContextExn Unit :=
  if epoch.data.assemblyLayout ≠ .stableFirst then .ok ()
  else do
    selectedArtifacts epoch artifacts
    checkLayout artifacts epoch.ordered .stable

/-- An anchored artifact covers records of the window. -/
def anchorInRange (epoch : ContextEpoch) (artifact : ContextArtifact) : Bool :=
  artifact.anchorMode ≠ .keepInPlace
    || (artifact.data.sourceFeedId = epoch.data.feedId
      && epoch.data.rawFromSequence ≤ artifact.data.coversThroughSequence
      && artifact.data.coversThroughSequence ≤ epoch.data.rawThroughSequence)

/-- The epoch names this predecessor. -/
def ContextEpoch.follows (epoch predecessor : ContextEpoch) : Bool :=
  epoch.data.predecessorId = some predecessor.id

/-- A change of the layout is a break that the epoch has to name. -/
def checkLayoutChange (epoch predecessor : ContextEpoch) : Except ContextExn Unit :=
  if epoch.follows predecessor
      && predecessor.data.assemblyLayout ≠ epoch.data.assemblyLayout
      && !(epoch.data.prefixClaim = some .breaks
        && epoch.data.breakReason = some .layoutChange) then
    .error (.stability .layoutChangeUndeclared)
  else .ok ()

/-- A claim to extend, once the predecessor is there. -/
def verifyExtends (epoch : ContextEpoch) (artifacts : List ContextArtifact)
    (predecessor : ContextEpoch) (predecessorArtifacts : List ContextArtifact) :
    Except ContextExn Unit := do
  if predecessor.data.orderedArtifactIds.isNone || epoch.data.orderedArtifactIds.isNone then
    .error (.stability .predecessorOrderUnknown)
  selectedArtifacts epoch artifacts
  selectedArtifacts predecessor predecessorArtifacts
  validateContextLayout epoch artifacts
  if predecessor.data.runId ≠ epoch.data.runId || predecessor.data.feedId ≠ epoch.data.feedId
      || predecessor.data.rawFromSequence ≠ epoch.data.rawFromSequence then
    .error (.stability .rawWindowMoved)
  if epoch.data.rawThroughSequence ≤ predecessor.data.rawThroughSequence then
    .error (.stability .rawWindowNotGrown)
  if stablePrefix epoch artifacts ≠ stablePrefix predecessor predecessorArtifacts then
    .error (.stability .stablePrefixChanged)
  if !(predecessorArtifacts.all fun artifact =>
      artifact.anchorMode ≠ .keepInPlace || (artifactById artifacts artifact.id).isSome) then
    .error (.stability .anchorDropped)
  if !(artifacts.all (anchorInRange epoch)) then
    .error (.stability .anchorOutOfRange)

/-- An epoch that claims to extend its predecessor does so. -/
def verifyContextEpochClaim (epoch : ContextEpoch) (artifacts : List ContextArtifact)
    (predecessor : Option ContextEpoch) (predecessorArtifacts : List ContextArtifact) :
    Except ContextExn Unit := do
  match predecessor with
  | some predecessor => checkLayoutChange epoch predecessor
  | none => .ok ()
  if epoch.data.prefixClaim ≠ some .extends then .ok ()
  else
    match predecessor with
    | none => .error (.stability .predecessorUnavailable)
    | some predecessor =>
      if !epoch.follows predecessor then .error (.stability .predecessorUnavailable)
      else verifyExtends epoch artifacts predecessor predecessorArtifacts

open Program (isToken)

/-! ## What the assembler reads and calls -/

/-- What a store answers to the assembler at one time. -/
structure ContextStore (M : Type) where
  snapshotHistory : ContextStoreFeed → ℕ → ℕ → Except Exn ContextHistoryRange
  hydrateRecords : ContextHistoryRange → Except Exn (List (RuntimeHistoryRecord M))
  getArtifact : String → String → Except Exn (Option ContextArtifact)

/-- What is used of messages. -/
structure MessageFormat (M : Type) where
  role : M → Role
  text : Role → String → M
  digest : M → String
  native : M → Option ℕ

/-- Where the parts end among the assembled messages. -/
structure PrefixShape where
  messages : ℕ := 0
  stableEnd : ℕ := 0
  prefixEnd : ℕ := 0
  systemAfterStable : Bool := false

/-- The provider: it prepares a request with some messages, also as a probe for
the boundaries, and the boundaries and the receipt are read from the request. -/
structure Provider (M P F : Type) where
  prepare : List M → Except ContextExn P
  probe : List M → Option String
  encodedSize : P → ℕ
  readPrefixFields : P → (stable append : Option String) → PrefixShape → Except ContextExn F
  checkReceipt : P → (mandatoryTokens : ℕ) → Except ContextExn Unit

/-- The artifacts that every turn must contain. -/
structure RuntimeContextRequirements where
  requiredArtifactIds : List String := []
  requiredSkillArtifactIds : List String := []

/-- Bytes as tokens, three to one. -/
def tokensForBytes (bytes : ℕ) : ℕ := bytes / 3 + if bytes % 3 = 0 then 0 else 1

variable {M P F : Type}

/-- An exception of a store. -/
def ofStore {α : Type} (answer : Except Exn α) : Except ContextExn α :=
  match answer with
  | .ok a => .ok a
  | .error x => .error (.other x)

/-! ## History -/

/-- A record continues a window: it has the next sequence of the feed and names
the record before it. The first record of a window names one if it has to. -/
def continuesWindow (feedId : String) (expected : ℕ) (predecessor : Option String)
    (record : RuntimeHistoryRecord M) : Bool :=
  !(record.feedId ≠ feedId || record.sequence ≠ expected
    || (1 < expected && predecessor.isNone && record.predecessorId.isNone)
    || (predecessor.isSome && record.predecessorId ≠ predecessor))

/-- The records of a window, one after the other. -/
def verifyChain (feedId : String) :
    List (RuntimeHistoryRecord M) → ℕ → Option String → Except ContextExn ℕ
  | [], expected, _ => .ok expected
  | record :: records, expected, predecessor =>
    if continuesWindow feedId expected predecessor record then
      verifyChain feedId records (expected + 1) (some record.id)
    else
      .error (.other (.invalidArgument
        "Context epoch raw history does not form its declared chain"))

/-- The messages of an epoch, whose records must be the ones it names. -/
def verifyHistory (records : List (RuntimeHistoryRecord M)) (epoch : ContextEpoch) :
    Except ContextExn (List M) := do
  let expected ← verifyChain epoch.data.feedId records epoch.data.rawFromSequence none
  if records.length ≠ epoch.data.rawThroughSequence - epoch.data.rawFromSequence + 1
      || expected - 1 ≠ epoch.data.rawThroughSequence then
    .error (.other (.invalidArgument
      "Context epoch raw history does not cover its declared range"))
  .ok (records.map RuntimeHistoryRecord.message)

/-- The messages of the window of an epoch. -/
def rawMessages (store : ContextStore M) (ownerId : String) (epoch : ContextEpoch) :
    Except ContextExn (List M) :=
  if epoch.data.rawFromSequence = 0 then .ok []
  else do
    let range ← ofStore (store.snapshotHistory
      { ownerId := ownerId, feedId := epoch.data.feedId } epoch.data.rawFromSequence
      epoch.data.rawThroughSequence)
    if range.digest ≠ epoch.data.rawWindowDigest then
      .error (.other (.invalidArgument
        "Context epoch raw window digest does not match the feed"))
    verifyHistory (← ofStore (store.hydrateRecords range)) epoch

/-! ## Artifacts -/

/-- One artifact that an epoch selects, and what is required of it. -/
def selectArtifact (store : ContextStore M) (requirements : RuntimeContextRequirements)
    (ownerId id : String) : Except ContextExn ContextArtifact := do
  match ← ofStore (store.getArtifact ownerId id) with
  | none =>
    .error (.other (.invalidArgument "Context epoch artifact is not available to this owner"))
  | some artifact =>
    let staticRequired := id ∈ requirements.requiredArtifactIds
    let requiredSkill := id ∈ requirements.requiredSkillArtifactIds
    if artifact.data.kind = .requiredSkill ∧ ¬requiredSkill then
      .error (.other (.invalidArgument
        "Context epoch selects an unadmitted required skill artifact"))
    if staticRequired ∧ ¬artifact.data.required then
      .error (.other (.invalidArgument
        "Configured required context identity is not a required artifact"))
    if requiredSkill ∧ artifact.data.kind ≠ .requiredSkill then
      .error (.other (.invalidArgument
        "Configured skill identity is not a required skill artifact"))
    .ok artifact

/-- Where the legacy layout puts a placement. -/
def ContextPlacement.rank : ContextPlacement → ℕ
  | .beforeLatestUser => 0
  | .afterLatestUser => 1
  | .afterHistory => 2
  | .beforeHistory => 3

/-- The order of the legacy layout. -/
def artifactLess (a b : ContextArtifact) : Bool :=
  if a.data.placement ≠ b.data.placement then a.data.placement.rank < b.data.placement.rank
  else if a.data.priority ≠ b.data.priority then b.data.priority < a.data.priority
  else if a.data.producerId ≠ b.data.producerId then a.data.producerId < b.data.producerId
  else a.id < b.id

/-- The artifacts in the order of an epoch. -/
def orderArtifacts (epoch : ContextEpoch) (selected : List ContextArtifact) :
    List ContextArtifact :=
  if epoch.data.assemblyLayout = .stableFirst then
    selected.mergeSort fun a b => epoch.ordered.idxOf a.id ≤ epoch.ordered.idxOf b.id
  else selected.mergeSort fun a b => !artifactLess b a

/-- The text of an artifact: a string, or an object with a text only. -/
def artifactText : Json String → Option String
  | .str text => some text
  | .obj [(name, .str text)] => if name = "text" then some text else none
  | _ => none

variable (messages : MessageFormat M)

/-- The text of an artifact, and the message that tells it. -/
def renderArtifact (artifact : ContextArtifact) : Except ContextExn (String × M) :=
  if artifact.data.mediaType ≠ "text/plain" ∧ artifact.data.mediaType ≠ "text/markdown" then
    .error (.other (.invalidArgument
      "Context assembly only renders text/plain or text/markdown artifacts"))
  else
    match artifactText artifact.data.content with
    | none =>
      .error (.other (.invalidArgument
        "Context artifact text content must be a string or exactly {text: string}"))
    | some text =>
      let role :=
        if contextArtifactKindRendersAsSystem artifact.data.kind then Role.system else Role.user
      .ok (text, messages.text role text)

/-- An artifact with its text and its message. -/
structure RenderedArtifact (M : Type) where
  artifact : ContextArtifact
  text : String
  message : M

def render (artifact : ContextArtifact) : Except ContextExn (RenderedArtifact M) := do
  let rendered ← renderArtifact messages artifact
  .ok { artifact := artifact, text := rendered.1, message := rendered.2 }

/-- The rendered artifacts of one placement, in order. -/
def placedAt (placement : ContextPlacement) (rendered : List (RenderedArtifact M)) :
    List (RenderedArtifact M) :=
  rendered.filter fun item => item.artifact.data.placement = placement

/-! ## The messages of a turn -/

/-- Where the latest user message of a history is, or its end. -/
def insertion (raw : List M) : ℕ :=
  match (raw.reverse.findIdx? fun message => messages.role message = .user) with
  | some i => raw.length - 1 - i
  | none => raw.length

/-- History and artifacts, every artifact at its placement. -/
def mergeMessages (raw : List M) (rendered : List (RenderedArtifact M)) : List M :=
  let at' (placement : ContextPlacement) :=
    (placedAt placement rendered).map RenderedArtifact.message
  let i := insertion messages raw
  at' .beforeHistory ++ raw.take i ++ at' .beforeLatestUser
    ++ (raw.drop i).take 1 ++ at' .afterLatestUser ++ raw.drop (i + 1) ++ at' .afterHistory

/-- A supplemental message that restates one of the history is left out. -/
def supplemental (raw given : List M) : List M :=
  given.filter fun message => !(raw.any fun r =>
    messages.digest r = messages.digest message && messages.native r = messages.native message)

/-- What was assembled for an epoch. -/
structure Assembly (M : Type) where
  messages : List M
  shape : PrefixShape := {}
  mandatoryBytes : ℕ

/-- The shape of a stable-first assembly. -/
def prefixShape (ho : ℕ) (rendered : List (RenderedArtifact M)) (raw assembled : List M) :
    PrefixShape where
  messages := assembled.length
  stableEnd := ho + (rendered.filter fun item => item.artifact.stabilityClass = .stable).length
  prefixEnd := ho + (placedAt .beforeHistory rendered).length + raw.length
  systemAfterStable :=
    let stableEnd :=
      ho + (rendered.filter fun item => item.artifact.stabilityClass = .stable).length
    let prefixEnd := ho + (placedAt .beforeHistory rendered).length + raw.length
    ((assembled.take prefixEnd).drop stableEnd).any fun message =>
      messages.role message = .system

/-- What the stable-first layout requires of the assembled messages: no System
message behind the artifacts in front of the history, and the recorded order. -/
def checkStableFirst (epoch : ContextEpoch) (ho : ℕ) (rendered : List (RenderedArtifact M))
    (assembled : List M) : Except ContextExn Unit :=
  if (assembled.drop (ho + (placedAt .beforeHistory rendered).length)).any fun message =>
      messages.role message = .system then
    .error (.stability .volatileSystemText)
  else if (placedAt .beforeHistory rendered ++ placedAt .afterHistory rendered).map
      (fun item => item.artifact.id) ≠ epoch.ordered then
    .error (.other (.logicError "Stable-first assembly did not follow the recorded artifact order"))
  else .ok ()

/-- What is checked of a turn before the store is read. -/
def checkTurn (requirements : RuntimeContextRequirements) (maxInputTokens : ℕ) (ownerId : String)
    (epoch : ContextEpoch) : Except ContextExn Unit := do
  if !isToken ownerId then
    .error (.other (.invalidArgument "Context assembly owner_id"))
  if !(requirements.requiredArtifactIds.all fun id => id ∈ epoch.data.artifactIds) then
    .error (.other (.invalidArgument "Context epoch omits a required context artifact"))
  if epoch.data.guaranteeProfile = .strict && maxInputTokens = 0 then
    .error (.other (.invalidArgument "Strict context assembly requires an input token budget"))

/-- A placement at the latest user message needs one. -/
def checkLatestUser (raw : List M) (selected : List ContextArtifact) : Except ContextExn Unit :=
  if (selected.any fun artifact => artifact.data.placement = .beforeLatestUser
        || artifact.data.placement = .afterLatestUser)
      && !(raw.any fun message => messages.role message = .user) then
    .error (.other (.invalidArgument
      "Selected context artifacts require a raw history user message"))
  else .ok ()

/-- The messages of a turn and where its parts end. -/
def assembleMessages (store : ContextStore M) (requirements : RuntimeContextRequirements)
    (maxInputTokens : ℕ) (ownerId : String) (epoch : ContextEpoch)
    (hostInstructions trustedSupplemental : List M) : Except ContextExn (Assembly M) := do
  checkTurn requirements maxInputTokens ownerId epoch
  let raw ← rawMessages store ownerId epoch
  let selected ← epoch.data.artifactIds.mapM (selectArtifact store requirements ownerId)
  validateContextLayout epoch selected
  let ordered := orderArtifacts epoch selected
  checkLatestUser messages raw ordered
  let rendered ← ordered.mapM (render messages)
  let assembled := hostInstructions ++ mergeMessages messages raw rendered
    ++ supplemental messages raw trustedSupplemental
  let mandatoryBytes := ((rendered.filter fun item => item.artifact.data.required).map
    fun item => item.text.utf8ByteSize).sum
  if epoch.data.assemblyLayout ≠ .stableFirst then
    .ok { messages := assembled, mandatoryBytes := mandatoryBytes }
  else do
    checkStableFirst messages epoch hostInstructions.length rendered assembled
    .ok {
      messages := assembled
      shape := prefixShape messages hostInstructions.length rendered raw assembled
      mandatoryBytes := mandatoryBytes }

/-- A prepared request, with what it was prepared from. -/
structure RuntimeTurn (M P F : Type) where
  assembly : Assembly M
  request : P
  fields : Option F

/-- The boundaries of a stable-first request, from the request and its probes. -/
def readFields (provider : Provider M P F) (epoch : ContextEpoch) (assembly : Assembly M)
    (request : P) : Except ContextExn (Option F) :=
  if epoch.data.assemblyLayout ≠ .stableFirst then .ok none
  else
    let shape := assembly.shape
    let append :=
      if shape.prefixEnd < shape.messages then
        provider.probe (assembly.messages.take shape.prefixEnd)
      else none
    let stable :=
      if 0 < shape.stableEnd ∧ shape.stableEnd < shape.prefixEnd then
        provider.probe (assembly.messages.take shape.stableEnd)
      else none
    (provider.readPrefixFields request stable append shape).map some

/-- **The turn of an epoch**: its messages, as the provider gets them. -/
def assemble (provider : Provider M P F) (store : ContextStore M)
    (requirements : RuntimeContextRequirements) (maxInputTokens : ℕ) (ownerId : String)
    (epoch : ContextEpoch) (hostInstructions trustedSupplemental : List M) :
    Except ContextExn (RuntimeTurn M P F) := do
  let assembly ← assembleMessages messages store requirements maxInputTokens ownerId epoch
    hostInstructions trustedSupplemental
  let request ← provider.prepare assembly.messages
  let fields ← readFields provider epoch assembly request
  if maxInputTokens ≠ 0 && maxInputTokens < tokensForBytes (provider.encodedSize request) then
    .error (.other (.runtimeError "context_budget_blocked"))
  provider.checkReceipt request (tokensForBytes assembly.mandatoryBytes)
  .ok { assembly := assembly, request := request, fields := fields }

end NeoGraph.Context

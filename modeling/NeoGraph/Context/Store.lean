import Mathlib
import NeoGraph.Lib.SortedMap
import NeoGraph.Context.Records

/-!
# The context store in memory

A store keeps the feeds of every owner, append by append, and the artifacts by
their ids. A range of a feed is taken as a reference: its bounds and the digest
of its bytes; it is read back, at any later time, only if the bytes are the
same.

Every operation is a function of the state that answers or raises an exception;
only `appendHistory` and `putArtifact` change the state. How digests are made
and artifacts are read is a parameter (`ContextFormat`).
-/

namespace NeoGraph.Context

open Program (isToken isSha256Identity)

/-! ## Limits and references -/

def maxOwnerIdBytes : ℕ := 256
def maxFeedIdBytes : ℕ := 256
def maxRecordBytes : ℕ := 1024 * 1024
def maxArtifactBytes : ℕ := 1024 * 1024
def maxRangeRecords : ℕ := 4096
def maxRangeBytes : ℕ := 8 * 1024 * 1024
def maxMessageIdBytes : ℕ := 512

/-- A feed of records of one owner. -/
structure ContextStoreFeed where
  ownerId : String
  feedId : String
deriving DecidableEq

/-- The head of a feed. An empty feed has sequence zero and no id. -/
structure ContextStoreHead where
  sequence : ℕ := 0
  recordId : Option String := none
deriving DecidableEq

/-- What became of a record that was to be appended. -/
inductive ContextStoreAppendResult where
  | appended
  | alreadyPresent
  | conflict
deriving DecidableEq

/-- What became of an artifact that was to be stored. -/
inductive ContextArtifactPutResult where
  | stored
  | alreadyPresent
  | conflict
deriving DecidableEq

/-- A reference to a range of a feed. -/
structure ContextHistoryRange where
  ownerId : String
  feedId : String
  fromSequence : ℕ
  throughSequence : ℕ
  digest : String
  artifactUri : String
deriving DecidableEq

/-- Digests of ranges and of their references, and the reader of artifacts. -/
structure ContextFormat where
  rangeDigest : String → String
  rangeUri : (ownerId feedId : String) → (fromSequence throughSequence : ℕ) →
    (digest : String) → String
  parseArtifact : String → Except Exn ContextArtifact

/-- The checks of the arguments. -/
def validateOwnerId (ownerId : String) : Except Exn Unit :=
  if ownerId = "" || maxOwnerIdBytes < ownerId.utf8ByteSize then
    .error (.invalidArgument "Context store owner_id is empty or exceeds its byte limit")
  else if !isToken ownerId then .error (.invalidArgument "Context store owner_id")
  else .ok ()

def validateFeed (feed : ContextStoreFeed) : Except Exn Unit := do
  validateOwnerId feed.ownerId
  if feed.feedId = "" || maxFeedIdBytes < feed.feedId.utf8ByteSize then
    .error (.invalidArgument "Context store feed_id is empty or exceeds its byte limit")
  if !isToken feed.feedId then .error (.invalidArgument "Context store feed_id")

def validateMessageId (messageId : String) : Except Exn Unit :=
  if messageId = "" || maxMessageIdBytes < messageId.utf8ByteSize || !isToken messageId then
    .error (.invalidArgument "Context history message id is invalid")
  else .ok ()

namespace ContextFormat

variable (fmt : ContextFormat)

/-- The reference to a range with these bytes. -/
def range (feed : ContextStoreFeed) (first last : ℕ) (jsonl : String) : ContextHistoryRange where
  ownerId := feed.ownerId
  feedId := feed.feedId
  fromSequence := first
  throughSequence := last
  digest := fmt.rangeDigest jsonl
  artifactUri := fmt.rangeUri feed.ownerId feed.feedId first last (fmt.rangeDigest jsonl)

/-- A range is checked against what it says of itself. -/
def validateRange (range : ContextHistoryRange) : Except Exn Unit := do
  validateFeed { ownerId := range.ownerId, feedId := range.feedId }
  if range.fromSequence = 0 || range.throughSequence < range.fromSequence
      || !isSha256Identity range.digest
      || range.artifactUri ≠ fmt.rangeUri range.ownerId range.feedId range.fromSequence
        range.throughSequence range.digest then
    .error (.invalidArgument "Context history range is invalid")

end ContextFormat

/-! ## Lines -/

/-- A line is added to the text of a range. -/
def addLine (jsonl line : String) : Except Exn String :=
  if maxRangeBytes - jsonl.utf8ByteSize < line.utf8ByteSize + (if jsonl = "" then 0 else 1) then
    .error (.invalidArgument "Context history range exceeds the byte limit")
  else .ok (if jsonl = "" then line else jsonl ++ "\n" ++ line)

/-- The texts of records, one a line. -/
def jsonlOf (lines : List String) : String :=
  lines.foldl (fun jsonl line => if jsonl = "" then line else jsonl ++ "\n" ++ line) ""

/-! ## The store -/

variable {M : Type}

/-- A feed as it is in memory, with an index of the ids of its messages. -/
structure HistoryFeed (M : Type) where
  canonicalRecords : SortedMap ℕ String := ∅
  records : SortedMap ℕ (RuntimeHistoryRecord M) := ∅
  messageSequences : SortedMap String ℕ := ∅
  headId : String := ""

/-- Feeds by owner and feed id, artifacts by owner and artifact id. -/
structure InMemoryContextStore (M : Type) where
  feeds : SortedMap (String ×ₗ String) (HistoryFeed M) := ∅
  artifacts : SortedMap (String ×ₗ String) String := ∅

def ContextStoreFeed.key (feed : ContextStoreFeed) : String ×ₗ String :=
  toLex (feed.ownerId, feed.feedId)

/-- What is checked of an append before the store is read. -/
def checkAppend (feed : ContextStoreFeed) (record : RuntimeHistoryRecord M)
    (expectedHeadId : Option String) : Except Exn Unit := do
  validateFeed feed
  if record.feedId ≠ feed.feedId then
    .error (.invalidArgument "Runtime history record does not belong to the target feed")
  if !(expectedHeadId.all isSha256Identity) then
    .error (.invalidArgument "Context store expected head id is invalid")
  if maxRecordBytes < record.canonical.utf8ByteSize then
    .error (.invalidArgument "Runtime history record exceeds the byte limit")

/-- A record follows a head: it has the next sequence, the caller knows the
head, and the record names it as its predecessor. -/
def followsHead (record : RuntimeHistoryRecord M) (expectedHeadId : Option String)
    (sequence : ℕ) (headId : String) : Bool :=
  record.sequence = sequence + 1 && expectedHeadId.getD "" = headId
    && if record.sequence = 1 then record.predecessorId.isNone
      else record.predecessorId = some headId

namespace HistoryFeed

/-- A record is put at the end of a feed. -/
def append (feed : HistoryFeed M) (record : RuntimeHistoryRecord M) : HistoryFeed M where
  canonicalRecords := feed.canonicalRecords.insert record.sequence record.canonical
  records := feed.records.insert record.sequence record
  messageSequences := feed.messageSequences.insert record.messageId record.sequence
  headId := record.id

def size (feed : HistoryFeed M) : ℕ := feed.canonicalRecords.entries.length

/-- What an append to a feed answers. -/
def appendResult (feed : HistoryFeed M) (record : RuntimeHistoryRecord M)
    (expectedHeadId : Option String) : ContextStoreAppendResult :=
  match feed.canonicalRecords.find? record.sequence with
  | some canonical => if canonical = record.canonical then .alreadyPresent else .conflict
  | none =>
    if feed.messageSequences.contains record.messageId then .conflict
    else if followsHead record expectedHeadId feed.size feed.headId then .appended
    else .conflict

end HistoryFeed

namespace InMemoryContextStore

variable (fmt : ContextFormat) (store : InMemoryContextStore M)

/-- The feed, empty if there is none. -/
def feed (feed : ContextStoreFeed) : HistoryFeed M := (store.feeds.find? feed.key).getD {}

/-- **A record is appended** when its feed has the expected head. -/
def appendHistory (feed : ContextStoreFeed) (record : RuntimeHistoryRecord M)
    (expectedHeadId : Option String) :
    Except Exn (ContextStoreAppendResult × InMemoryContextStore M) := do
  checkAppend feed record expectedHeadId
  let result := (store.feed feed).appendResult record expectedHeadId
  if result = .appended then
    .ok (result, { store with
      feeds := store.feeds.insert feed.key ((store.feed feed).append record) })
  else .ok (result, store)

/-- The head of a feed: its last record, or the start. -/
def historyHead (feed : ContextStoreFeed) : Except Exn ContextStoreHead := do
  validateFeed feed
  match store.feeds.find? feed.key with
  | none => .ok {}
  | some f => .ok { sequence := f.size, recordId := if f.headId = "" then none else some f.headId }

/-- The record of a message, by the index. -/
def historyRecordByMessageId (feed : ContextStoreFeed) (messageId : String) :
    Except Exn (Option (RuntimeHistoryRecord M)) := do
  validateFeed feed
  validateMessageId messageId
  match store.feeds.find? feed.key with
  | none => .ok none
  | some f =>
    match f.messageSequences.find? messageId with
    | none => .ok none
    | some sequence =>
      match f.records.find? sequence with
      | none => .error (.invalidArgument "Context history message index is corrupt")
      | some record =>
        if record.feedId ≠ feed.feedId || record.sequence ≠ sequence
            || record.messageId ≠ messageId then
          .error (.invalidArgument "Context history message index crossed scope")
        else .ok (some record)

/-- The text of the records of a range. -/
def rangeText (f : HistoryFeed M) (first count : ℕ) : Except Exn String :=
  (List.range' first count).foldlM
    (fun jsonl sequence =>
      match f.canonicalRecords.find? sequence with
      | none => .error (.invalidArgument "Context history range exceeds the byte limit")
      | some line => addLine jsonl line) ""

/-- A range of the feed, with its digest. -/
def snapshotHistory (feed : ContextStoreFeed) (first last : ℕ) :
    Except Exn ContextHistoryRange := do
  validateFeed feed
  if first = 0 || last < first || maxRangeRecords ≤ last - first then
    .error (.invalidArgument "Context history range is invalid or exceeds the record limit")
  match store.feeds.find? feed.key with
  -- `std::out_of_range` is a logic error.
  | none => .error (.logicError "Context history range is not present")
  | some f =>
    if f.size < last then .error (.logicError "Context history range is not present")
    else do
      let jsonl ← rangeText f first (last + 1 - first)
      .ok (fmt.range feed first last jsonl)

/-- What has been read of a range: its text, its records and the id of the last. -/
structure Hydration (M : Type) where
  jsonl : String := ""
  records : List (RuntimeHistoryRecord M) := []
  predecessor : Option String := none

/-- A record of a chain follows the one before it. -/
def inChain (feedId : String) (sequence : ℕ) (predecessor : Option String)
    (record : RuntimeHistoryRecord M) : Bool :=
  record.feedId = feedId && record.sequence = sequence
    && if sequence = 1 then record.predecessorId.isNone
      else record.predecessorId.isSome && record.predecessorId = predecessor

/-- One record of a range: it must be there, and not make the whole too large.
-/
def hydrateOne (f : HistoryFeed M) (feedId : String) (state : Hydration M) (sequence : ℕ) :
    Except Exn (Hydration M) :=
  match f.canonicalRecords.find? sequence, f.records.find? sequence with
  | some line, some record => do
    let jsonl ← addLine state.jsonl line
    if !inChain feedId sequence state.predecessor record then
      .error (.invalidArgument "Context history feed has a broken chain")
    .ok { jsonl := jsonl, records := state.records ++ [record], predecessor := some record.id }
  | none, _ => .error (.invalidArgument "Context history range cannot be hydrated exactly")
  | some _, none => .error (.logicError "map::at")

/-- The id of the record in front of a range. -/
def predecessorOf (f : HistoryFeed M) (first : ℕ) : Except Exn (Option String) :=
  if first ≤ 1 then .ok none
  else
    match f.records.find? (first - 1) with
    | none => .error (.invalidArgument "Context history feed has a broken chain")
    | some previous => .ok (some previous.id)

/-- The records of a range that was snapshotted. -/
def hydrateRecords (range : ContextHistoryRange) : Except Exn (List (RuntimeHistoryRecord M)) := do
  fmt.validateRange range
  if maxRangeRecords ≤ range.throughSequence - range.fromSequence then
    .error (.invalidArgument "Context history range exceeds the record limit")
  match store.feeds.find? (toLex (range.ownerId, range.feedId)) with
  | none => .error (.logicError "Context history feed is not present")
  | some f => do
    let predecessor ← predecessorOf f range.fromSequence
    let state ← (List.range' range.fromSequence
      (range.throughSequence + 1 - range.fromSequence)).foldlM
        (hydrateOne f range.feedId) { predecessor := predecessor }
    if fmt.rangeDigest state.jsonl ≠ range.digest then
      .error (.invalidArgument "Context history range digest does not match stored records")
    .ok state.records

/-- Their texts. -/
def hydrateHistory (range : ContextHistoryRange) : Except Exn String :=
  (store.hydrateRecords fmt range).map fun records =>
    jsonlOf (records.map RuntimeHistoryRecord.canonical)

/-- An artifact is stored once. -/
def putArtifact (ownerId : String) (artifact : ContextArtifact) :
    Except Exn (ContextArtifactPutResult × InMemoryContextStore M) := do
  validateOwnerId ownerId
  if maxArtifactBytes < artifact.canonical.utf8ByteSize then
    .error (.invalidArgument "Context artifact exceeds the byte limit")
  match store.artifacts.find? (toLex (ownerId, artifact.id)) with
  | none =>
    .ok (.stored, { store with
      artifacts := store.artifacts.insert (toLex (ownerId, artifact.id)) artifact.canonical })
  | some canonical =>
    .ok (if canonical = artifact.canonical then .alreadyPresent else .conflict, store)

/-- The artifact of an owner. -/
def getArtifact (ownerId artifactId : String) : Except Exn (Option ContextArtifact) := do
  validateOwnerId ownerId
  if !isSha256Identity artifactId then
    .error (.invalidArgument "Context artifact id is invalid")
  match store.artifacts.find? (toLex (ownerId, artifactId)) with
  | none => .ok none
  | some canonical => (fmt.parseArtifact canonical).map some

end InMemoryContextStore

/-! ## Calls -/

/-- A call of a store. -/
inductive StoreCall (M : Type) where
  | appendHistory (feed : ContextStoreFeed) (record : RuntimeHistoryRecord M)
      (expectedHeadId : Option String)
  | historyHead (feed : ContextStoreFeed)
  | historyRecordByMessageId (feed : ContextStoreFeed) (messageId : String)
  | snapshotHistory (feed : ContextStoreFeed) (first last : ℕ)
  | hydrateRecords (range : ContextHistoryRange)
  | hydrateHistory (range : ContextHistoryRange)
  | putArtifact (ownerId : String) (artifact : ContextArtifact)
  | getArtifact (ownerId artifactId : String)

/-- What a call answers. -/
inductive StoreReply (M : Type) where
  | append (result : ContextStoreAppendResult)
  | head (head : ContextStoreHead)
  | record (record : Option (RuntimeHistoryRecord M))
  | range (range : ContextHistoryRange)
  | records (records : List (RuntimeHistoryRecord M))
  | text (jsonl : String)
  | put (result : ContextArtifactPutResult)
  | artifact (artifact : Option ContextArtifact)

namespace InMemoryContextStore

variable (fmt : ContextFormat)

/-- A call that raises an exception leaves the store as it was. -/
def call (store : InMemoryContextStore M) :
    StoreCall M → Except Exn (StoreReply M) × InMemoryContextStore M
  | .appendHistory feed record expectedHeadId =>
    match store.appendHistory feed record expectedHeadId with
    | .error x => (.error x, store)
    | .ok (result, store') => (.ok (.append result), store')
  | .historyHead feed => ((store.historyHead feed).map .head, store)
  | .historyRecordByMessageId feed messageId =>
    ((store.historyRecordByMessageId feed messageId).map .record, store)
  | .snapshotHistory feed first last =>
    ((store.snapshotHistory fmt feed first last).map .range, store)
  | .hydrateRecords range => ((store.hydrateRecords fmt range).map .records, store)
  | .hydrateHistory range => ((store.hydrateHistory fmt range).map .text, store)
  | .putArtifact ownerId artifact =>
    match store.putArtifact ownerId artifact with
    | .error x => (.error x, store)
    | .ok (result, store') => (.ok (.put result), store')
  | .getArtifact ownerId artifactId =>
    ((store.getArtifact fmt ownerId artifactId).map .artifact, store)

/-- The store after a sequence of calls. -/
def after (calls : List (StoreCall M)) : InMemoryContextStore M :=
  calls.foldl (fun store c => (store.call fmt c).2) {}

end InMemoryContextStore

end NeoGraph.Context

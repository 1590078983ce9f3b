import NeoGraph.Context.Store

/-!
# The context store in SQLite

The same operations over two tables. A row of the history holds the record of
one sequence of a feed: its id and its canonical bytes, from which the record
is parsed again whenever it is read, and compared with the row. The head of a
feed is its row of the last sequence; whether a message is known is asked of
the documents themselves.

A call runs in a transaction, so one that raises an exception leaves the tables
as they were. Parsing a record, reading a member of a document by its path and
the archive of native messages are parameters (`SqliteFormat`).
-/

namespace NeoGraph.Context

open InMemoryContextStore (Hydration inChain)
open Program (isToken isSha256Identity)

variable {M : Type}

/-! ## Tables -/

/-- A row of the table of histories. -/
structure HistoryRow where
  ownerId : String
  feedId : String
  sequence : ℕ
  recordId : String
  canonical : String
deriving DecidableEq

/-- A row of the table of artifacts. -/
structure ArtifactRow where
  ownerId : String
  artifactId : String
  canonical : String
deriving DecidableEq

/-- What the store uses of other components, and the archive it was opened
with. -/
structure SqliteFormat (M : Type) extends ContextFormat where
  /-- The record of these bytes. -/
  parseRecord : String → Except Exn (RuntimeHistoryRecord M)
  /-- `json_extract(CAST(canonical AS TEXT), '$.message_id')`. -/
  extractMessageId : String → Option String
  /-- Whether a message has a native part. -/
  native : M → Bool
  /-- The owner of the archive, if there is one. -/
  archiveOwner : Option String
  /-- The bytes of a record whose native part was saved in the archive. -/
  serializeNative : RuntimeHistoryRecord M → (ownerId : String) → Except Exn String

namespace SqliteFormat

variable (fmt : SqliteFormat M)

/-- The record of a row, which must be of this owner. -/
def decode (canonical ownerId : String) : Except Exn (RuntimeHistoryRecord M) := do
  if fmt.archiveOwner.any (· ≠ ownerId) then
    .error (.invalidArgument "Context native archive owner mismatch")
  fmt.parseRecord canonical

/-- The text a record is stored as. -/
def serializeCanonical (record : RuntimeHistoryRecord M) (ownerId : String) :
    Except Exn String := do
  if fmt.native record.message then
    if fmt.archiveOwner ≠ some ownerId then
      .error (.invalidArgument "Runtime native history requires its owner-scoped archive")
    fmt.serializeNative record ownerId
  else .ok record.canonical

/-- The record of a row, if the row says of it what it says of itself. -/
def readRow (feed : ContextStoreFeed) (row : HistoryRow) (corrupt : String) :
    Except Exn (RuntimeHistoryRecord M) := do
  let parsed ← fmt.decode row.canonical feed.ownerId
  if row.sequence < 1 || parsed.feedId ≠ feed.feedId || parsed.sequence ≠ row.sequence
      || parsed.id ≠ row.recordId then
    .error (.runtimeError corrupt)
  .ok parsed

end SqliteFormat

/-- Integers of SQL have 64 bits and a sign. -/
def bindInt64 (value : ℕ) : Except Exn Unit :=
  if 2 ^ 63 ≤ value then .error (.runtimeError "SQLite integer overflow") else .ok ()

/-- `ORDER BY sequence`. -/
def orderBySequence (rows : List HistoryRow) : List HistoryRow :=
  rows.insertionSort fun a b => a.sequence ≤ b.sequence

/-- The tables of the store. -/
structure SQLiteContextStore where
  history : List HistoryRow := []
  artifacts : List ArtifactRow := []

namespace SQLiteContextStore

/-! ## Queries -/

section Queries

variable (store : SQLiteContextStore)

/-- The rows of a feed. -/
def rows (feed : ContextStoreFeed) : List HistoryRow :=
  store.history.filter fun row => row.ownerId = feed.ownerId && row.feedId = feed.feedId

/-- The queries of the store, one by one. -/
def rowOfSequence (feed : ContextStoreFeed) (sequence : ℕ) : Option HistoryRow :=
  (store.rows feed).find? fun row => row.sequence = sequence

/-- The rows of a message. -/
def rowsOfMessage (fmt : SqliteFormat M) (feed : ContextStoreFeed) (messageId : String) :
    List HistoryRow :=
  (store.rows feed).filter fun row => fmt.extractMessageId row.canonical = some messageId

def lastRow (feed : ContextStoreFeed) : Option HistoryRow :=
  (orderBySequence (store.rows feed)).getLast?

def rowsOfRange (feed : ContextStoreFeed) (first last : ℕ) : List HistoryRow :=
  orderBySequence ((store.rows feed).filter fun row =>
    first ≤ row.sequence && row.sequence ≤ last)

/-- Two rows cannot both be in the table: they have the same primary key, or
the same entry in one of the unique indexes. Absent members are never equal. -/
def violates (fmt : SqliteFormat M) (old new : HistoryRow) : Bool :=
  old.ownerId = new.ownerId && old.feedId = new.feedId
    && (old.sequence = new.sequence || old.recordId = new.recordId
      || ((fmt.extractMessageId old.canonical).isSome
        && fmt.extractMessageId old.canonical = fmt.extractMessageId new.canonical))

/-- A row is inserted unless it violates a constraint of the table. -/
def insertRow (fmt : SqliteFormat M) (row : HistoryRow) : Except Exn SQLiteContextStore :=
  if store.history.any fun old => violates fmt old row then
    .error (.runtimeError "UNIQUE constraint failed: ng_runtime_history")
  else .ok { store with history := store.history ++ [row] }

def artifactRow (ownerId artifactId : String) : Option ArtifactRow :=
  store.artifacts.find? fun row => row.ownerId = ownerId && row.artifactId = artifactId

end Queries

/-! ## Operations -/

section Operations

/-- The checks of the arguments, as this store makes them. -/
def validateOwner (owner : String) : Except Exn Unit :=
  if owner = "" || maxOwnerIdBytes < owner.utf8ByteSize then
    .error (.invalidArgument "Context store owner_id is invalid")
  else if !isToken owner then .error (.invalidArgument "Context store owner_id")
  else .ok ()

def validateFeed (feed : ContextStoreFeed) : Except Exn Unit := do
  validateOwner feed.ownerId
  if feed.feedId = "" || maxFeedIdBytes < feed.feedId.utf8ByteSize then
    .error (.invalidArgument "Context store feed_id is invalid")
  if !isToken feed.feedId then .error (.invalidArgument "Context store feed_id")

variable (fmt : SqliteFormat M) (store : SQLiteContextStore)

/-- The head of a feed, from its last row. -/
def historyHead (feed : ContextStoreFeed) : Except Exn ContextStoreHead := do
  validateFeed feed
  match store.lastRow feed with
  | none => .ok {}
  | some row => do
    let _ ← fmt.readRow feed row "corrupt history head"
    .ok { sequence := row.sequence, recordId := some row.recordId }

/-- The checks that come before a record is inserted. -/
def checkAppend (feed : ContextStoreFeed) (record : RuntimeHistoryRecord M)
    (expectedHeadId : Option String) : Except Exn Unit := do
  validateFeed feed
  if record.feedId ≠ feed.feedId then
    .error (.invalidArgument "record does not belong to feed")
  if !(expectedHeadId.all isSha256Identity) then
    .error (.invalidArgument "invalid expected head")
  if fmt.archiveOwner.any (· ≠ feed.ownerId) then
    .error (.invalidArgument "Context native archive owner mismatch")
  if maxRecordBytes < record.canonical.utf8ByteSize then
    .error (.invalidArgument "record too large")

/-- An append to a feed that has no record of the sequence and none of the
message. -/
def appendNew (feed : ContextStoreFeed) (record : RuntimeHistoryRecord M)
    (expectedHeadId : Option String) :
    Except Exn (ContextStoreAppendResult × SQLiteContextStore) := do
  let head ← store.historyHead fmt feed
  if followsHead record expectedHeadId head.sequence (head.recordId.getD "") then do
    let canonical ← fmt.serializeCanonical record feed.ownerId
    if maxRecordBytes < canonical.utf8ByteSize then
      .error (.invalidArgument "record too large")
    bindInt64 record.sequence
    let store' ← store.insertRow fmt {
      ownerId := feed.ownerId
      feedId := feed.feedId
      sequence := record.sequence
      recordId := record.id
      canonical := canonical }
    .ok (.appended, store')
  else .ok (.conflict, store)

/-- **A record is appended** when its feed has the expected head. -/
def appendHistory (feed : ContextStoreFeed) (record : RuntimeHistoryRecord M)
    (expectedHeadId : Option String) :
    Except Exn (ContextStoreAppendResult × SQLiteContextStore) := do
  checkAppend fmt feed record expectedHeadId
  bindInt64 record.sequence
  match store.rowOfSequence feed record.sequence with
  | some row => do
    let parsed ← fmt.decode row.canonical feed.ownerId
    if parsed.feedId ≠ feed.feedId || parsed.sequence ≠ record.sequence then
      .error (.runtimeError "corrupt history record metadata")
    .ok (if parsed.id = record.id then .alreadyPresent else .conflict, store)
  | none =>
    match store.rowsOfMessage fmt feed record.messageId with
    | row :: _ => do
      let parsed ← fmt.readRow feed row "corrupt history message identity index"
      if parsed.messageId ≠ record.messageId then
        .error (.runtimeError "corrupt history message identity index")
      .ok (.conflict, store)
    | [] => store.appendNew fmt feed record expectedHeadId

/-- The record of a message. -/
def historyRecordByMessageId (feed : ContextStoreFeed) (messageId : String) :
    Except Exn (Option (RuntimeHistoryRecord M)) := do
  validateFeed feed
  validateMessageId messageId
  match store.rowsOfMessage fmt feed messageId with
  | [] => .ok none
  | row :: more => do
    let parsed ← fmt.readRow feed row "corrupt history message identity index"
    if parsed.messageId ≠ messageId then
      .error (.runtimeError "corrupt history message identity index")
    if more ≠ [] then
      .error (.runtimeError "history message identity is not unique")
    .ok (some parsed)

/-- One row more of a snapshot: the next expected sequence and the text. -/
def snapshotRow (feed : ContextStoreFeed) (state : ℕ × String) (row : HistoryRow) :
    Except Exn (ℕ × String) := do
  if row.sequence ≠ state.1 then .error (.logicError "range is not present")
  let _ ← fmt.readRow feed row "corrupt history snapshot"
  let jsonl ← addLine state.2 row.canonical
  .ok (state.1 + 1, jsonl)

/-- A range of the feed, with its digest. -/
def snapshotHistory (feed : ContextStoreFeed) (first last : ℕ) :
    Except Exn ContextHistoryRange := do
  validateFeed feed
  if first = 0 || last < first || maxRangeRecords ≤ last - first then
    .error (.invalidArgument "invalid range")
  bindInt64 first
  bindInt64 last
  let state ← (store.rowsOfRange feed first last).foldlM (snapshotRow fmt feed) (first, "")
  if state.1 - 1 ≠ last then .error (.logicError "range is not present")
  .ok (fmt.range feed first last state.2)

/-- A range is checked against what it says of itself. -/
def validateRange (range : ContextHistoryRange) : Except Exn Unit := do
  validateFeed { ownerId := range.ownerId, feedId := range.feedId }
  if range.fromSequence = 0 || range.throughSequence < range.fromSequence
      || maxRangeRecords ≤ range.throughSequence - range.fromSequence
      || !isSha256Identity range.digest
      || range.artifactUri ≠ fmt.rangeUri range.ownerId range.feedId range.fromSequence
        range.throughSequence range.digest then
    .error (.invalidArgument "invalid range")

/-- The id of the record in front of a range. -/
def predecessorOf (feed : ContextStoreFeed) (first : ℕ) : Except Exn (Option String) :=
  if first ≤ 1 then .ok none
  else do
    bindInt64 (first - 1)
    match store.rowOfSequence feed (first - 1) with
    | none => .error (.invalidArgument "broken history chain")
    | some row => do
      let parsed ← fmt.decode row.canonical feed.ownerId
      if parsed.feedId ≠ feed.feedId || parsed.sequence ≠ first - 1 then
        .error (.invalidArgument "broken history chain")
      .ok (some parsed.id)

/-- The record of a sequence is read off the next row. -/
def hydrateRow (feed : ContextStoreFeed) (state : List HistoryRow × Hydration M)
    (sequence : ℕ) : Except Exn (List HistoryRow × Hydration M) :=
  match state.1 with
  | [] => .error (.invalidArgument "broken history chain")
  | row :: rows => do
    if row.sequence ≠ sequence then .error (.invalidArgument "broken history chain")
    let record ← fmt.decode row.canonical feed.ownerId
    if !inChain feed.feedId sequence state.2.predecessor record then
      .error (.invalidArgument "broken history chain")
    let jsonl ← addLine state.2.jsonl row.canonical
    .ok (rows, {
      jsonl := jsonl
      records := state.2.records ++ [record]
      predecessor := some record.id })

/-- The records of a range that was snapshotted. -/
def hydrateRecords (range : ContextHistoryRange) : Except Exn (List (RuntimeHistoryRecord M)) := do
  let feed : ContextStoreFeed := { ownerId := range.ownerId, feedId := range.feedId }
  validateRange fmt range
  let predecessor ← store.predecessorOf fmt feed range.fromSequence
  bindInt64 range.fromSequence
  bindInt64 range.throughSequence
  let state ← (List.range' range.fromSequence
    (range.throughSequence + 1 - range.fromSequence)).foldlM (hydrateRow fmt feed)
      (store.rowsOfRange feed range.fromSequence range.throughSequence,
        { predecessor := predecessor })
  if fmt.rangeDigest state.2.jsonl ≠ range.digest then
    .error (.invalidArgument "range digest mismatch")
  .ok state.2.records

/-- Their texts. -/
def hydrateHistory (range : ContextHistoryRange) : Except Exn String :=
  (store.hydrateRecords fmt range).map fun records =>
    jsonlOf (records.map RuntimeHistoryRecord.canonical)

/-- An artifact is stored once. -/
def putArtifact (ownerId : String) (artifact : ContextArtifact) :
    Except Exn (ContextArtifactPutResult × SQLiteContextStore) := do
  validateOwner ownerId
  if maxArtifactBytes < artifact.canonical.utf8ByteSize then
    .error (.invalidArgument "artifact too large")
  match store.artifactRow ownerId artifact.id with
  | some row =>
    .ok (if row.canonical = artifact.canonical then .alreadyPresent else .conflict, store)
  | none =>
    .ok (.stored, { store with
      artifacts := store.artifacts ++ [{
        ownerId := ownerId
        artifactId := artifact.id
        canonical := artifact.canonical }] })

/-- The artifact of an owner. -/
def getArtifact (ownerId artifactId : String) : Except Exn (Option ContextArtifact) := do
  validateOwner ownerId
  if !isSha256Identity artifactId then
    .error (.invalidArgument "invalid artifact id")
  match store.artifactRow ownerId artifactId with
  | none => .ok none
  | some row => (fmt.parseArtifact row.canonical).map some

/-! ## Calls -/

/-- A call that raises an exception is rolled back. -/
def call (store : SQLiteContextStore) : StoreCall M → Except Exn (StoreReply M) × SQLiteContextStore
  | .appendHistory feed record expectedHeadId =>
    match store.appendHistory fmt feed record expectedHeadId with
    | .error x => (.error x, store)
    | .ok (result, store') => (.ok (.append result), store')
  | .historyHead feed => ((store.historyHead fmt feed).map .head, store)
  | .historyRecordByMessageId feed messageId =>
    ((store.historyRecordByMessageId fmt feed messageId).map .record, store)
  | .snapshotHistory feed first last =>
    ((store.snapshotHistory fmt feed first last).map .range, store)
  | .hydrateRecords range => ((store.hydrateRecords fmt range).map .records, store)
  | .hydrateHistory range => ((store.hydrateHistory fmt range).map .text, store)
  | .putArtifact ownerId artifact =>
    match store.putArtifact ownerId artifact with
    | .error x => (.error x, store)
    | .ok (result, store') => (.ok (.put result), store')
  | .getArtifact ownerId artifactId =>
    ((store.getArtifact fmt ownerId artifactId).map .artifact, store)

/-- The store after a sequence of calls. -/
def after (calls : List (StoreCall M)) : SQLiteContextStore :=
  calls.foldl (fun store c => (store.call fmt c).2) {}

end Operations

end SQLiteContextStore

end NeoGraph.Context

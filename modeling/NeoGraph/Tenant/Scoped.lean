import Mathlib
import NeoGraph.Lib.Bytes
import NeoGraph.Lib.JsonObject
import NeoGraph.Lib.SortedMap

/-!
# Stores of one tenant

Tenants share two stores in memory: items under namespaces, in the order of
their composite keys, and checkpoints under threads and ids, whose channel
values are kept once. Texts are byte strings. `β` stands for the fields of a
checkpoint that are only copied, `P` for pending writes; timestamps and managed
budgets are left out.

A tenant reaches them through a scope, which puts the tenant with its length in
front of every namespace, and of every thread and checkpoint id, and takes it
off on the way back; the stores know nothing of tenants. An operation comes
with the scope that it goes through.
-/

namespace NeoGraph.Tenant

open ByteOrder

/-- Why an operation fails. -/
inductive StoreError where
  | typeError
  | lengthError
  | escaped
  | malformed
deriving DecidableEq

/-! ## Items -/

/-- A path of names. -/
abbrev Namespace := List Bytes

/-- A value under a namespace and a key. -/
structure StoreItem where
  ns : Namespace
  key : Bytes
  value : Json Bytes

/-- The items, by their composed keys. -/
structure InMemoryStore where
  items : SortedMap Bytes StoreItem := ∅

namespace InMemoryStore

/-- No two namespaces have one text. -/
def nsToString (ns : Namespace) : Bytes :=
  decimalText ns.length ++ 58 :: ns.flatMap encodeComponent

def makeKey (ns : Namespace) (key : Bytes) : Bytes := nsToString ns ++ encodeComponent key

/-- The namespaces below a path. -/
def namespaceHasPrefix (ns nsPrefix : Namespace) : Bool := nsPrefix.isPrefixOf ns

def put (s : InMemoryStore) (ns : Namespace) (key : Bytes) (value : Json Bytes) : InMemoryStore :=
  match s.items.find? (makeKey ns key) with
  | some item => ⟨s.items.insert (makeKey ns key) { item with value := value }⟩
  | none => ⟨s.items.insert (makeKey ns key) ⟨ns, key, value⟩⟩

def get (s : InMemoryStore) (ns : Namespace) (key : Bytes) : Option StoreItem :=
  s.items.find? (makeKey ns key)

/-- The limit is looked at after an item was found. -/
def searchLoop (nsPrefix : Namespace) (limit : ℤ) : List StoreItem → ℕ → List StoreItem
  | [], _ => []
  | item :: items, found =>
    if namespaceHasPrefix item.ns nsPrefix then
      item :: if limit ≤ found + 1 then [] else searchLoop nsPrefix limit items (found + 1)
    else searchLoop nsPrefix limit items found

def search (s : InMemoryStore) (nsPrefix : Namespace) (limit : ℤ) : List StoreItem :=
  searchLoop nsPrefix limit (s.items.entries.map Prod.snd) 0

def deleteItem (s : InMemoryStore) (ns : Namespace) (key : Bytes) : InMemoryStore :=
  ⟨s.items.erase (makeKey ns key)⟩

def listLoop (nsPrefix : Namespace) : List StoreItem → List Namespace → List Namespace
  | [], _ => []
  | item :: items, seen =>
    if namespaceHasPrefix item.ns nsPrefix && item.ns ∉ seen then
      item.ns :: listLoop nsPrefix items (item.ns :: seen)
    else listLoop nsPrefix items seen

def listNamespaces (s : InMemoryStore) (nsPrefix : Namespace) : List Namespace :=
  listLoop nsPrefix (s.items.entries.map Prod.snd) []

end InMemoryStore

/-! ## Checkpoints -/

/-- A saved state of a thread. -/
structure Checkpoint (β : Type) where
  id : Bytes
  threadId : Bytes
  parentId : Bytes
  channelValues : Json Bytes
  rest : β

/-- Thread, channel and version. -/
abbrev BlobKey := Bytes ×ₗ Bytes ×ₗ ℕ

def blobKey (threadId channel : Bytes) (version : ℕ) : BlobKey :=
  toLex (threadId, toLex (channel, version))

/-- Thread and parent checkpoint. -/
abbrev PendingKey := Bytes ×ₗ Bytes

/-- The checkpoints and the channel values they share. -/
structure InMemoryCheckpointStore (β P : Type) where
  blobs : SortedMap BlobKey (Json Bytes) := ∅
  byId : SortedMap Bytes (Checkpoint β) := ∅
  byThread : SortedMap Bytes (List (Checkpoint β)) := ∅
  pending : SortedMap PendingKey (List P) := ∅

variable {β P : Type}

/-- A number as an integer without sign; `truncate` is the conversion of a
floating-point number. -/
def getUint64 (truncate : UInt64 → UInt64) : Json Bytes → Option UInt64
  | .uint n => some n
  | .sint n => some n.toUInt64
  | .real bits => some (truncate bits)
  | _ => none

namespace Channels

/-- A channel without a version is kept as it is. -/
def version? (channel : Json Bytes) : Option (Json Bytes) :=
  if channel.isObject then channel.get? (ascii "version") else none

/-- The values of channels, each with its name and version, and the channels
without their values; there are none if a version is not a number. -/
def split (truncate : UInt64 → UInt64) :
    List (Bytes × Json Bytes) → List (Bytes × Json Bytes) →
      List ((Bytes × ℕ) × Json Bytes) × Option (List (Bytes × Json Bytes))
  | [], shell => ([], some shell)
  | (name, channel) :: channels, shell =>
    match version? channel with
    | none => split truncate channels (Json.put shell name channel)
    | some version =>
      match getUint64 truncate version with
      | none => ([], none)
      | some version =>
        let rest := split truncate channels
          (Json.put shell name (.obj [(ascii "version", .uint version)]))
        match channel.get? (ascii "value") with
        | none => rest
        | some value => (((name, version.toNat), value) :: rest.1, rest.2)

/-- The channels with their values again; a value that is missing is null. -/
def join (truncate : UInt64 → UInt64) (value? : Bytes → ℕ → Option (Json Bytes)) :
    List (Bytes × Json Bytes) → List (Bytes × Json Bytes) →
      Except StoreError (List (Bytes × Json Bytes))
  | [], full => .ok full
  | (name, channel) :: channels, full =>
    match version? channel with
    | none => join truncate value? channels (Json.put full name channel)
    | some version =>
      match channel.get? (ascii "value") with
      | some value =>
        join truncate value? channels
          (Json.put full name (.obj [(ascii "version", version), (ascii "value", value)]))
      | none =>
        match getUint64 truncate version with
        | none => .error .typeError
        | some number =>
          join truncate value? channels
            (Json.put full name (.obj [(ascii "version", version),
              (ascii "value", (value? name number.toNat).getD .null)]))

/-- The channels of a checkpoint, if they have the usual shape. -/
def of? (channelValues : Json Bytes) : Option (List (Bytes × Json Bytes)) :=
  if channelValues.isObject then
    match channelValues.get? (ascii "channels") with
    | some (.obj channels) => some channels
    | _ => none
  else none

def set (channelValues : Json Bytes) (channels : List (Bytes × Json Bytes)) : Json Bytes :=
  .obj (Json.put channelValues.members (ascii "channels") (.obj channels))

end Channels

namespace InMemoryCheckpointStore

variable (truncate : UInt64 → UInt64)

/-- The values that a checkpoint adds to the blobs, and what is filed of it. -/
def splitBlobs (cp : Checkpoint β) : List ((Bytes × ℕ) × Json Bytes) × Option (Checkpoint β) :=
  match Channels.of? cp.channelValues with
  | none => ([], some cp)
  | some channels =>
    let result := Channels.split truncate channels []
    (result.1,
      result.2.map fun shell => { cp with channelValues := Channels.set cp.channelValues shell })

/-- A checkpoint with the values that were stored apart. -/
def joinBlobs (s : InMemoryCheckpointStore β P) (cp : Checkpoint β) :
    Except StoreError (Checkpoint β) :=
  match Channels.of? cp.channelValues with
  | none => .ok cp
  | some channels => do
    let full ← Channels.join truncate
      (fun name version => s.blobs.find? (blobKey cp.threadId name version)) channels []
    .ok { cp with channelValues := Channels.set cp.channelValues full }

/-- The first writer of a key wins. -/
def addBlobs (s : InMemoryCheckpointStore β P) (threadId : Bytes)
    (entries : List ((Bytes × ℕ) × Json Bytes)) : InMemoryCheckpointStore β P :=
  { s with
    blobs := entries.foldl
      (fun blobs e => blobs.tryEmplace (blobKey threadId e.1.1 e.1.2) e.2) s.blobs }

/-- A checkpoint is filed. An id that is saved again moves to the newest
position of its thread. -/
def file (s : InMemoryCheckpointStore β P) (resaved : Bool) (shell : Checkpoint β) :
    InMemoryCheckpointStore β P :=
  let history := s.byThread.getD shell.threadId []
  let history := if resaved then history.eraseP fun saved => saved.id = shell.id else history
  { s with
    byId := s.byId.insert shell.id shell
    byThread := s.byThread.insert shell.threadId (history ++ [shell]) }

/-- The values are stored apart; the first under a version stays. -/
def save (s : InMemoryCheckpointStore β P) (cp : Checkpoint β) :
    InMemoryCheckpointStore β P × Except StoreError Unit :=
  let resaved := (s.byId.find? cp.id).isSome
  let split := splitBlobs truncate cp
  let added := s.addBlobs cp.threadId split.1
  match split.2 with
  | none => (added, .error .typeError)
  | some shell => (added.file resaved shell, .ok ())

/-- The checkpoint saved last. -/
def loadLatest (s : InMemoryCheckpointStore β P) (threadId : Bytes) :
    Option (Except StoreError (Checkpoint β)) :=
  (s.byThread.getD threadId []).getLast?.map (s.joinBlobs truncate)

def loadById (s : InMemoryCheckpointStore β P) (id : Bytes) :
    Option (Except StoreError (Checkpoint β)) :=
  (s.byId.find? id).map (s.joinBlobs truncate)

/-- Newest first. A thread without checkpoints has none, whatever the limit. -/
def list (s : InMemoryCheckpointStore β P) (threadId : Bytes) (limit : ℤ) :
    Except StoreError (List (Checkpoint β)) :=
  match s.byThread.find? threadId with
  | none => .ok []
  | some history =>
    if limit < 0 then .error .lengthError
    else (history.reverse.take limit.toNat).mapM (s.joinBlobs truncate)

/-- All of a thread goes. -/
def deleteThread (s : InMemoryCheckpointStore β P) (threadId : Bytes) :
    InMemoryCheckpointStore β P :=
  { s with
    byId := (s.byThread.getD threadId []).foldl (fun byId cp => byId.erase cp.id) s.byId
    byThread := s.byThread.erase threadId
    blobs := s.blobs.filterMap fun key value =>
      if (ofLex key).1 = threadId then none else some value }

def putWrites (s : InMemoryCheckpointStore β P) (threadId parentId : Bytes) (write : P) :
    InMemoryCheckpointStore β P :=
  { s with
    pending := s.pending.alterD (toLex (threadId, parentId)) [] fun writes => writes ++ [write] }

def getWrites (s : InMemoryCheckpointStore β P) (threadId parentId : Bytes) : List P :=
  s.pending.getD (toLex (threadId, parentId)) []

def clearWrites (s : InMemoryCheckpointStore β P) (threadId parentId : Bytes) :
    InMemoryCheckpointStore β P :=
  { s with pending := s.pending.erase (toLex (threadId, parentId)) }

end InMemoryCheckpointStore

/-- The scope of a tenant: the ids are not empty and contain no null byte. -/
structure TenantScope where
  tenantId : Bytes
  authorizationScope : Bytes
  tenantId_ne_nil : tenantId ≠ []
  authorizationScope_ne_nil : authorizationScope ≠ []
  tenantId_no_nul : 0 ∉ tenantId
  authorizationScope_no_nul : 0 ∉ authorizationScope

/-- The mark of a tenant. -/
def tenantPrefix (tenantId : Bytes) : Bytes :=
  ascii "__neograph_tenant__" ++ encodeComponent tenantId

/-! ## Items -/

namespace ScopedStore

/-- Where the items of a tenant are. -/
def privateNamespace (tenantId : Bytes) (ns : Namespace) : Namespace :=
  tenantPrefix tenantId :: ns

/-- An item as its tenant knows it. -/
def publicItem (tenantId : Bytes) (item : StoreItem) : StoreItem :=
  if item.ns.head? = some (tenantPrefix tenantId) then { item with ns := item.ns.tail } else item

end ScopedStore

/-- An operation on the items. -/
inductive StoreOperation where
  | put (ns : Namespace) (key : Bytes) (value : Json Bytes)
  | get (ns : Namespace) (key : Bytes)
  | search (nsPrefix : Namespace) (limit : ℤ)
  | deleteItem (ns : Namespace) (key : Bytes)
  | listNamespaces (nsPrefix : Namespace)

/-- What an operation on the items answers. -/
inductive StoreAnswer where
  | done
  | item (item : Option StoreItem)
  | items (items : List StoreItem)
  | namespaces (namespaces : List Namespace)

namespace ScopedStore

open InMemoryStore

def listNamespaces (tenantId : Bytes) (nsPrefix : Namespace) (backend : InMemoryStore) :
    List Namespace :=
  (backend.listNamespaces (privateNamespace tenantId nsPrefix)).filterMap fun value =>
    if value.head? = some (tenantPrefix tenantId) then some value.tail else none

/-- One operation on the shared store. -/
def step : TenantScope × StoreOperation → InMemoryStore → InMemoryStore × StoreAnswer
  | (scope, .put ns key value), backend =>
    (backend.put (privateNamespace scope.tenantId ns) key value, .done)
  | (scope, .get ns key), backend =>
    (backend, .item
      ((backend.get (privateNamespace scope.tenantId ns) key).map (publicItem scope.tenantId)))
  | (scope, .search nsPrefix limit), backend =>
    (backend, .items ((backend.search (privateNamespace scope.tenantId nsPrefix) limit).map
      (publicItem scope.tenantId)))
  | (scope, .deleteItem ns key), backend =>
    (backend.deleteItem (privateNamespace scope.tenantId ns) key, .done)
  | (scope, .listNamespaces nsPrefix), backend =>
    (backend, .namespaces (listNamespaces scope.tenantId nsPrefix backend))

end ScopedStore

/-! ## Checkpoints -/

/-- An operation on the checkpoints. -/
inductive CheckpointOperation (β P : Type) where
  | save (cp : Checkpoint β)
  | loadLatest (threadId : Bytes)
  | loadById (id : Bytes)
  | list (threadId : Bytes) (limit : ℤ)
  | deleteThread (threadId : Bytes)
  | putWrites (threadId parentId : Bytes) (write : P)
  | getWrites (threadId parentId : Bytes)
  | clearWrites (threadId parentId : Bytes)

/-- What an operation on the checkpoints answers. -/
inductive CheckpointAnswer (β P : Type) where
  | done
  | checkpoint (cp : Option (Checkpoint β))
  | checkpoints (cps : List (Checkpoint β))
  | writes (writes : List P)
  | failed (error : StoreError)

namespace ScopedCheckpointStore

open NeoGraph.Tenant.InMemoryCheckpointStore

/-- The id of a checkpoint of a tenant. -/
def privateId (tenantId id : Bytes) : Bytes :=
  tenantPrefix tenantId ++ 58 :: encodeComponent id

/-- The id of a parent, if there is one. -/
def privateParent (tenantId parentId : Bytes) : Bytes :=
  if parentId = [] then parentId else privateId tenantId parentId

/-- A checkpoint as it is saved for a tenant. -/
def privateCheckpoint (tenantId : Bytes) (cp : Checkpoint β) : Checkpoint β :=
  { cp with
    threadId := privateId tenantId cp.threadId
    id := privateId tenantId cp.id
    parentId := privateParent tenantId cp.parentId }

/-- An id without its tenant. -/
def strip (tenantId id : Bytes) : Except StoreError Bytes :=
  let tenant := tenantPrefix tenantId ++ [58]
  if tenant.isPrefixOf id then
    let encoded := id.drop tenant.length
    if 58 ∈ encoded then
      let decoded := (encoded.dropWhile fun b => b ≠ 58).tail
      if encodeComponent decoded = encoded then .ok decoded else .error .malformed
    else .error .malformed
  else .error .escaped

def stripParent (tenantId parentId : Bytes) : Except StoreError Bytes :=
  if parentId = [] then .ok parentId else strip tenantId parentId

/-- A checkpoint as its tenant knows it. -/
def publicCheckpoint (tenantId : Bytes) (cp : Checkpoint β) : Except StoreError (Checkpoint β) := do
  let threadId ← strip tenantId cp.threadId
  let id ← strip tenantId cp.id
  let parentId ← stripParent tenantId cp.parentId
  .ok { cp with threadId := threadId, id := id, parentId := parentId }

/-- A checkpoint that the backend found, as the tenant sees it. -/
def answerCheckpoint (tenantId : Bytes) :
    Option (Except StoreError (Checkpoint β)) → CheckpointAnswer β P
  | none => .checkpoint none
  | some loaded =>
    match loaded >>= publicCheckpoint tenantId with
    | .ok cp => .checkpoint (some cp)
    | .error error => .failed error

def answerCheckpoints (tenantId : Bytes) (loaded : Except StoreError (List (Checkpoint β))) :
    CheckpointAnswer β P :=
  match loaded >>= fun cps => cps.mapM (publicCheckpoint tenantId) with
  | .ok cps => .checkpoints cps
  | .error error => .failed error

/-- One operation on the shared checkpoints. -/
def step (truncate : UInt64 → UInt64) :
    TenantScope × CheckpointOperation β P → InMemoryCheckpointStore β P →
      InMemoryCheckpointStore β P × CheckpointAnswer β P
  | (scope, .save cp), backend =>
    let saved := backend.save truncate (privateCheckpoint scope.tenantId cp)
    (saved.1, match saved.2 with
      | .ok () => .done
      | .error error => .failed error)
  | (scope, .loadLatest threadId), backend =>
    (backend, answerCheckpoint scope.tenantId
      (backend.loadLatest truncate (privateId scope.tenantId threadId)))
  | (scope, .loadById id), backend =>
    (backend, answerCheckpoint scope.tenantId
      (backend.loadById truncate (privateId scope.tenantId id)))
  | (scope, .list threadId limit), backend =>
    (backend, answerCheckpoints scope.tenantId
      (backend.list truncate (privateId scope.tenantId threadId) limit))
  | (scope, .deleteThread threadId), backend =>
    (backend.deleteThread (privateId scope.tenantId threadId), .done)
  | (scope, .putWrites threadId parentId write), backend =>
    (backend.putWrites (privateId scope.tenantId threadId) (privateId scope.tenantId parentId)
      write, .done)
  | (scope, .getWrites threadId parentId), backend =>
    (backend, .writes (backend.getWrites (privateId scope.tenantId threadId)
      (privateId scope.tenantId parentId)))
  | (scope, .clearWrites threadId parentId), backend =>
    (backend.clearWrites (privateId scope.tenantId threadId) (privateId scope.tenantId parentId),
      .done)

end ScopedCheckpointStore

/-! ## Both stores -/

/-- An operation on one of the shared stores. -/
abbrev Operation (β P : Type) :=
  TenantScope × StoreOperation ⊕ TenantScope × CheckpointOperation β P

namespace Operation

/-- The tenant that an operation comes from. -/
def tenant : Operation β P → Bytes :=
  Sum.elim (fun op => op.1.tenantId) (fun op => op.1.tenantId)

end Operation

end NeoGraph.Tenant

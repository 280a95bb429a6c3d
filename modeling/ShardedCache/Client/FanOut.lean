import ShardedCache.Client.Basic
import ShardedCache.Future.Bulk
import ShardedCache.Future.Piped

/-!
# Calls that go to many nodes

One operation is made for each node, key or item. When one of them cannot be submitted, those
before it are cancelled, so that a failed call leaves nothing behind.
-/

namespace ShardedCache.Client

variable {α : Type}

/-- Makes and submits a flush for each node. -/
def flushEach (delay : UInt32) (callback : Callback) : (queued : List Nat) → List Nat →
    Call (List Nat)
  | queued, [] => return queued
  | queued, node :: nodes => do
    let op ← Call.operation (.flush delay) callback
    Call.submitAfter queued op node
    flushEach delay callback (queued ++ [op]) nodes

/-- Flushes every node; the result is whether all of them did. -/
def flush (client : Client) (delay : UInt32) : Call (OperationFuture Bool) := do
  let completion ← Call.completion (← Call.latch 1)
  let multiplexer ← Call.multiplexer client.nodes.length
  let operations ←
    flushEach delay (.multiplex multiplexer (.completion completion)) [] client.nodes
  return { operations, completion, timeout := client.config.opTimeout
           decode := fun c => .ok c.isSuccess }

/-- A node that has been asked for its version. -/
structure VersionQuery where
  node : Nat
  future : OperationFuture String

/-- Asks every node for its version. -/
def askVersions (client : Client) : (asked : List VersionQuery) → List Nat →
    Call (List VersionQuery)
  | asked, [] => return asked
  | asked, node :: nodes => do
    let completion ← Call.completion (← Call.latch 1)
    let op ← Call.operation .version (.completion completion)
    Call.submitAfter (asked.flatMap (·.future.operations)) op node
    let future : OperationFuture String :=
      { operations := [op], completion, timeout := client.config.opTimeout
        decode := fun c => .ok (c.version?.getD "") }
    askVersions client (asked ++ [{ node, future }]) nodes

/-- Waits for the versions, one node after the other. Time has been running for the first since
`since`. -/
def awaitVersions (since : Nat) : List VersionQuery → KeyMap String → Call (KeyMap String)
  | [], found => return found
  | query :: rest, found => fun c =>
    let spent := c.now - since
    match query.future.get c (query.future.timeout - spent) with
    | (c, _, .error error) => (c, .error error)
    | (c, _, .ok version) =>
      let name := ((c.node? query.node).map (·.name)).getD ""
      awaitVersions c.now rest (KeyMap.insert found name version) c

/-- The version of every node, by its name. -/
def versions (client : Client) : Call (KeyMap String) := do
  let queries ← client.askVersions [] client.nodes
  fun c => awaitVersions c.now queries [] c

/-- Makes and submits a get for each key. -/
def getEach (client : Client) (latch : Nat) : (entries : List BulkEntry) → List String →
    Call (List BulkEntry)
  | entries, [] => return entries
  | entries, key :: keys => do
    let completion ← Call.completion latch
    let op ← Call.operation (.get key false) (.completion completion)
    Call.submitAfter (entries.map (·.operation)) op (client.nodeOf key)
    getEach client latch (entries ++ [{ key, operation := op, completion }]) keys

/-- Gets many keys; a key that is named twice is fetched once. -/
def getBulk (client : Client) (keys : List String) (t : Transcoder α) : Call (BulkFuture α) := do
  let keys := keys.eraseDups
  keys.forM fun key => Call.check (validateKey key)
  let latch ← Call.latch keys.length
  let entries ← client.getEach latch [] keys
  return { entries, latch, timeout := client.config.opTimeout, transcoder := t }

/-- Makes and submits a store for each item. -/
def setEach (client : Client) (exptime : UInt32) (latch : Nat) : (piped : List (Nat × Nat)) →
    List (String × StoredValue) → Call (List (Nat × Nat))
  | piped, [] => return piped
  | piped, (key, value) :: items => do
    let completion ← Call.completion latch
    let request : StoreRequest :=
      { kind := .set, key, flags := value.flags, exptime, data := value.data, cas := 0 }
    let op ← Call.operation (.store request) (.completion completion)
    Call.submitAfter (piped.map (·.1)) op (client.nodeOf key)
    setEach client exptime latch (piped ++ [(op, completion)]) items

/-- Stores many items. -/
def setBulk (client : Client) (items : List (String × StoredValue)) (exptime : UInt32) :
    Call PipedFuture := do
  items.forM fun item => Call.check (validateKey item.1)
  let latch ← Call.latch items.length
  let piped ← client.setEach exptime latch [] items
  return { items := piped, latch, timeout := client.config.opTimeout }

/-- The items as they are stored. The first key that cannot be used, or value that cannot be stored,
ends it. -/
def encodeEach (encode : α → Except CacheError StoredValue) :
    List (String × α) → Except CacheError (List (String × StoredValue))
  | [] => .ok []
  | (key, value) :: items => do
    validateKey key
    let stored ← encode value
    let rest ← encodeEach encode items
    return (key, stored) :: rest

/-- Stores many values; nothing is made before all of them are ready to be stored. -/
def storeBulk (client : Client) (encode : α → Except CacheError StoredValue)
    (items : List (String × α)) (exptime : UInt32) : Call PipedFuture := fun c =>
  match encodeEach encode items with
  | .error error => (c, .error error)
  | .ok encoded => client.setBulk encoded exptime c

end ShardedCache.Client

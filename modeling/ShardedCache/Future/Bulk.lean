import ShardedCache.Future.Operation

/-!
# Futures over many keys

Each key has its own operation and completion; one latch counts them all. `get` wants every key
and fails with the first that failed. `getSome` takes what is there and never fails; it remembers
whether it gave up waiting.
-/

namespace ShardedCache

structure BulkEntry where
  key : String
  operation : Nat
  completion : Nat
  deriving DecidableEq, Repr

/-- Values by key, in no particular order. -/
abbrev KeyMap (α : Type) := List (String × α)

namespace KeyMap

variable {α : Type}

def get? (m : KeyMap α) (key : String) : Option α := m.lookup key

def insert (m : KeyMap α) (key : String) (value : α) : KeyMap α :=
  match m with
  | [] => [(key, value)]
  | (k, v) :: rest => if k = key then (k, value) :: rest else (k, v) :: insert rest key value

end KeyMap

structure BulkFuture (α : Type) where
  entries : List BulkEntry
  latch : Nat
  timeout : Nat
  transcoder : Transcoder α
  /-- The values decoded so far. -/
  decoded : KeyMap α := []
  /-- A partial read gave up waiting. -/
  timedOut : Bool := false
  /-- The final result, once every operation has reported. -/
  final : Option (KeyMap α) := none

namespace BulkFuture

variable {α : Type}

def operations (f : BulkFuture α) : List Nat := f.entries.map (·.operation)

/-- The value of an entry, if it has one; it is decoded once for each key. -/
def valueOf (f : BulkFuture α) (c : Cluster) (entry : BulkEntry) :
    BulkFuture α × Except CacheError (Option α) :=
  match KeyMap.get? f.decoded entry.key with
  | some value => (f, .ok (some value))
  | none =>
    match (c.engine.reports.completion entry.completion).value? with
    | none => (f, .ok none)
    | some (data, _) =>
      match f.transcoder.decode data with
      | .ok value =>
        ({ f with decoded := KeyMap.insert f.decoded entry.key value }, .ok (some value))
      | .error error => (f, .error error)

/-- The values of all entries, or the first one that cannot be decoded. -/
def collect (c : Cluster) : List BulkEntry → KeyMap α → BulkFuture α →
    BulkFuture α × Except CacheError (KeyMap α)
  | [], found, f => (f, .ok found)
  | entry :: rest, found, f =>
    match f.valueOf c entry with
    | (f, .ok (some value)) => collect c rest (KeyMap.insert found entry.key value) f
    | (f, .ok none) => collect c rest found f
    | (f, .error error) => (f, .error error)

/-- The values of the entries that have ended and can be decoded. -/
def collectSome (c : Cluster) : List BulkEntry → KeyMap α → BulkFuture α →
    BulkFuture α × KeyMap α
  | [], found, f => (f, found)
  | entry :: rest, found, f =>
    if !c.engine.isTerminal entry.operation then collectSome c rest found f
    else
      match f.valueOf c entry with
      | (f, .ok (some value)) => collectSome c rest (KeyMap.insert found entry.key value) f
      | (f, _) => collectSome c rest found f

/-- Waits for every key. -/
def get (f : BulkFuture α) (c : Cluster) (timeout : Nat) :
    Cluster × BulkFuture α × Except CacheError (KeyMap α) :=
  match c.settleAll f.latch f.operations timeout with
  | (c, .error error) => (c, f, .error error)
  | (c, .ok _) =>
    match f.final with
    | some values => (c, f, .ok values)
    | none =>
      match collect c f.entries [] f with
      | (f, .ok values) => (c, { f with final := some values }, .ok values)
      | (f, .error error) => (c, f, .error error)

/-- Waits, and takes what has arrived by then. -/
def getSome (f : BulkFuture α) (c : Cluster) (timeout : Nat) :
    Cluster × BulkFuture α × KeyMap α :=
  match f.final with
  | some values => (c, f, values)
  | none =>
    match c.waitLatch f.latch timeout with
    | (c, true) =>
      let c := c.chargeSuccess f.operations
      let (f, values) := collectSome c f.entries [] f
      (c, { f with final := some values }, values)
    | (c, false) =>
      let c := c.chargeTimeout f.operations
      let (f, values) := collectSome c f.entries [] { f with timedOut := true }
      (c, f, values)

def isDone (f : BulkFuture α) (c : Cluster) : Bool := c.isOpen f.latch

def keys (f : BulkFuture α) : List String := f.entries.map (·.key)

end BulkFuture

end ShardedCache

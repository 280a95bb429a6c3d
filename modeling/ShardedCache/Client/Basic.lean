import ShardedCache.Config.Validity
import ShardedCache.Future.Operation
import ShardedCache.Locator

/-!
# The client

A client shares keys out over its nodes. Every call makes its operations, hands them to the nodes
of their keys and returns a future; nothing has been sent by then. Here are the calls that concern
one key.
-/

namespace ShardedCache

structure Client where
  config : Config
  /-- The nodes in the order in which keys are shared out. -/
  nodes : List Nat
  deriving DecidableEq, Repr

/-- A step of a call: it may change the cluster whether it succeeds or not. -/
abbrev Call (α : Type) := Cluster → Cluster × Except CacheError α

namespace Call

variable {α β : Type}

def pure (a : α) : Call α := fun c => (c, .ok a)

def bind (x : Call α) (f : α → Call β) : Call β := fun c =>
  match x c with
  | (c, .ok a) => f a c
  | (c, .error error) => (c, .error error)

instance : Monad Call where
  pure := pure
  bind := bind

def fail (error : CacheError) : Call α := fun c => (c, .error error)

/-- A change of the cluster that cannot fail. -/
def change (f : Cluster → Cluster × α) : Call α := fun c =>
  let (c, a) := f c
  (c, .ok a)

def completion (latch : Nat) : Call Nat :=
  change fun c =>
    let (reports, id) := c.engine.reports.addCompletion latch
    (c.mapReports fun _ => reports, id)

def latch (count : Nat) : Call Nat :=
  change fun c =>
    let (reports, id) := c.engine.reports.addLatch count
    (c.mapReports fun _ => reports, id)

def multiplexer (count : Nat) : Call Nat :=
  change fun c =>
    let (reports, id) := c.engine.reports.addMultiplexer count
    (c.mapReports fun _ => reports, id)

def operation (command : Command) (callback : Callback) : Call Nat :=
  change fun c =>
    let (engine, id) := c.engine.create command callback
    ({ c with engine }, id)

def submit (operation node : Nat) : Call Unit := fun c => c.submit operation node

/-- Hands an operation to a node; when that fails, the operations that were `queued` before it are
cancelled. -/
def submitAfter (queued : List Nat) (operation node : Nat) : Call Unit := fun c =>
  match c.submit operation node with
  | (c, .ok _) => (c, .ok ())
  | (c, .error error) =>
    ({ c with engine := (c.engine.cancelAll queued "fan-out aborted").1 }, .error error)

end Call

/-! ## Keys -/

def maxKeyLength : Nat := 250

/-- Why a key cannot be used. -/
inductive KeyFlaw where
  | empty
  | tooLong (length : Nat)
  deriving DecidableEq, Repr

def KeyFlaw.message : KeyFlaw → String
  | empty => "key must not be empty"
  | tooLong length =>
    "key is " ++ toString length ++ " bytes, limit is " ++ toString maxKeyLength

def keyFlaw? (key : String) : Option KeyFlaw :=
  if key.isEmpty then some .empty
  else if maxKeyLength < key.utf8ByteSize then some (.tooLong key.utf8ByteSize)
  else none

/-- Fails if a key cannot be used. -/
def validateKey (key : String) : Except CacheError Unit :=
  match keyFlaw? key with
  | some flaw => .error (.invalidArgument flaw.message)
  | none => .ok ()

/-- Validates as a step of a call. -/
def Call.check (result : Except CacheError Unit) : Call Unit := fun c => (c, result)

/-! ## Results -/

/-- A value and its version. -/
structure Versioned (α : Type) where
  cas : UInt64
  value : α
  deriving DecidableEq, Repr

inductive CasOutcome where
  | ok
  /-- The item has been changed meanwhile. -/
  | changed
  | notFound
  | failed
  deriving DecidableEq, Repr

namespace CasOutcome

def name : CasOutcome → String
  | ok => "Ok"
  | changed => "Exists"
  | notFound => "NotFound"
  | failed => "Failed"

def ofStatus : Option Wire.Status → CasOutcome
  | some ⟨.success, _⟩ => ok
  | some ⟨.alreadyExists, _⟩ => changed
  | some ⟨.notFound, _⟩ => notFound
  | _ => failed

end CasOutcome

namespace Client

variable {α : Type}

/-- A client with a node for each of its servers. -/
def ofConfig (config : Config) (c : Cluster) : Cluster × Client :=
  let (c, nodes) := config.servers.foldl
    (fun ((c, nodes) : Cluster × List Nat) server =>
      let (c, node) := c.addNode server config
      (c, nodes ++ [node]))
    (c, [])
  (c, { config, nodes })

/-- A client, if its configuration has no flaw. -/
def connect (config : Config) : Call Client := do
  Call.check config.validate
  Call.change (ofConfig config)

/-- Takes all nodes out of service: what they have queued is cancelled, and nothing more is
taken. -/
def shutDown (client : Client) (c : Cluster) : Cluster :=
  client.nodes.foldl (fun c node => c.destroy node "node shut down") c

/-- The node that a key belongs to. -/
def nodeOf (client : Client) (key : String) : Nat :=
  client.nodes.getD (Locator.index client.nodes.length key) 0

/-- A call that needs one operation on one key. -/
def single (client : Client) (key : String) (command : Command)
    (decode : Completion → Except CacheError α) : Call (OperationFuture α) := do
  Call.check (validateKey key)
  let completion ← Call.completion (← Call.latch 1)
  let op ← Call.operation command (.completion completion)
  Call.submit op (client.nodeOf key)
  return { operations := [op], completion, timeout := client.config.opTimeout, decode }

def get (client : Client) (key : String) (t : Transcoder α) :
    Call (OperationFuture (Option α)) :=
  client.single key (.get key false) fun c =>
    match c.value? with
    | some (data, _) => (t.decode data).map some
    | none => .ok none

/-- Gets a value with its version. -/
def gets (client : Client) (key : String) (t : Transcoder α) :
    Call (OperationFuture (Option (Versioned α))) :=
  client.single key (.get key true) fun c =>
    match c.value? with
    | some (data, cas) => (t.decode data).map fun value => some { cas, value }
    | none => .ok none

def store (client : Client) (kind : StoreKind) (key : String) (exptime : UInt32)
    (value : StoredValue) : Call (OperationFuture Bool) :=
  let request : StoreRequest :=
    { kind, key, flags := value.flags, exptime, data := value.data, cas := 0 }
  client.single key (.store request) fun c => .ok c.isSuccess

/-- Stores a value unless the item has another version by now. -/
def compareAndSwap (client : Client) (key : String) (cas : UInt64) (exptime : UInt32)
    (value : StoredValue) : Call (OperationFuture CasOutcome) :=
  let request : StoreRequest :=
    { kind := .set, key, flags := value.flags, exptime, data := value.data, cas }
  client.single key (.store request) fun c => .ok (.ofStatus c.status)

def delete (client : Client) (key : String) : Call (OperationFuture Bool) :=
  client.single key (.delete key) fun c => .ok c.isSuccess

/-- Counts up or down; a counter that does not exist starts at `initial`. -/
def count (client : Client) (direction : Direction) (key : String) (amount initial : UInt64) :
    Call (OperationFuture (Option UInt64)) :=
  let request : CounterRequest := { direction, key, amount, initial := some initial, exptime := 0 }
  client.single key (.counter request) fun c => .ok c.counter?

end Client

end ShardedCache

import ShardedCache.Cluster.Waiting
import ShardedCache.Transcoder

/-!
# Futures over operations that share one completion

The result of one call. It is decoded once, when it is first asked for and nothing has failed.
-/

namespace ShardedCache

structure OperationFuture (α : Type) where
  operations : List Nat
  completion : Nat
  /-- How long `get` waits unless told otherwise. -/
  timeout : Nat
  decode : Completion → Except CacheError α
  /-- The result, once it has been decoded. -/
  value : Option α := none

namespace OperationFuture

variable {α β : Type}

/-- The same future with its result shown in another form. -/
def map (f : α → β) (future : OperationFuture α) : OperationFuture β where
  operations := future.operations
  completion := future.completion
  timeout := future.timeout
  decode c := (future.decode c).map f
  value := future.value.map f

def latch (f : OperationFuture α) (c : Cluster) : Nat :=
  (c.engine.reports.completion f.completion).latch

/-- The result that was decoded before, or else the result of decoding now. -/
def result (f : OperationFuture α) (c : Cluster) : OperationFuture α × Except CacheError α :=
  match f.value with
  | some value => (f, .ok value)
  | none =>
    match f.decode (c.engine.reports.completion f.completion) with
    | .ok value => ({ f with value := some value }, .ok value)
    | .error error => (f, .error error)

/-- Waits for the result. -/
def get (f : OperationFuture α) (c : Cluster) (timeout : Nat) :
    Cluster × OperationFuture α × Except CacheError α :=
  match c.settleAll (f.latch c) f.operations timeout with
  | (c, .ok _) => (c, f.result c)
  | (c, .error error) => (c, f, .error error)

def status? (f : OperationFuture α) (c : Cluster) : Option Wire.Status :=
  (c.engine.reports.completion f.completion).status

def isDone (f : OperationFuture α) (c : Cluster) : Bool := c.isOpen (f.latch c)

def isCancelled (f : OperationFuture α) (c : Cluster) : Bool :=
  f.operations.any c.engine.isCancelled

end OperationFuture

/-- The cause of a cancellation that the caller of a future asked for. -/
def applicationCause : String := "cancelled by application"

/-- Cancels the operations of a future. True when the server never saw one of them. -/
def Cluster.cancelFuture (c : Cluster) (operations : List Nat) : Cluster × Bool :=
  let (engine, unsent) := c.engine.cancelAll operations applicationCause
  ({ c with engine }, unsent)

end ShardedCache

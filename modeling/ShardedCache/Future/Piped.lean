import ShardedCache.Future.Operation

/-!
# Futures over many stores

The result tells which items could not be stored, by position, and why.
-/

namespace ShardedCache

open Wire (Status)

structure PipedFuture where
  /-- The operation and the completion of each item. -/
  items : List (Nat × Nat)
  latch : Nat
  timeout : Nat
  /-- The failures, once they have been gathered. -/
  failures : Option (List (Nat × Status)) := none
  deriving DecidableEq, Repr

namespace PipedFuture

def operations (f : PipedFuture) : List Nat := f.items.map (·.1)

/-- The items whose completion has a failing status. -/
def gather (f : PipedFuture) (c : Cluster) : List (Nat × Status) :=
  f.items.zipIdx.filterMap fun ((_, completion), index) =>
    match (c.engine.reports.completion completion).status with
    | some status => if status.isSuccess then none else some (index, status)
    | none => none

/-- Waits for every item. -/
def get (f : PipedFuture) (c : Cluster) (timeout : Nat) :
    Cluster × PipedFuture × Except CacheError (List (Nat × Status)) :=
  match c.settleAll f.latch f.operations timeout with
  | (c, .error error) => (c, f, .error error)
  | (c, .ok _) =>
    let failures := f.failures.getD (f.gather c)
    (c, { f with failures := some failures }, .ok failures)

def isDone (f : PipedFuture) (c : Cluster) : Bool := c.isOpen f.latch

end PipedFuture

end ShardedCache

import ShardedCache.Command.Kind
import ShardedCache.Wire.Status

/-!
# Metrics

Counters over the life of a client. A family of counters has one series for each label; a series
exists from the first time it is touched, even by zero.
-/

namespace ShardedCache

open Wire (Status)

/-- A family of counters, one for each label. -/
abbrev Counters (Label : Type) := List (Label × Nat)

/-- Adds `n` to the counter of a label. -/
def Counters.add {Label : Type} [DecidableEq Label] (counters : Counters Label) (label : Label)
    (n : Nat) : Counters Label :=
  match counters with
  | [] => [(label, n)]
  | (l, count) :: rest =>
    if l = label then (l, count + n) :: rest else (l, count) :: add rest label n

structure Metrics where
  /-- By the name of the kind and of the status. -/
  completed : Counters (String × String) := []
  cancelled : Nat := 0
  /-- By node. -/
  waitTimeouts : Counters String := []
  /-- By batch family. -/
  batched : Counters String := []
  /-- By node. -/
  reconnects : Counters String := []
  connectedNodes : UInt64 := 0
  /-- How many shards each sorted multi-get touched, with the policy it merged by; newest first. -/
  shards : List (String × Nat) := []
  deriving DecidableEq, Repr

namespace Metrics

def recordCompletion (m : Metrics) (kind : CommandKind) (status : Status) : Metrics :=
  { m with completed := Counters.add m.completed (kind.name, status.code.name) 1 }

def recordCancellation (m : Metrics) : Metrics := { m with cancelled := m.cancelled + 1 }

def recordWaitTimeout (m : Metrics) (node : String) (n : Nat) : Metrics :=
  { m with waitTimeouts := Counters.add m.waitTimeouts node n }

def recordBatch (m : Metrics) (family : String) (n : Nat) : Metrics :=
  { m with batched := Counters.add m.batched family n }

def recordReconnect (m : Metrics) (node : String) (n : Nat) : Metrics :=
  { m with reconnects := Counters.add m.reconnects node n }

def recordConnected (m : Metrics) : Metrics := { m with connectedNodes := m.connectedNodes + 1 }

def recordDisconnected (m : Metrics) : Metrics := { m with connectedNodes := m.connectedNodes - 1 }

def observeShards (m : Metrics) (policy : String) (n : Nat) : Metrics :=
  { m with shards := (policy, n) :: m.shards }

end Metrics

end ShardedCache

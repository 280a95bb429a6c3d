import ShardedCache.Node.Health
import ShardedCache.Node.Queue

/-!
# Nodes

One server as the client sees it: its name, whether it has let the client in, how its waits went,
and the queues of its connection.
-/

namespace ShardedCache

structure Node where
  name : String
  credentials : Option Credentials
  authenticated : Bool
  /-- How long a submission waits for the node to let the client in. -/
  authWait : Nat
  health : Health
  queue : Queue
  deriving DecidableEq, Repr

namespace Node

/-- A node that nothing has been sent to; `id` is its place among all nodes. -/
def ofConfig (name : String) (config : Config) (id : Nat) : Node where
  name := name
  credentials := config.auth
  authenticated := config.auth.isNone
  authWait := config.authWait
  health := .tracking config.timeoutRatioWindow
  queue :=
    { settings := config.queueSettings, node := id, inputCapacity := config.inputQueueCapacity }

def text (n : Node) : String :=
  "Node \x7b name: " ++ Text.quoted n.name ++ ", authenticated: " ++ toString n.authenticated
    ++ ", continuous_timeouts: " ++ toString n.health.continuous.toNat ++ " \x7d"

end Node

end ShardedCache

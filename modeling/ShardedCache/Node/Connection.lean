import ShardedCache.Cluster.Basic

/-!
# The connection of a node

What the task behind a node does on each event. A node with credentials authenticates first: its
request goes in front of everything queued, and submissions are held back until the server has
accepted it. After a fault the queues are prepared for the next connection, which is tried after a
delay that doubles up to a limit.
-/

namespace ShardedCache

namespace Connection

/-- The delay before the first reconnection. -/
def baseDelay : Nat := 100

/-- The delay before reconnection number `attempt`. -/
def reconnectDelay (attempt limit : Nat) : Nat :=
  min (baseDelay <<< min (attempt - 1) 16) limit

end Connection

/-- What happens to a connection from outside. -/
inductive LinkEvent where
  | connected
  | connectFailed
  /-- A submission has arrived. -/
  | woken
  | received (bytes : Bytes)
  /-- The server has taken `n` bytes of the write buffer. -/
  | sent (n : Nat)
  | lost
  | shutDown
  deriving DecidableEq, Repr

inductive Connection where
  /-- Not connected; `attempt` counts the tries since the last connection. -/
  | down (attempt : Nat)
  /-- Connected; `auth` is the authentication that the server has not answered yet. -/
  | up (auth : Option Nat)
  | stopped
  deriving DecidableEq, Repr

namespace Connection

/-- Takes submissions in, unless they are held back, and fills the write buffer. -/
def refill (c : Cluster) (node : Nat) (auth : Option Nat) : Cluster :=
  let c := if auth.isNone then (c.copyInput node).1 else c
  c.pack node

/-- Counts a try to connect that follows a failure. -/
def countRetry (c : Cluster) (node attempt : Nat) : Cluster :=
  match attempt, c.node? node with
  | _ + 1, some n => c.mapMetrics (·.recordReconnect n.name 1)
  | _, _ => c

/-- Queues the authentication of a node that has credentials. -/
def authenticate (c : Cluster) (node : Nat) : Cluster × Option Nat :=
  match (c.node? node).bind (·.credentials) with
  | none => (c, none)
  | some credentials =>
    let command := Command.saslPlain credentials.username credentials.password
    let (engine, id) := c.engine.create command .silent
    (({ c with engine }.assign id node).pushFront node id, some id)

/-- Closes the books on a connection. -/
def close (c : Cluster) (node : Nat) : Cluster :=
  (c.mapMetrics (·.recordDisconnected)).modifyNode node fun n =>
    if n.credentials.isSome then { n with authenticated := false } else n

/-- Drops a connection after a fault. -/
def drop (c : Cluster) (node : Nat) : Cluster × Connection :=
  ((close c node).resend node "connection lost", down 1)

/-- Looks at the authentication after a response: it may be open, accepted or refused. -/
def judge (c : Cluster) (node : Nat) (auth : Option Nat) : Option (Cluster × Option Nat) :=
  match auth with
  | none => some (c, none)
  | some id =>
    if !c.engine.isTerminal id then some (c, some id)
    else if ((c.engine.get? id).bind (·.status)).any (·.isSuccess) then
      some (c.modifyNode node ({ · with authenticated := true }), none)
    else none

/-- One event in the life of the connection of `node`. -/
def step (c : Cluster) (node : Nat) : Connection → LinkEvent → Cluster × Connection
  | down attempt, .connected =>
    let c := (countRetry c node attempt).modifyNode node fun n => { n with health := n.health.reset }
    let (c, auth) := authenticate (c.mapMetrics (·.recordConnected)) node
    (refill c node auth, up auth)
  | down attempt, .connectFailed => (countRetry c node attempt, down (attempt + 1))
  | up auth, .woken => (refill c node auth, up auth)
  | up auth, .sent n =>
    let c := (c.takeWritten node n).1
    (refill c node auth, up auth)
  | up auth, .received bytes =>
    match (c.appendRead node bytes).process node with
    | (c, some _) => drop c node
    | (c, none) =>
      match judge c node auth with
      | some (c, auth) => (refill c node auth, up auth)
      | none => drop c node
  | up _, .lost => drop c node
  | up _, .shutDown => ((close c node).destroy node "node shut down", stopped)
  | down _, .shutDown => (c.destroy node "node shut down", stopped)
  | state, _ => (c, state)

end Connection

end ShardedCache

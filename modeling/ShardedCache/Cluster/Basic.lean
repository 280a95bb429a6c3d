import ShardedCache.Node.Basic

/-!
# The cluster

All nodes and all operations of a client, and a clock. Here operations are handed to nodes, the
queues of a node are driven, and the outcome of a wait is charged to the nodes that it touched.
-/

namespace ShardedCache

/-- A latch that will be counted down when the clock gets there. -/
structure Alarm where
  due : Nat
  latch : Nat
  deriving DecidableEq, Repr

/-- A submission that waits for its node to let the client in. -/
structure Deferred where
  operation : Nat
  node : Nat
  due : Nat
  deriving DecidableEq, Repr

structure Cluster where
  engine : Engine := {}
  nodes : List Node := []
  /-- Milliseconds since the start. -/
  now : Nat := 0
  alarms : List Alarm := []
  deferred : List Deferred := []
  /-- What became of deferred submissions, by operation. -/
  resumed : List (Nat × Except CacheError Unit) := []

namespace Cluster

def node? (c : Cluster) (node : Nat) : Option Node := c.nodes[node]?

def modifyNode (c : Cluster) (node : Nat) (f : Node → Node) : Cluster :=
  { c with nodes := c.nodes.modify node f }

def mapReports (c : Cluster) (f : Reports → Reports) : Cluster :=
  { c with engine := { c.engine with reports := f c.engine.reports } }

def mapMetrics (c : Cluster) (f : Metrics → Metrics) : Cluster :=
  { c with engine := { c.engine with metrics := f c.engine.metrics } }

def addNode (c : Cluster) (name : String) (config : Config) : Cluster × Nat :=
  ({ c with nodes := c.nodes ++ [.ofConfig name config c.nodes.length] }, c.nodes.length)

/-- The name of the node that an operation was handed to. -/
def nodeName (c : Cluster) (operation : Nat) : String :=
  match (c.engine.get? operation).bind (·.node) with
  | some node => ((c.node? node).map (·.name)).getD ""
  | none => "<unassigned>"

/-! ## Driving the queues of a node -/

/-- Runs a step of a node's queues. -/
def withQueue {α : Type} (c : Cluster) (node : Nat) (default : α)
    (f : Queue → Engine → Queue × Engine × α) : Cluster × α :=
  match c.node? node with
  | some n =>
    let (queue, engine, result) := f n.queue c.engine
    ({ c with engine, nodes := c.nodes.set node { n with queue } }, result)
  | none => (c, default)

def copyInput (c : Cluster) (node : Nat) : Cluster × Nat :=
  c.withQueue node 0 fun q e =>
    let (q, moved) := q.copyInput e
    (q, e, moved)

def pack (c : Cluster) (node : Nat) : Cluster :=
  (c.withQueue node () fun q e =>
    let (q, e) := q.pack e
    (q, e, ())).1

/-- Takes bytes off the front of the write buffer, for the server. -/
def takeWritten (c : Cluster) (node n : Nat) : Cluster × Bytes :=
  c.withQueue node [] fun q e =>
    let (q, taken) := q.takeWritten n
    (q, e, taken)

/-- Appends bytes from the server to the read buffer. -/
def appendRead (c : Cluster) (node : Nat) (bytes : Bytes) : Cluster :=
  (c.withQueue node () fun q e => (q.appendRead bytes, e, ())).1

def process (c : Cluster) (node : Nat) : Cluster × Option LinkFault :=
  c.withQueue node none Queue.process

def pushFront (c : Cluster) (node operation : Nat) : Cluster :=
  (c.withQueue node () fun q e => (q.pushFront operation, e, ())).1

def resend (c : Cluster) (node : Nat) (cause : String) : Cluster :=
  (c.withQueue node () fun q e =>
    let (q, e) := q.resend e cause
    (q, e, ())).1

def destroy (c : Cluster) (node : Nat) (cause : String) : Cluster :=
  (c.withQueue node () fun q e =>
    let (q, e) := q.destroy e cause
    (q, e, ())).1

/-! ## Submitting -/

def assign (c : Cluster) (operation node : Nat) : Cluster :=
  { c with engine := c.engine.modify operation ({ · with node := some node }) }

def cancel (c : Cluster) (operation : Nat) (cause : String) : Cluster :=
  { c with engine := (c.engine.cancel operation cause).1 }

/-- Puts an operation into the input queue of a node. One that finds no room, or a node that has
shut down, is cancelled. -/
def enqueue (c : Cluster) (operation node : Nat) : Cluster × Except CacheError Unit :=
  match c.node? node with
  | none => (c, .ok ())
  | some n =>
    match n.queue.submit operation with
    | .error refusal => (c.cancel operation refusal.cause, .error (refusal.error n.name))
    | .ok queue => ({ c with nodes := c.nodes.set node { n with queue } }, .ok ())

def isAuthenticated (c : Cluster) (node : Nat) : Bool := (c.node? node).any (·.authenticated)

/-! ## Charging waits -/

/-- The nodes that operations were handed to, each once, in order. -/
def nodesOf (e : Engine) (operations : List Nat) : List Nat :=
  (operations.filterMap fun id => (e.get? id).bind (·.node)).eraseDups

/-- A wait ran out of time: the operations that have not ended are marked, and each of their nodes
is charged once. -/
def chargeTimeout (c : Cluster) (operations : List Nat) : Cluster :=
  let overdue := operations.filter (!c.engine.isTerminal ·)
  let engine := c.engine.each overdue fun e id => e.modify id ({ · with timedOut := true })
  (nodesOf c.engine overdue).foldl
    (fun c node =>
      let name := ((c.node? node).map (·.name)).getD ""
      (c.modifyNode node fun n => { n with health := n.health.recordTimeout }).mapMetrics
        (·.recordWaitTimeout name 1))
    { c with engine }

/-- A wait ended in time: each node it touched is in good health. -/
def chargeSuccess (c : Cluster) (operations : List Nat) : Cluster :=
  (nodesOf c.engine operations).foldl
    (fun c node => c.modifyNode node fun n => { n with health := n.health.recordSuccess }) c

end Cluster

end ShardedCache

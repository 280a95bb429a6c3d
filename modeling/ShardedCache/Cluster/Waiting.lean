import ShardedCache.Cluster.Basic

/-!
# Waiting

Time passes only while someone waits. A wait that is satisfied ends at once, and one that is not
lasts its whole time; whatever falls due before its end happens on the way and may satisfy it.
-/

namespace ShardedCache

namespace Cluster

/-! ## What happens at its time -/

/-- Takes up one submission that waited for its node: it is queued once the node has let the
client in, and cancelled when its time is over. -/
def settleDeferred (c : Cluster) (d : Deferred) : Cluster :=
  let resume (c : Cluster) (result : Except CacheError Unit) : Cluster :=
    { c with resumed := c.resumed ++ [(d.operation, result)] }
  if c.isAuthenticated d.node then
    let (c, result) := c.enqueue d.operation d.node
    resume c result
  else if d.due ≤ c.now then resume (c.cancel d.operation "authentication timeout") (.ok ())
  else { c with deferred := c.deferred ++ [d] }

/-- Does everything that is due by now. -/
def settle (c : Cluster) : Cluster :=
  let due := (c.alarms.filter (·.due ≤ c.now)).mergeSort fun a b => a.due ≤ b.due
  let c := { c with alarms := c.alarms.filter (c.now < ·.due) }
  let c := due.foldl (fun c a => c.mapReports (·.countDown a.latch)) c
  c.deferred.foldl settleDeferred { c with deferred := [] }

/-- Lets time pass up to a moment, and does what is due then. -/
def passTo (c : Cluster) (moment : Nat) : Cluster := settle { c with now := max c.now moment }

/-- The moments before `deadline` at which something falls due, in order. -/
def momentsBefore (c : Cluster) (deadline : Nat) : List Nat :=
  ((c.alarms.map (·.due) ++ c.deferred.map (·.due)).filter (· < deadline)).mergeSort

/-- Passes from moment to moment until `ready`, and at last to the deadline. -/
def waitThrough (ready : Cluster → Bool) (deadline : Nat) : List Nat → Cluster → Cluster × Bool
  | [], c => ({ c with now := max c.now deadline }, false)
  | moment :: later, c =>
    let c := c.passTo moment
    if ready c then (c, true) else waitThrough ready deadline later c

/-- Waits until `ready`, for at most `timeout`. Tells whether it came to that. -/
def waitFor (c : Cluster) (ready : Cluster → Bool) (timeout : Nat) : Cluster × Bool :=
  if ready c then (c, true)
  else waitThrough ready (c.now + timeout) (c.momentsBefore (c.now + timeout)) c

def isOpen (c : Cluster) (latch : Nat) : Bool := c.engine.reports.isOpen latch

/-- Waits for a latch to open. -/
def waitLatch (c : Cluster) (latch timeout : Nat) : Cluster × Bool :=
  c.waitFor (·.isOpen latch) timeout

/-- Lets time pass. -/
def sleep (c : Cluster) (time : Nat) : Cluster := ((c.waitFor (fun _ => false) time).1).settle

/-! ## Submitting -/

/-- Hands an operation to a node. While the node is authenticating this waits; an operation whose
node does not let the client in is cancelled. -/
def submit (c : Cluster) (operation node : Nat) : Cluster × Except CacheError Unit :=
  let c := c.assign operation node
  if c.isAuthenticated node then c.enqueue operation node
  else
    let authWait := ((c.node? node).map (·.authWait)).getD 0
    match c.waitFor (·.isAuthenticated node) authWait with
    | (c, true) => c.enqueue operation node
    | (c, false) => (c.cancel operation "authentication timeout", .ok ())

/-- Hands an operation to a node without waiting: while the node is authenticating, the submission
stays to be taken up again. -/
def submitLater (c : Cluster) (operation node : Nat) : Cluster :=
  let c := c.assign operation node
  let due := c.now + ((c.node? node).map (·.authWait)).getD 0
  if c.isAuthenticated node then c.settleDeferred { operation, node, due }
  else { c with deferred := c.deferred ++ [{ operation, node, due }] }

/-- Waits until no submission is left to be taken up. -/
def joinDeferred (c : Cluster) : Cluster :=
  let last := ((c.deferred.map (·.due)).max?).getD 0
  (c.waitFor (·.deferred.isEmpty) (last + 1 - c.now)).1

/-! ## Waiting for operations -/

/-- How long an expired wait goes on when all operations have ended and only their reports are
missing. -/
def completionGrace : Nat := 50

/-- The operations that have not ended. -/
def overdue (c : Cluster) (operations : List Nat) : List Overdue :=
  (operations.filter (!c.engine.isTerminal ·)).map fun id =>
    { node := c.nodeName id
      operation := c.engine.text id
      phase := ((c.engine.get? id).map (·.phase)).getD .queued }

/-- Waits for the latch of some operations and charges the outcome to their nodes. -/
def await (c : Cluster) (latch : Nat) (operations : List Nat) (timeout : Nat) :
    Cluster × Except CacheError Unit :=
  match c.waitLatch latch timeout with
  | (c, true) => (c.chargeSuccess operations, .ok ())
  | (c, false) =>
    let overdue := c.overdue operations
    if overdue.isEmpty then
      match c.waitLatch latch completionGrace with
      | (c, true) => (c.chargeSuccess operations, .ok ())
      | (c, false) => (c.chargeTimeout operations, .error (.timeout overdue))
    else (c.chargeTimeout operations, .error (.timeout overdue))

/-- How an operation failed, if it did. -/
def failure? (e : Engine) (operation : Nat) : Option CacheError :=
  match e.get? operation with
  | some op =>
    match op.error with
    | some error => some (.protocol error)
    | none =>
      if op.isCancelled then some (.cancelled (op.cancelCause.getD "cancelled")) else none
  | none => none

/-- The failures of some operations, as one error. -/
def failures (c : Cluster) (operations : List Nat) : Except CacheError Unit :=
  match CacheError.ofList? (operations.filterMap (failure? c.engine)) with
  | some error => .error error
  | none => .ok ()

/-- Waits for operations and fails if one of them did. -/
def settleAll (c : Cluster) (latch : Nat) (operations : List Nat) (timeout : Nat) :
    Cluster × Except CacheError Unit :=
  match c.await latch operations timeout with
  | (c, .ok _) => (c, c.failures operations)
  | (c, .error error) => (c, .error error)

end Cluster

end ShardedCache

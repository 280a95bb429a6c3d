import ShardedCache.Proofs.Node.Steps

/-!
# Runs of a node

Everything that can happen to the queues of one node, in any order and any number: clients make,
submit and cancel operations, and the connection takes submissions in, writes, reads and starts
over. `Lane.step` is total; an action that the rules for submitting forbid changes nothing.

Each action is taken as a whole: one pass of filling the write buffer, one of processing what has been
read, one cancellation. Clients may cancel from threads of their own, but a cancellation that strikes in
the middle of a pass, between the two changes that copying an operation's last bytes makes, is not among
these runs.
-/

namespace ShardedCache

def Work.isSingle : Work → Bool
  | .single _ => true
  | .batch _ => false

/-- The queues of a node, the operations of its clients, and which of them it has ever accepted. -/
structure Lane where
  queue : Queue
  engine : Engine
  accepted : List Nat := []

inductive Action where
  /-- A client makes an operation. -/
  | create (command : Command) (callback : Callback)
  | submit (id : Nat)
  | pushFront (id : Nat)
  | copyInput
  | pack
  /-- The server takes bytes off the write buffer. -/
  | take (n : Nat)
  /-- Bytes arrive, of whatever kind, and are processed. -/
  | receive (bytes : Bytes)
  | cancel (id : Nat) (cause : String)
  /-- The connection is lost. -/
  | resend (cause : String)

namespace Lane

/-- Nothing has happened yet. -/
structure Initial (s : Lane) : Prop where
  operations : s.engine.operations = []
  journal : s.engine.reports.journal = []
  input : s.queue.input = []
  writeQueue : s.queue.writeQueue = []
  readQueue : s.queue.readQueue = []
  accepted : s.accepted = []

/-- A client's operation that has not been accepted before. Batches are made by the queues
themselves. -/
def isFresh (s : Lane) (id : Nat) : Bool :=
  (s.engine.get? id).any (·.work.isSingle) && !s.accepted.contains id

def step (s : Lane) : Action → Lane
  | .create command callback => { s with engine := (s.engine.create command callback).1 }
  | .submit id =>
    if s.isFresh id then
      match s.queue.submit id with
      | .ok queue => { s with queue, accepted := id :: s.accepted }
      | .error refusal => { s with engine := (s.engine.cancel id refusal.cause).1 }
    else s
  | .pushFront id =>
    if s.isFresh id then
      { s with queue := s.queue.pushFront id, accepted := id :: s.accepted }
    else s
  | .copyInput => { s with queue := (s.queue.copyInput s.engine).1 }
  | .pack =>
    let (queue, engine) := s.queue.pack s.engine
    { s with queue, engine }
  | .take n => { s with queue := (s.queue.takeWritten n).1 }
  | .receive bytes =>
    let (queue, engine, _) := (s.queue.appendRead bytes).process s.engine
    { s with queue, engine }
  | .cancel id cause => { s with engine := (s.engine.cancel id cause).1 }
  | .resend cause =>
    let (queue, engine) := s.queue.resend s.engine cause
    { s with queue, engine }

def run (s : Lane) (actions : List Action) : Lane := actions.foldl step s

/-- What every action keeps, every run keeps. -/
theorem run_induction {P : Lane → Prop} (hstep : ∀ s a, P s → P (s.step a)) :
    ∀ (actions : List Action) {s : Lane}, P s → P (s.run actions)
  | [], _, h => h
  | a :: actions, s, h => run_induction hstep actions (hstep s a h)

end Lane

end ShardedCache

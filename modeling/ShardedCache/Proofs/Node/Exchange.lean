import ShardedCache.Proofs.Node.Custody
import ShardedCache.Proofs.Node.Slots

/-!
# Exchanges with a server

The queues of a node on one connection to a server: operations are made and submitted, the queues
take them in and write, the server takes what has been written and answers each request as soon as
it is there in full, and its responses are delivered, all in pieces of any size and at any time.
An exchange stops at the first fault, as the connection is dropped then.
-/

namespace ShardedCache

open Wire (Frame)

/-- The server's end of a connection. -/
structure Peer where
  /-- What has arrived of a request that is not there in full. -/
  begun : Bytes := []
  /-- The requests that later answers may depend on. -/
  past : List Frame := []
  /-- Responses that have not been delivered. -/
  outbox : Bytes := []

/-- Bytes arrive at the server, and it answers the requests that they complete. -/
def Peer.receive (p : Peer) (server : Server) (bytes : Bytes) : Peer :=
  let (found, begun) := Frame.drain Wire.requestMagic (p.begun ++ bytes)
  let (past, replies) := server.serve p.past (found.filterMap Except.toOption)
  { begun, past, outbox := p.outbox ++ Frame.encodeAll (replies.filterMap id) }

structure Exchange where
  lane : Lane
  peer : Peer := {}
  fault : Option LinkFault := none

inductive Move where
  /-- A client makes an operation. -/
  | create (command : Command) (callback : Callback)
  | submit (id : Nat)
  | copyInput
  | pack
  /-- The server takes bytes off the write buffer. -/
  | take (n : Nat)
  /-- Bytes from the server arrive and are processed. -/
  | deliver (n : Nat)

namespace Exchange

def queue (x : Exchange) : Queue := x.lane.queue

def engine (x : Exchange) : Engine := x.lane.engine

/-- The operations of the exchange, in the order in which they were accepted. -/
def submitted (x : Exchange) : List Nat := x.lane.accepted.reverse

/-- Nothing has happened yet. -/
structure Initial (x : Exchange) : Prop where
  lane : x.lane.Initial
  writeBuffer : x.queue.writeBuffer = []
  readBuffer : x.queue.readBuffer = []
  peer : x.peer = {}
  fault : x.fault = none

/-- Whether an operation is for one command whose request can be framed, and has not ended. -/
def isSendable (x : Exchange) (id : Nat) : Bool :=
  !x.engine.isTerminal id && (x.engine.command? id).any fun c => decide c.Fits

/-- One move, as long as there has been no fault. -/
def step (server : Server) (x : Exchange) (move : Move) : Exchange :=
  if x.fault.isSome then x
  else
    match move with
    | .create command callback => { x with lane := x.lane.step (.create command callback) }
    | .submit id => if x.isSendable id then { x with lane := x.lane.step (.submit id) } else x
    | .copyInput => { x with lane := x.lane.step .copyInput }
    | .pack => { x with lane := x.lane.step .pack }
    | .take n =>
      let (queue, bytes) := x.queue.takeWritten n
      { x with lane := { x.lane with queue }, peer := x.peer.receive server bytes }
    | .deliver n =>
      let (queue, engine, fault) := (x.queue.appendRead (x.peer.outbox.take n)).process x.engine
      { lane := { x.lane with queue, engine }
        peer := { x.peer with outbox := x.peer.outbox.drop n }, fault }

def run (server : Server) (x : Exchange) (moves : List Move) : Exchange :=
  moves.foldl (step server) x

/-- Everything has been sent, answered and delivered. -/
structure Quiet (x : Exchange) : Prop where
  input : x.queue.input = []
  writeQueue : x.queue.writeQueue = []
  writeBuffer : x.queue.writeBuffer = []
  outbox : x.peer.outbox = []

end Exchange

/-- Among the frames that have arrived is one for a member of the batch that is still being
written. -/
def Engine.Overtakes (e : Engine) (writeQueue : List Nat) (arrived : Bytes) : Prop :=
  ∃ f batch m n, .ok f ∈ (Frame.drain Wire.responseMagic arrived).1 ∧
    writeQueue.head? = some batch ∧ m ∈ e.members batch ∧ e.nature? m = some n ∧ n.tag = f.tag

/-- A response in the next `n` bytes overtakes the request that it belongs to. -/
def Exchange.Overtaken (x : Exchange) (n : Nat) : Prop :=
  x.engine.Overtakes x.queue.writeQueue (x.queue.readBuffer ++ x.peer.outbox.take n)

/-! ## What answers depend on -/

namespace Engine

/-- The requests of operations, as far as answers may depend on them. -/
def asked (e : Engine) (ids : List Nat) : List Frame :=
  ((ids.filterMap e.command?).map (·.request 0)).filter (!·.isNoOp)

/-- The requests before that of an operation, among accepted ones. -/
def past (e : Engine) (accepted : List Nat) (id : Nat) : List Frame :=
  e.asked (accepted.reverse.takeWhile (· ≠ id))

theorem asked_append (e : Engine) (ids ids' : List Nat) :
    e.asked (ids ++ ids') = e.asked ids ++ e.asked ids' := by
  simp [asked]

/-- An operation has told its callback what the server's answer comes to. -/
def Tells (e : Engine) (server : Server) (accepted : List Nat) (id : Nat) : Prop :=
  ∀ c, e.command? id = some c →
    (server.conclusion (e.past accepted id) c).HeardIn (e.heardOf id).1

/-- Whatever has ended, has ended in what the server's answer comes to. -/
def Answered (e : Engine) (server : Server) (accepted : List Nat) : Prop :=
  ∀ id ∈ accepted, e.isTerminal id → e.Tells server accepted id

theorem takeWhile_ne {before after : List Nat} {id : Nat} (h : id ∉ before) :
    (before ++ id :: after).takeWhile (· ≠ id) = before := by
  have hfront : ∀ x ∈ before, decide (x ≠ id) = true := fun x hx => by
    rw [decide_eq_true_eq]
    rintro rfl
    exact h hx
  rw [List.takeWhile_append_of_pos hfront]
  simp

theorem past_eq {e : Engine} {accepted before after : List Nat} {id : Nat}
    (h : accepted.reverse = before ++ id :: after) (hnodup : accepted.Nodup) :
    e.past accepted id = e.asked before := by
  have hrev : (before ++ id :: after).Nodup := h ▸ (List.reverse_perm accepted).nodup_iff.2 hnodup
  have hid : id ∉ before := fun hmem =>
    (List.nodup_append.1 hrev).2.2 id hmem id List.mem_cons_self rfl
  rw [past, h, takeWhile_ne hid]

/-- A later submission does not come before an earlier one. -/
theorem past_cons {e : Engine} {accepted : List Nat} {id new : Nat} (hid : id ∈ accepted) :
    e.past (new :: accepted) id = e.past accepted id := by
  obtain ⟨before, after, heq, hnot⟩ := List.eq_append_cons_of_mem (List.mem_reverse.2 hid)
  rw [past, past, List.reverse_cons, heq, List.append_assoc, List.cons_append, takeWhile_ne hnot,
    takeWhile_ne hnot]

end Engine

end ShardedCache

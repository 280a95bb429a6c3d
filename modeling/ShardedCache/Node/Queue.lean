import ShardedCache.CacheError
import ShardedCache.Config.Basic
import ShardedCache.Engine.Response

/-!
# The queues of a connection

Operations travel

    input → write queue → read queue

and their bytes through a write and a read buffer. `copyInput` takes submissions in, `pack` writes
requests into the write buffer, `process` hands responses to the operation at the head of the read
queue, and `resend` prepares for a new connection after a fault. Runs of gets or of stores at the
head of the write queue may be packed as one batch.
-/

namespace ShardedCache

open Wire (Frame FrameFault)

structure Queue where
  settings : QueueSettings
  /-- The node that owns the queues. -/
  node : Nat
  inputCapacity : Nat
  input : List Nat := []
  /-- No more submissions are taken. -/
  closed : Bool := false
  writeQueue : List Nat := []
  readQueue : List Nat := []
  writeBuffer : Bytes := []
  readBuffer : Bytes := []
  deriving DecidableEq, Repr

/-- Why a connection has to be dropped. -/
inductive LinkFault where
  | unsolicited (tag : UInt32)
  | rejected (operation : String)
  | malformed (fault : FrameFault)
  deriving DecidableEq, Repr

namespace LinkFault

def error : LinkFault → ProtocolError
  | unsolicited tag => ⟨.general, "unsolicited response opaque " ++ toString tag.toNat⟩
  | rejected operation => ⟨.client, operation ++ " rejected, dropping connection"⟩
  | malformed fault => ⟨.general, fault.message⟩

end LinkFault

/-- Why a submission is turned away. -/
inductive Refusal where
  | closed | full
  deriving DecidableEq, Repr

namespace Refusal

/-- What the operation is cancelled with. -/
def cause : Refusal → String
  | closed => "node shut down"
  | full => "input queue full"

def error (node : String) : Refusal → CacheError
  | closed => .nodeUnavailable node
  | full => .queueFull node

end Refusal

namespace Queue

def hasPendingWrites (q : Queue) : Bool := !q.writeBuffer.isEmpty || !q.writeQueue.isEmpty

/-- Puts an operation in front of everything that waits to be written. -/
def pushFront (q : Queue) (id : Nat) : Queue := { q with writeQueue := id :: q.writeQueue }

/-- Takes bytes off the front of the write buffer, for the server. -/
def takeWritten (q : Queue) (n : Nat) : Queue × Bytes :=
  ({ q with writeBuffer := q.writeBuffer.drop n }, q.writeBuffer.take n)

/-- Appends bytes from the server to the read buffer. -/
def appendRead (q : Queue) (bytes : Bytes) : Queue :=
  { q with readBuffer := q.readBuffer ++ bytes }

/-! ## Taking submissions in -/

/-- Puts an operation into the input queue, if there is room and the node has not shut down. -/
def submit (q : Queue) (id : Nat) : Except Refusal Queue :=
  if q.closed then .error .closed
  else if q.inputCapacity ≤ q.input.length then .error .full
  else .ok { q with input := q.input ++ [id] }

/-- Takes submissions until there is no more room. Gives those taken and those left; cancelled ones
on the way are dropped. -/
def takeInput (e : Engine) : (room : Nat) → (input : List Nat) → List Nat × List Nat
  | 0, input => ([], input)
  | _ + 1, [] => ([], [])
  | room + 1, id :: rest =>
    if e.isCancelled id then takeInput e (room + 1) rest
    else
      let (taken, left) := takeInput e room rest
      (id :: taken, left)

/-- Moves submissions into the write queue while it has room. Gives how many were moved. -/
def copyInput (q : Queue) (e : Engine) : Queue × Nat :=
  let (taken, left) := takeInput e (q.settings.writeQueueCapacity - q.writeQueue.length) q.input
  ({ q with writeQueue := q.writeQueue ++ taken, input := left }, taken.length)

/-! ## Writing -/

/-- Whether an operation can go into a new batch of the family. -/
def fits (e : Engine) (family : BatchFamily) (id : Nat) : Bool :=
  (e.get? id).any fun op =>
    !op.writeStarted && !op.isCancelled && op.work.family? == some family

/-- The length of the run at the head of a queue that makes a batch, counting on from `count`
operations of `bytes` bytes. The first operation may exceed the limit on bytes. -/
def runLength (s : QueueSettings) (e : Engine) (family : BatchFamily) :
    (count bytes : Nat) → List Nat → Nat
  | count, _, [] => count
  | count, bytes, id :: rest =>
    if s.maxBatchKeys ≤ count || !fits e family id then count
    else
      let size := (e.remaining id).2
      if 0 < count && s.maxBatchBytes < bytes + size then count
      else runLength s e family (count + 1) (bytes + size) rest

/-- The label of a family in the metrics. -/
def familyLabel : BatchFamily → String
  | .get => "get"
  | .store => "store"

/-- Replaces a run of two or more operations at the head of the write queue by one batch. -/
def optimize (q : Queue) (e : Engine) : Queue × Engine :=
  match (q.writeQueue.head?.bind e.get?).bind (·.work.family?) with
  | none => (q, e)
  | some family =>
    let count := runLength q.settings e family 0 0 q.writeQueue
    if count < 2 then (q, e)
    else
      let (e, batch) := e.batch family (q.writeQueue.take count) .silent
      let e := e.modify batch ({ · with node := some q.node })
      let e := { e with metrics := e.metrics.recordBatch (familyLabel family) count }
      ({ q with writeQueue := batch :: q.writeQueue.drop count }, e)

theorem length_optimize_le (q : Queue) (e : Engine) :
    (q.optimize e).1.writeQueue.length ≤ q.writeQueue.length := by
  unfold optimize
  split
  · exact Nat.le_refl _
  · dsimp only
    split
    · exact Nat.le_refl _
    · next hcount =>
      cases hq : q.writeQueue with
      | nil => simp [hq, runLength] at hcount
      | cons a rest =>
        rw [hq] at hcount
        simp only [List.length_cons, List.length_drop]
        omega

/-- Whether the operation has begun to be written. -/
def isStarted (e : Engine) (id : Nat) : Bool := (e.get? id).any (·.writeStarted)

/-- The queue with its head regrouped, if the head has not begun to be written. -/
def regroup (q : Queue) (e : Engine) (id : Nat) : Queue × Engine :=
  if q.settings.optimize && !isStarted e id then q.optimize e else (q, e)

theorem length_regroup_le (q : Queue) (e : Engine) (id : Nat) :
    (q.regroup e id).1.writeQueue.length ≤ q.writeQueue.length := by
  unfold regroup
  split
  · exact length_optimize_le q e
  · exact Nat.le_refl _

/-- Writes requests into the write buffer until it is full or nothing waits to be written. -/
def pack (q : Queue) (e : Engine) : Queue × Engine :=
  if q.writeBuffer.length < q.settings.writeBufferSize then
    match _hq : q.writeQueue with
    | [] => (q, e)
    | id :: rest =>
      if !isStarted e id && e.isCancelled id then pack { q with writeQueue := rest } e
      else
        let regrouped := q.regroup e id
        match _hr : regrouped.1.writeQueue with
        | [] => regrouped
        | head :: rest =>
          let room := q.settings.writeBufferSize - q.writeBuffer.length
          let (filled, copied) := regrouped.2.fill head room
          let q' := { regrouped.1 with writeBuffer := q.writeBuffer ++ copied }
          if (filled.unwritten head).isEmpty then
            pack { q' with writeQueue := rest, readQueue := q'.readQueue ++ [head] }
              (filled.finishWriting head)
          else (q', filled)
  else (q, e)
termination_by q.writeQueue.length
decreasing_by
  · simp [_hq]
  · have h := length_regroup_le q e id
    have hr := congrArg List.length _hr
    simp only [List.length_cons, regrouped] at hr h ⊢
    omega

/-! ## Reading -/

/-- Hands every complete frame of the read buffer to the operation at the head of the read queue.
A fault means that the connection must be dropped. -/
def process (q : Queue) (e : Engine) : Queue × Engine × Option LinkFault :=
  match _h : Frame.parse Wire.responseMagic q.readBuffer with
  | .incomplete => (q, e, none)
  | .frame f rest =>
    let q' := { q with readBuffer := rest }
    match q.readQueue with
    | [] => (q', e, some (.unsolicited f.tag))
    | id :: waiting =>
      match e.receive id f with
      | (e, .pending) => process q' e
      | (e, .done) => process { q' with readQueue := waiting } e
      | (e, .fatal) => ({ q' with readQueue := waiting }, e, some (.rejected (e.text id)))
  | .fault fault rest =>
    let e := match q.readQueue with
      | [] => e
      | id :: _ => e.fail id ⟨.general, fault.reason⟩
    let q' := { q with readBuffer := rest, readQueue := q.readQueue.tail }
    if _hc : fault.consumed = true then process q' e else (q', e, some (.malformed fault))
termination_by q.readBuffer.length
decreasing_by
  · exact Frame.length_of_parse_frame _h
  · exact Frame.length_of_parse_frame _h
  · exact Frame.length_of_parse_fault _h _hc

/-! ## Faults and the end -/

/-- Cancels several operations. -/
def cancelEach (e : Engine) (ids : List Nat) (cause : String) : Engine :=
  e.each ids fun e id => (e.cancel id cause).1

/-- Whether an operation that has begun to be written may be sent once more. -/
def mayRepeat (e : Engine) (id : Nat) : Bool :=
  (e.get? id).any fun op => op.idempotent && !op.isCancelled

/-- Prepares for a fresh connection. Operations that wait for a response are cancelled; one that
has begun to be written starts over if it may be sent twice and is cancelled if not; the others
stay. -/
def resend (q : Queue) (e : Engine) (cause : String) : Queue × Engine :=
  let e := cancelEach e q.readQueue cause
  let (e, writeQueue) := match q.writeQueue with
    | [] => (e, [])
    | id :: rest =>
      if !isStarted e id then (e, id :: rest)
      else if mayRepeat e id then
        ((e.reset id).1, id :: rest)
      else ((e.cancel id cause).1, rest)
  ({ q with
      readQueue := []
      writeQueue := writeQueue.filter (!e.isCancelled ·)
      writeBuffer := []
      readBuffer := [] }, e)

/-- Cancels everything that the connection still holds and takes nothing more. -/
def destroy (q : Queue) (e : Engine) (cause : String) : Queue × Engine :=
  ({ q with
      input := [], closed := true, writeQueue := [], readQueue := [], writeBuffer := []
      readBuffer := [] },
    cancelEach e (q.readQueue ++ q.writeQueue ++ q.input) cause)

end Queue

end ShardedCache

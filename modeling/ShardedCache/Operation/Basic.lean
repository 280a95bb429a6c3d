import ShardedCache.Callback

/-!
# Operations

An operation is one exchange with a server: a request that is written, and the responses that
settle it. Its phase only moves forward,

    queued → writing → reading → complete
       └────────┴─────────┴────→ cancelled

except that a request which has not been written in full can be taken back to the start. A batch
is an operation too; its members are operations made before it, named by their numbers.
-/

namespace ShardedCache

open Wire (Status)

inductive Phase where
  | queued | writing | reading | complete | cancelled
  deriving DecidableEq, Repr

namespace Phase

def rank : Phase → Nat
  | queued => 0
  | writing => 1
  | reading => 2
  | complete => 3
  | cancelled => 4

def isTerminal : Phase → Bool
  | complete | cancelled => true
  | queued | writing | reading => false

def name : Phase → String
  | queued => "WriteQueued"
  | writing => "Writing"
  | reading => "Reading"
  | complete => "Complete"
  | cancelled => "Cancelled"

def all : List Phase := [queued, writing, reading, complete, cancelled]

def ofName? (name : String) : Option Phase := all.find? (·.name == name)

/-- Whether an operation may move from one phase to another. -/
def mayBecome (now next : Phase) : Bool := !now.isTerminal && now.rank < next.rank

end Phase

/-- An encoded request and how much of it has been written. -/
structure Request where
  bytes : Bytes
  written : Nat := 0
  deriving DecidableEq, Repr

namespace Request

def left (r : Request) : Bytes := r.bytes.drop r.written

/-- Some bytes have been written and some have not. The rest must still be written, whatever
becomes of the operation, so that the next request starts on a frame boundary. -/
def inFlight (r : Request) : Bool := 0 < r.written && r.written < r.bytes.length

end Request

/-- Operations sent together: their quiet requests, and one request that the server always
answers. -/
structure Batch where
  family : BatchFamily
  members : List Nat
  /-- Gathers the members' reports. -/
  multiplexer : Nat
  deriving DecidableEq, Repr

inductive Work where
  | single (command : Command)
  | batch (batch : Batch)
  deriving DecidableEq, Repr

namespace Work

def kind : Work → CommandKind
  | single c => c.kind
  | batch b => .batch b.family

def details : Work → String
  | single c => c.details
  | batch b => ", " ++ toString b.members.length ++ " ops"

def members : Work → List Nat
  | single _ => []
  | batch b => b.members

/-- What an operation with this work and the given tag is called. -/
def text (w : Work) (tag : UInt32) : String :=
  w.kind.name ++ "(opaque=" ++ toString tag.toNat ++ w.details ++ ")"

/-- The batches that the operation may join. -/
def family? : Work → Option BatchFamily
  | single c => c.family?
  | batch _ => none

end Work

structure Operation where
  /-- Ties responses to this operation. -/
  tag : UInt32
  work : Work
  /-- Whether the request may be sent again after a fault. -/
  idempotent : Bool
  callback : Callback
  /-- A second observer, of the outcome only. -/
  listener : Option Callback := none
  phase : Phase := .queued
  /-- Encoded when the first byte is wanted. -/
  request : Option Request := none
  /-- How the operation ended; present once that has been reported. -/
  status : Option Status := none
  error : Option ProtocolError := none
  cancelCause : Option String := none
  /-- A wait for the operation ran out of time. -/
  timedOut : Bool := false
  node : Option Nat := none
  deriving DecidableEq, Repr

namespace Operation

def kind (op : Operation) : CommandKind := op.work.kind

def members (op : Operation) : List Nat := op.work.members

def text (op : Operation) : String := op.work.text op.tag

/-- The operation with its number and its phase. -/
def debugText (op : Operation) (number : Nat) : String :=
  "Operation \x7b id: " ++ toString number ++ ", op: " ++ Text.quoted op.text ++ ", state: "
    ++ op.phase.name ++ " \x7d"

/-- Some of the request has been written. -/
def writeStarted (op : Operation) : Bool := op.request.any fun r => 0 < r.written

def isCancelled (op : Operation) : Bool := op.phase == .cancelled

def isTerminal (op : Operation) : Bool := op.phase.isTerminal

end Operation

end ShardedCache

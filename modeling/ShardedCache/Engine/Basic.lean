import ShardedCache.Metrics
import ShardedCache.Operation.Basic
import ShardedCache.Reports

/-!
# The engine

All operations of a client in one table, each named by its position, together with everything that
their callbacks write to. Here operations are made and looked up; their lives are in the modules
beside this one.
-/

namespace ShardedCache

open Wire (Status)

/-- A request that the server refused as malformed, as it is logged. -/
structure Rejection where
  operation : String
  message : String
  request : Bytes
  deriving DecidableEq, Repr

structure Engine where
  operations : List Operation := []
  /-- The tag to try next. -/
  nextTag : UInt32 := 1
  reports : Reports := {}
  metrics : Metrics := {}
  /-- Newest first. -/
  rejections : List Rejection := []
  deriving DecidableEq, Repr

namespace Engine

/-! ## Looking up and changing -/

def get? (e : Engine) (id : Nat) : Option Operation := e.operations[id]?

def modify (e : Engine) (id : Nat) (f : Operation → Operation) : Engine :=
  { e with operations := e.operations.modify id f }

def members (e : Engine) (id : Nat) : List Nat := ((e.get? id).map (·.members)).getD []

/-- Whether an operation is finished; one that does not exist is. -/
def isTerminal (e : Engine) (id : Nat) : Bool := ((e.get? id).map (·.isTerminal)).getD true

def isCancelled (e : Engine) (id : Nat) : Bool := ((e.get? id).map (·.isCancelled)).getD false

def text (e : Engine) (id : Nat) : String := ((e.get? id).map (·.text)).getD ""

/-- Applies a change to each of several operations in turn. -/
def each (e : Engine) (ids : List Nat) (f : Engine → Nat → Engine) : Engine := ids.foldl f e

/-- Moves an operation on to `next`, if its phase allows that. -/
def advance (e : Engine) (id : Nat) (next : Phase) : Engine × Bool :=
  match e.get? id with
  | some op =>
    if op.phase.mayBecome next then (e.modify id ({ · with phase := next }), true) else (e, false)
  | none => (e, false)

/-- The keys that an operation touches, those of its members included down to `depth` levels. -/
def keysTo : (depth : Nat) → Engine → Nat → List String
  | 0, _, _ => []
  | depth + 1, e, id =>
    match e.get? id with
    | some { work := .single c, .. } => c.keys
    | some { work := .batch b, .. } => b.members.flatMap (keysTo depth e)
    | none => []

def keys (e : Engine) (id : Nat) : List String := keysTo (id + 1) e id

/-! ## Making operations -/

/-- A tag for a new operation. Tags count upwards and zero is left out. -/
def freshTag (e : Engine) : Engine × UInt32 :=
  let tag := if e.nextTag = 0 then 1 else e.nextTag
  ({ e with nextTag := tag + 1 }, tag)

def add (e : Engine) (work : Work) (idempotent : Bool) (callback : Callback) : Engine × Nat :=
  let (e, tag) := e.freshTag
  ({ e with operations := e.operations ++ [{ tag, work, idempotent, callback }] },
    e.operations.length)

/-- An operation for one command. -/
def create (e : Engine) (command : Command) (callback : Callback) : Engine × Nat :=
  e.add (.single command) command.kind.isIdempotent callback

/-- Registers a second observer of an operation's outcome, unless that has been reported. -/
def listen (e : Engine) (id : Nat) (listener : Callback) : Engine × Bool :=
  match e.get? id with
  | some op =>
    if op.status.isSome then (e, false)
    else (e.modify id ({ · with listener := some listener }), true)
  | none => (e, false)

/-- Makes one operation listen to a new member; a member that has finished reports at once. -/
def join (multiplexer : Callback) (e : Engine) (member : Nat) : Engine :=
  match e.listen member multiplexer with
  | (e, true) => e
  | (e, false) =>
    let status := ((e.get? member).bind (·.status)).getD (.cancelled "finished before batching")
    { e with reports := e.reports.conclude (.finishedEarly member) multiplexer status }

/-- Makes one operation of several. Its own callback is silent; `aggregate` hears when the last
member has finished. -/
def batch (e : Engine) (family : BatchFamily) (members : List Nat) (aggregate : Callback) :
    Engine × Nat :=
  let (reports, multiplexer) := e.reports.addMultiplexer members.length
  let e := { e with reports }
  let e := e.each members (join (.multiplex multiplexer aggregate))
  let idempotent := members.all fun m => ((e.get? m).map (·.idempotent)).getD true
  e.add (.batch { family, members, multiplexer }) idempotent .silent

end Engine

end ShardedCache

import ShardedCache.Engine.Basic

/-!
# Writing requests

A request is encoded when its first byte is wanted and copied out piece by piece, as far as there
is room. Members of a batch go through the phases of writing with it.
-/

namespace ShardedCache

open Wire (Frame)

namespace Engine

/-- What a member contributes to the request of a batch. A member that has been cancelled is left
out. -/
def quietBytes (e : Engine) (member : Nat) : Bytes :=
  match e.get? member with
  | some { work := .single c, tag, phase, .. } =>
    if phase = .cancelled then [] else ((c.quietRequest? tag).map (·.encode)).getD []
  | _ => []

/-- The request of an operation. A batch ends with a request that is always answered. -/
def encode (e : Engine) (op : Operation) : Bytes :=
  match op.work with
  | .single c => (c.request op.tag).encode
  | .batch b => b.members.flatMap e.quietBytes ++ (Frame.request .noOp [] [] [] op.tag 0).encode

/-- Encodes the request of an operation, unless that has been done. -/
def prepare (e : Engine) (id : Nat) : Engine :=
  match e.get? id with
  | some op =>
    if op.request.isSome then e
    else e.modify id ({ · with request := some { bytes := e.encode op } })
  | none => e

/-- The part of the request that has not been written, once it is encoded. -/
def unwritten (e : Engine) (id : Nat) : Bytes :=
  (((e.get? id).bind (·.request)).map (·.left)).getD []

/-- How many bytes of the request have not been written. -/
def remaining (e : Engine) (id : Nat) : Engine × Nat :=
  let e := e.prepare id
  (e, (e.unwritten id).length)

/-- Moves the members of a batch on with it. -/
def advanceMembers (e : Engine) (id : Nat) (next : Phase) : Engine :=
  e.each (e.members id) fun e m => (e.advance m next).1

/-- Counts bytes of the request as written. -/
def count (e : Engine) (id n : Nat) : Engine :=
  e.modify id fun op =>
    { op with request := op.request.map fun r => { r with written := r.written + n } }

/-- Copies out as much of the request as fits into `room`. -/
def fill (e : Engine) (id : Nat) (room : Nat) : Engine × Bytes :=
  let e := e.prepare id
  let copied := (e.unwritten id).take room
  let e := e.count id copied.length
  if copied.isEmpty then (e, copied)
  else
    match e.advance id .writing with
    | (e, true) => (e.advanceMembers id .writing, copied)
    | (e, false) => (e, copied)

/-- The whole request has been handed on. -/
def finishWriting (e : Engine) (id : Nat) : Engine :=
  match e.advance id .reading with
  | (e, true) => e.advanceMembers id .reading
  | (e, false) => if e.isTerminal id then e.modify id ({ · with request := none }) else e

/-- Takes a request that has not been written in full back to the start, and those of its members
down to `depth` levels. -/
def resetTo : (depth : Nat) → Engine → Nat → Engine
  | 0, e, _ => e
  | depth + 1, e, id =>
    match e.get? id with
    | some op =>
      if op.phase = .queued ∨ op.phase = .writing then
        let e := e.modify id fun op =>
          { op with phase := .queued, request := op.request.map ({ · with written := 0 }) }
        e.each op.members (resetTo depth)
      else e
    | none => e

/-- Takes a request back to the start so that it can be sent again. False when it is too late. -/
def reset (e : Engine) (id : Nat) : Engine × Bool :=
  (resetTo (id + 1) e id, (e.get? id).any fun op => op.phase == .queued || op.phase == .writing)

end Engine

end ShardedCache

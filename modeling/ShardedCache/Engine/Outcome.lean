import ShardedCache.Engine.Basic

/-!
# How operations end

An operation ends by completing, with a status and perhaps an error, or by being cancelled. The
outcome is reported once, to the callback and then to the listener.
-/

namespace ShardedCache

open Wire (Status StatusCode)

namespace Engine

/-- Reports an outcome, unless one has been reported before. A request that is in flight is kept,
so that the rest of it can be written. -/
def deliver (e : Engine) (id : Nat) (status : Status) : Engine :=
  match e.get? id with
  | none => e
  | some op =>
    if op.status.isSome then e
    else
      let e := e.modify id fun op =>
        { op with status := some status, request := op.request.filter (·.inFlight) }
      let reports := e.reports.conclude (.operation id) op.callback status
      let reports := match op.listener with
        | some listener => reports.conclude (.listener id) listener status
        | none => reports
      { e with reports }

/-- Hands a payload to the callback, unless the outcome has been reported. -/
def deliverPayload (e : Engine) (id : Nat) (payload : Payload) : Engine :=
  match e.get? id with
  | some op =>
    if op.status.isSome then e
    else { e with reports := e.reports.tell (.operation id) op.callback (.payload payload) }
  | none => e

/-- Completes an operation that has not ended yet. -/
def complete (e : Engine) (id : Nat) (status : Status) : Engine :=
  match e.get? id, e.advance id .complete with
  | some op, (e, true) =>
    { e with metrics := e.metrics.recordCompletion op.kind status }.deliver id status
  | _, _ => e

/-- The status of an operation that ended in an error. -/
def failureStatus (error : ProtocolError) : Status :=
  let code : StatusCode := match error.origin with
    | .general => .error
    | .client => .client
    | .server => .server
  ⟨code, error.message⟩

/-- Completes an operation with an error, and before it those of its members, `depth` levels down,
that have not ended. -/
def failTo : (depth : Nat) → Engine → Nat → ProtocolError → Engine
  | 0, e, _, _ => e
  | depth + 1, e, id, error =>
    let e := e.each (e.members id) fun e m =>
      if e.isTerminal m then e else failTo depth e m error
    let e := e.modify id ({ · with error := some error })
    e.complete id (failureStatus error)

def fail (e : Engine) (id : Nat) (error : ProtocolError) : Engine := failTo (id + 1) e id error

/-- Cancels an operation that has not ended yet, and its members `depth` levels down. -/
def cancelTo : (depth : Nat) → Engine → Nat → String → Engine
  | 0, e, _, _ => e
  | depth + 1, e, id, cause =>
    match e.advance id .cancelled with
    | (e, false) => e
    | (e, true) =>
      let e := e.modify id ({ · with cancelCause := some cause })
      let e := e.each (e.members id) fun e m => cancelTo depth e m cause
      { e with metrics := e.metrics.recordCancellation }.deliver id (.cancelled cause)

/-- Whether no byte of the request has been written. -/
def isUnsent (e : Engine) (id : Nat) : Bool :=
  (e.get? id).any fun op => op.phase == .queued && !op.writeStarted

/-- Cancels an operation. True when the server never saw it. -/
def cancel (e : Engine) (id : Nat) (cause : String) : Engine × Bool :=
  (cancelTo (id + 1) e id cause, e.isUnsent id)

/-- Cancels several operations. True when the server never saw one of them. -/
def cancelAll (e : Engine) (ids : List Nat) (cause : String) : Engine × Bool :=
  ids.foldl
    (fun (e, any) id =>
      let (e, unsent) := e.cancel id cause
      (e, any || unsent))
    (e, false)

end Engine

end ShardedCache

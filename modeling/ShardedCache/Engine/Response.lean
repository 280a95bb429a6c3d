import ShardedCache.Engine.Outcome
import ShardedCache.Engine.Writing

/-!
# Responses

What a response frame does to the operation that waits for it. A batch hears a response for each
member that has something to say; the answer to its own last request settles all members that
kept silent.
-/

namespace ShardedCache

open Wire (Frame Status)

/-- What the operation at the head of the line does after a frame. -/
inductive FrameOutcome where
  /-- More frames belong to it. -/
  | pending
  | done
  /-- It is done, and the server wants the connection dropped. -/
  | fatal
  deriving DecidableEq, Repr

namespace FrameOutcome

def name : FrameOutcome → String
  | pending => "pending"
  | done => "done"
  | fatal => "fatal"

end FrameOutcome

namespace Batch

/-- The outcome of a member that the server had nothing to say about. -/
def silentStatus (b : Batch) : Status :=
  match b.family with
  | .get => ⟨.notFound, "NOT_FOUND"⟩
  | .store => .success

end Batch

namespace Engine

/-- Logs a refused request. -/
def logRejection (e : Engine) (id : Nat) (message : String) : Engine :=
  match e.get? id with
  | some op =>
    let request := match op.request with
      | some r => r.bytes
      | none => e.encode op
    { e with rejections := { operation := op.text, message, request } :: e.rejections }
  | none => e

/-- Ends an operation in an error. The connection is to be dropped when the server said so. -/
def refuse (e : Engine) (id : Nat) (status : UInt16) (error : ProtocolError) :
    Engine × FrameOutcome :=
  if error.origin = .client ∧ Wire.isConnectionFatal status then
    ((e.logRejection id error.message).fail id error, .fatal)
  else (e.fail id error, .done)

/-- Settles the members of a batch that have not ended. -/
def settleMembers (e : Engine) (b : Batch) : Engine :=
  e.each b.members fun e m => if e.isTerminal m then e else e.complete m b.silentStatus

/-- The member of a batch that a tag belongs to; the last one, should it occur twice. -/
def memberByTag? (e : Engine) (b : Batch) (tag : UInt32) : Option Nat :=
  b.members.reverse.find? fun m => (e.get? m).any (·.tag == tag)

/-- Feeds a frame to an operation, and through a batch to its members down to `depth` levels. -/
def receiveTo : (depth : Nat) → Engine → Nat → Frame → Engine × FrameOutcome
  | 0, e, _, _ => (e, .pending)
  | depth + 1, e, id, f =>
    match e.get? id with
    | none => (e, .pending)
    | some op =>
      match op.work with
      | .single c =>
        match c.interpret op.tag f with
        | .error error => e.refuse id f.status error
        | .ok reply =>
          let e := match reply.payload with
            | some payload => e.deliverPayload id payload
            | none => e
          (e.complete id reply.status, .done)
      | .batch b =>
        if f.tag = op.tag then ((e.settleMembers b).complete id .success, .done)
        else
          match e.memberByTag? b f.tag with
          | none => (e, .pending)
          | some m =>
            match receiveTo depth e m f with
            | (e, .fatal) =>
              e.refuse id f.status ⟨.client, e.text m ++ " rejected by server"⟩
            | (e, _) => (e, .pending)

/-- Feeds a response frame to an operation. -/
def receive (e : Engine) (id : Nat) (f : Frame) : Engine × FrameOutcome :=
  receiveTo (id + 1) e id f

end Engine

end ShardedCache

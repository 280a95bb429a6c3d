import ShardedCache.Future.Operation

/-!
# Futures over a sorted multi-get

Every shard folds its slice into a shared answer. Once all have reported, the answer is concluded
and its values are decoded.
-/

namespace ShardedCache

open Wire (Status)
open SortedGet (Answer Element TrimMark Verdict)

/-- A finished sorted multi-get. -/
structure SortedGetResponse (α : Type) where
  elements : List (Element α)
  missed : List (String × Status)
  trimmed : List TrimMark
  verdict : Verdict

structure SortedGetFuture (α : Type) where
  operations : List Nat
  /-- The answer that the shards share. -/
  answer : Nat
  latch : Nat
  timeout : Nat
  transcoder : Transcoder α
  response : Option (SortedGetResponse α) := none

namespace SortedGetFuture

variable {α : Type}

/-- Concludes the shared answer. -/
def conclude (f : SortedGetFuture α) (c : Cluster) : Cluster × Option (Answer StoredValue) :=
  let c := c.mapReports (·.modifyAnswer f.answer fun a => a.conclude.1)
  (c, c.engine.reports.answers[f.answer]?)

def decodeElement (t : Transcoder α) (e : Element StoredValue) : Except CacheError (Element α) :=
  (t.decode e.value).map fun value => { key := e.key, orderKey := e.orderKey, value }

/-- Waits for every shard. -/
def get (f : SortedGetFuture α) (c : Cluster) (timeout : Nat) :
    Cluster × SortedGetFuture α × Except CacheError (SortedGetResponse α) :=
  match c.settleAll f.latch f.operations timeout with
  | (c, .error error) => (c, f, .error error)
  | (c, .ok _) =>
    match f.response with
    | some response => (c, f, .ok response)
    | none =>
      match f.conclude c with
      | (c, none) => (c, f, .error (.timeout []))
      | (c, some answer) =>
        match answer.merged.mapM (decodeElement f.transcoder) with
        | .error error => (c, f, .error error)
        | .ok elements =>
          let response :=
            { elements, missed := answer.missed, trimmed := answer.trimmed
              verdict := answer.verdict.getD .complete }
          (c, { f with response := some response }, .ok response)

/-- The verdict, once every shard has reported. -/
def verdict (f : SortedGetFuture α) (c : Cluster) : Cluster × Option Verdict :=
  if c.isOpen f.latch then
    let (c, answer) := f.conclude c
    (c, answer.bind (·.verdict))
  else (c, none)

def isDone (f : SortedGetFuture α) (c : Cluster) : Bool := c.isOpen f.latch

end SortedGetFuture

end ShardedCache

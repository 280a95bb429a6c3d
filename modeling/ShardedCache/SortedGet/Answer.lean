import ShardedCache.SortedGet.Merge.Current
import ShardedCache.SortedGet.Merge.Legacy

/-!
# The answer of a sorted multi-get

An `Answer` gathers the shards' slices as they arrive. The first hard failure empties it for good;
what arrives after that is ignored. `conclude` settles the verdict once: the merge is finished,
trim marks that no longer tell the caller anything are dropped, and the missed collections are
sorted.
-/

namespace ShardedCache.SortedGet

open Wire (Status)

inductive Policy where
  | current
  | legacy (state : Legacy)
  deriving DecidableEq, Repr

structure Answer (α : Type) where
  selection : Selection
  policy : Policy
  merged : List (Element α) := []
  missed : List (String × Status) := []
  trimmed : List TrimMark := []
  failure : Option Status := none
  verdict : Option Verdict := none
  deriving DecidableEq, Repr

namespace Answer

variable {α : Type}

def current (count : UInt64) (reverse unique : Bool) : Answer α where
  selection := { count, offset := 0, reverse, unique }
  policy := .current

/-- Paging: `offset` elements are passed over once the answer is final. -/
def legacy (count offset : UInt64) (reverse unique : Bool) : Answer α where
  selection := { count, offset, reverse, unique }
  policy := .legacy {}

def isFailed (a : Answer α) : Bool := a.failure.isSome

/-- Whether a merge broke off. Whoever asked for it has not heard back. -/
def isBrokenOff (a : Answer α) : Bool :=
  match a.policy with
  | .current => false
  | .legacy state => state.brokenOff

/-- Merges elements the way the policy has it. -/
def mergeElements (a : Answer α) (shard : List (Element α)) (tailTrimmed : Bool) : Answer α :=
  match a.policy with
  | .current => { a with merged := Current.merge a.selection a.merged shard }
  | .legacy state =>
    let (state, merged) := state.merge a.selection a.merged shard tailTrimmed
    { a with policy := .legacy state, merged }

/-- Folds one shard's slice in. -/
def addSlice (a : Answer α) (slice : ShardSlice α) : Answer α :=
  if a.isFailed then a
  else
    { a with missed := a.missed ++ slice.missed, trimmed := a.trimmed ++ slice.trimmed }.mergeElements
      slice.elements slice.tailTrimmed

/-- Records collections that a shard has nothing for. -/
def addMissed (a : Answer α) (keys : List String) (status : Status) : Answer α :=
  if a.isFailed then a else { a with missed := a.missed ++ keys.map (·, status) }

/-- A shard failed: everything gathered so far is dropped. -/
def fail (a : Answer α) (status : Status) : Answer α :=
  { a with
    merged := []
    missed := []
    trimmed := []
    failure := a.failure.or (some status) }

/-- Whether a trim mark lies strictly past the order key `last` in the direction of the query. -/
def isBeyond (reverse : Bool) (last : OrderKey) (mark : TrimMark) : Bool :=
  compare mark.orderKey last == if reverse then Ordering.lt else .gt

/-- Sorts the trim marks and drops those past the end of a full answer: the caller could not page
to them anyway. -/
def refineTrimmed (a : Answer α) : Answer α :=
  let marks := a.trimmed.mergeSort (TrimMark.le a.selection.reverse)
  match a.merged.getLast? with
  | some last =>
    if a.merged.length < a.selection.count.toNat then { a with trimmed := marks }
    else
      { a with trimmed := marks.filter (!isBeyond a.selection.reverse last.orderKey ·) }
  | none => { a with trimmed := marks }

/-- Finishes the merge and classifies the result. -/
def finishMerge (a : Answer α) : Answer α :=
  match a.policy with
  | .current => a
  | .legacy state =>
    let (state, merged) := state.finish a.selection a.merged
    { a with policy := .legacy state, merged }

def classify (a : Answer α) : Verdict :=
  match a.policy with
  | .current => Current.verdict a.selection a.merged
  | .legacy state => state.verdict a.selection a.merged

/-- Settles the verdict. Later calls give the same one. -/
def conclude (a : Answer α) : Answer α × Verdict :=
  match a.verdict, a.failure with
  | some verdict, _ => (a, verdict)
  | none, some failure => ({ a with verdict := some (.failed failure) }, .failed failure)
  | none, none =>
    let a := a.finishMerge.refineTrimmed
    let a := { a with missed := a.missed.mergeSort fun x y => (compare x.1 y.1).isLE }
    ({ a with verdict := some a.classify }, a.classify)

def missedKeys (a : Answer α) : List String := a.missed.map (·.1)

end Answer

end ShardedCache.SortedGet

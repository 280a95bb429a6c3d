import ShardedCache.SortedGet.Selection

/-!
# Merging with an offset and trimmed tails

The paging policy keeps the elements to be passed over until the end, so it merges up to
`Selection.reach` of them. A shard whose tail was trimmed may be missing elements past its last
one; while such a tail is the end of the merged list, only an element with the very same order key
may follow it.

Inserting walks along the merged list once: `passed` holds the elements behind the current place,
nearest first, and `ahead` those in front of it.
-/

namespace ShardedCache.SortedGet

variable {α : Type}

/-- What the paging policy remembers between rounds. -/
structure Legacy where
  /-- The merged list ends at a trimmed tail. -/
  trimmed : Bool := false
  offsetApplied : Bool := false
  /-- A merge broke off for want of a reach. -/
  brokenOff : Bool := false
  deriving DecidableEq, Repr

namespace Legacy

/-- Passes the elements that come strictly before `e`. -/
def advance (reverse : Bool) (e : Element α) :
    (passed ahead : List (Element α)) → List (Element α) × List (Element α)
  | passed, [] => (passed, [])
  | passed, a :: ahead =>
    if Element.compare reverse a e = .lt then advance reverse e (a :: passed) ahead
    else (passed, a :: ahead)

/-- Whether an element has the order key of the one at the head of `side`. -/
def sharesKey (side : List (Element α)) (e : Element α) : Bool :=
  match side with
  | [] => false
  | a :: _ => a.orderKey == e.orderKey

/-- Inserts a shard's elements one after the other, starting at the current place. The result is
the merged list, in order. -/
def insertAll (s : Selection) (trimmed : Bool) :
    (passed ahead shard : List (Element α)) → List (Element α)
  | passed, ahead, [] => passed.reverse ++ ahead
  | passed, ahead, e :: shard =>
    let (passed, ahead) := advance s.reverse e passed ahead
    if s.reach ≤ passed.length then passed.reverse ++ ahead
    else if ahead.isEmpty && trimmed && !passed.isEmpty && !sharesKey passed e then
      passed.reverse ++ ahead
    else if s.unique && sharesKey passed e then insertAll s trimmed passed ahead shard
    else
      match s.unique && sharesKey ahead e, ahead with
      | true, a :: ahead => insertAll s trimmed (a :: passed) ahead shard
      | _, ahead =>
        insertAll s trimmed (e :: passed) (ahead.take (s.reach - passed.length - 1)) shard

/-- Whether the list ends with the element of the given collection and order key. -/
def endsWith (merged : List (Element α)) (e : Element α) : Bool :=
  match merged.getLast? with
  | some tail => tail.key == e.key && tail.orderKey == e.orderKey
  | none => false

/-- Folds one shard's elements into the merged ones. The reach is computed first, and without one
the merge breaks off and leaves everything as it is. -/
def merge (s : Selection) (state : Legacy) (merged shard : List (Element α))
    (tailTrimmed : Bool) : Legacy × List (Element α) :=
  if reach? s.offset s.count = none then ({ state with brokenOff := true }, merged)
  else
    let (trimmed, merged) :=
      if merged.isEmpty then (tailTrimmed, shard.take s.reach)
      else
        let all := insertAll s state.trimmed [] merged shard
        let reached := match shard.getLast? with
          | some last => tailTrimmed && endsWith all last
          | none => false
        (state.trimmed || reached, all)
    ({ state with trimmed := trimmed && merged.length < s.reach }, merged)

/-- Passes over the offset, once, after the last shard. -/
def finish (s : Selection) (state : Legacy) (merged : List (Element α)) :
    Legacy × List (Element α) :=
  if state.offsetApplied then (state, merged)
  else ({ state with offsetApplied := true }, merged.drop s.offset.toNat)

def verdict (s : Selection) (state : Legacy) (merged : List (Element α)) : Verdict :=
  match !s.unique && hasAdjacentDuplicates merged, state.trimmed with
  | true, true => .duplicatedTrimmed
  | true, false => .duplicated
  | false, true => .trimmed
  | false, false => .complete

end Legacy

end ShardedCache.SortedGet

import ShardedCache.SortedGet.Selection

/-!
# Merging a shard into the running result

Both sides are sorted in the direction of the query and stay so. Where every element counts, the
two are merged and elements in the running result go first among equals. Where an order key counts
once, the running result wins a tie and the shard's element is dropped, and of the elements that
share an order key the first one is kept. Either way only the first `count` elements remain.
-/

namespace ShardedCache.SortedGet.Current

variable {α : Type}

/-- Merges two sorted lists; of two elements that share an order key the left one is kept. -/
def mergeDistinct (reverse : Bool) : List (Element α) → List (Element α) → List (Element α)
  | [], right => right
  | left, [] => left
  | a :: left, b :: right =>
    if a.orderKey = b.orderKey then a :: mergeDistinct reverse left right
    else if Element.le reverse a b then a :: mergeDistinct reverse left (b :: right)
    else b :: mergeDistinct reverse (a :: left) right
termination_by left right => left.length + right.length

/-- Keeps the first element of each run that shares an order key, after one with key `last`. -/
def dropRepeats (last : Option OrderKey) : List (Element α) → List (Element α)
  | [] => []
  | a :: rest =>
    if last = some a.orderKey then dropRepeats last rest
    else a :: dropRepeats (some a.orderKey) rest

/-- Folds one shard's elements into the merged ones. -/
def merge (s : Selection) (merged shard : List (Element α)) : List (Element α) :=
  let all :=
    if s.unique then dropRepeats none (mergeDistinct s.reverse merged shard)
    else merged.merge shard (Element.le s.reverse)
  all.take s.count.toNat

def verdict (s : Selection) (merged : List (Element α)) : Verdict :=
  if !s.unique && hasAdjacentDuplicates merged then .duplicated else .complete

end ShardedCache.SortedGet.Current

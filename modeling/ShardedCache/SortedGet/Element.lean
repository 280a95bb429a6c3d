import ShardedCache.OrderKey
import ShardedCache.Wire.Status

/-!
# Elements of a sorted multi-get

A sorted multi-get scans many collections at once. Each element carries its order key and the key
of the collection it was found in, and elements are ordered by the pair of them. One shard answers
with its `ShardSlice`: the elements it found, the collections it does not have, and the places
where it stopped short.
-/

namespace ShardedCache.SortedGet

open Wire (Status)

/-- Compares by order key, then by collection; `reverse` turns the order round. -/
def compareKeys (reverse : Bool) (a b : OrderKey × String) : Ordering :=
  let order := (compare a.1 b.1).then (compare a.2 b.2)
  if reverse then order.swap else order

structure Element (α : Type) where
  key : String
  orderKey : OrderKey
  value : α
  deriving DecidableEq, Repr

namespace Element

variable {α : Type}

def compare (reverse : Bool) (a b : Element α) : Ordering :=
  compareKeys reverse (a.orderKey, a.key) (b.orderKey, b.key)

/-- Whether `a` may stand in front of `b`. -/
def le (reverse : Bool) (a b : Element α) : Bool := (compare reverse a b).isLE

end Element

/-- Where a shard stopped returning the elements of one collection. -/
structure TrimMark where
  key : String
  orderKey : OrderKey
  deriving DecidableEq, Repr

/-- Whether `a` may stand in front of `b`. -/
def TrimMark.le (reverse : Bool) (a b : TrimMark) : Bool :=
  (compareKeys reverse (a.orderKey, a.key) (b.orderKey, b.key)).isLE

/-- One shard's answer. -/
structure ShardSlice (α : Type) where
  /-- Sorted in the direction of the query. -/
  elements : List (Element α) := []
  missed : List (String × Status) := []
  trimmed : List TrimMark := []
  /-- The shard reached its own cap before the end of the range. -/
  tailTrimmed : Bool := false
  deriving DecidableEq, Repr

end ShardedCache.SortedGet

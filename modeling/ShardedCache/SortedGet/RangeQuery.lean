import ShardedCache.SortedGet.Message

/-!
# Range queries

One shard's part of a sorted multi-get: the collections to scan, the range of order keys, and how
many elements to return at most. The extras of a request hold the count, the mode, the kind of
order key and two bytes kept free; its value holds the two ends of the range and the keys.
-/

namespace ShardedCache.SortedGet

structure RangeQuery where
  keys : List String
  range : KeyRange
  count : UInt32
  /-- Keep one element for each order key. -/
  unique : Bool
  deriving DecidableEq, Repr

namespace RangeQuery

/-- The mode byte that asks for one element for each order key. -/
def uniqueMode : UInt8 := 1

def extras (q : RangeQuery) : Bytes :=
  bigEndian 4 q.count.toNat ++ [if q.unique then uniqueMode else 0, q.range.kind]
    ++ bigEndian 2 0

def value (q : RangeQuery) : Bytes :=
  q.range.start.encode ++ q.range.stop.encode ++ encodeCounted encodeText q.keys

/-- Reads the value of a request; bytes after the keys do not matter. -/
def readValue (count : UInt32) (unique : Bool) (kind : UInt8) : Reader RangeQuery := do
  let start ← Reader.orderKey kind .startKey
  let stop ← Reader.orderKey kind .stopKey
  let keys ← Reader.counted Reader.text
  pure { keys, range := { start, stop }, count, unique }

/-- Reads a request from its extras and its value. -/
def ofRequest (extras value : Bytes) : Except MessagePart RangeQuery :=
  match extras with
  | [c₁, c₂, c₃, c₄, mode, kind, _, _] =>
    let count := UInt32.ofNat (ofBigEndian [c₁, c₂, c₃, c₄])
    (·.1) <$> readValue count (mode == uniqueMode) kind value
  | _ => .error .requestExtras

end RangeQuery

end ShardedCache.SortedGet

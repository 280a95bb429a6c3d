import ShardedCache.Bytes

/-!
# Order keys

The elements of a sorted collection are ordered by a number or by a byte string; the two kinds
never mix within one query. On the wire an order key is a 16-bit length and the bytes it counts.
-/

namespace ShardedCache

inductive OrderKey where
  | number (n : UInt64)
  | bytes (bytes : Bytes)
  deriving DecidableEq, Repr

namespace OrderKey

/-- Numbers come before byte strings; within a kind the order is that of the values. -/
def cmp : OrderKey → OrderKey → Ordering
  | number a, number b => compare a b
  | number _, bytes _ => .lt
  | bytes _, number _ => .gt
  | bytes a, bytes b => compare a b

instance : Ord OrderKey := ⟨cmp⟩

/-- The byte that tells the two kinds apart in a request. -/
def kind : OrderKey → UInt8
  | number _ => 0
  | bytes _ => 1

def encode : OrderKey → Bytes
  | number n => bigEndian 2 8 ++ bigEndian 8 n.toNat
  | bytes b => bigEndian 2 b.length ++ b

/-- Reads an order key of the given kind off the front of `src`. When there is none, only the
length has been read, if that was there. -/
def read (kind : UInt8) (src : Bytes) : Option OrderKey × Bytes :=
  match Bytes.word? 2 src with
  | none => (none, src)
  | some (length, src) =>
    match Bytes.split? length src with
    | none => (none, src)
    | some (content, rest) =>
      if kind = 0 ∧ length = 8 then (some (number (.ofNat (ofBigEndian content))), rest)
      else if kind = 1 then (some (bytes content), rest)
      else (none, src)

/-- Numbers in decimal, byte strings in upper-case hexadecimal after `0x`. -/
def text : OrderKey → String
  | number n => toString n.toNat
  | bytes b => "0x" ++ Bytes.upperHex b

end OrderKey

/-- The order keys from `start` to `stop`, both included; scanned downwards when `start` is the
greater one. -/
structure KeyRange where
  start : OrderKey
  stop : OrderKey
  deriving DecidableEq, Repr

namespace KeyRange

def isReverse (r : KeyRange) : Bool := compare r.start r.stop == .gt

/-- The kind of order key that the range asks for. -/
def kind (r : KeyRange) : UInt8 := r.start.kind

end KeyRange

end ShardedCache

import ShardedCache.SortedGet.Element
import ShardedCache.SortedGet.Message
import ShardedCache.StoredValue

/-!
# A shard's slice on the wire

The value of a shard's response: the elements, the collections it does not have with a status
each, the trim marks, and one last byte whose lowest bit says that the shard reached its own cap.
-/

namespace ShardedCache.SortedGet

open Wire (Status)

/-- The bit of the last byte that marks a shard's own cap. -/
def tailTrimmedBit : UInt8 := 1

namespace ShardSlice

def encodeElement (e : Element StoredValue) : Bytes :=
  encodeText e.key ++ bigEndian 4 e.value.flags.toNat ++ e.orderKey.encode
    ++ bigEndian 4 e.value.data.length ++ e.value.data

def encodeMissed (m : String × Status) : Bytes :=
  encodeText m.1 ++ bigEndian 2 m.2.code.toWire.toNat

def encodeMark (m : TrimMark) : Bytes := encodeText m.key ++ m.orderKey.encode

def encode (slice : ShardSlice StoredValue) : Bytes :=
  encodeCounted encodeElement slice.elements ++ encodeCounted encodeMissed slice.missed
    ++ encodeCounted encodeMark slice.trimmed ++ [if slice.tailTrimmed then tailTrimmedBit else 0]

/-- An element with an order key of the given kind. -/
def readElement (kind : UInt8) : Reader (Element StoredValue) := do
  let key ← Reader.text
  let flags ← Reader.word32
  let orderKey ← Reader.orderKey kind .elementKey
  let length ← Reader.word32
  let data ← Reader.content length.toNat .elementValue
  pure { key, orderKey, value := { flags, data } }

/-- A missed collection; its message is the name of the status. -/
def readMissed : Reader (String × Status) := do
  let key ← Reader.text
  let status ← Reader.word 2 .missedStatus
  pure (key, .ofWire (UInt16.ofNat status) [])

def readMark (kind : UInt8) : Reader TrimMark := do
  let key ← Reader.text
  let orderKey ← Reader.orderKey kind .trimmedKey
  pure { key, orderKey }

/-- The last byte, which has to be the only one left. -/
def readTrailer : Reader Bool := fun src =>
  match src with
  | [trailer] => .ok (trailer &&& tailTrimmedBit != 0, [])
  | _ => .error .trailer

def read (kind : UInt8) : Reader (ShardSlice StoredValue) := do
  let elements ← Reader.counted (readElement kind)
  let missed ← Reader.counted readMissed
  let trimmed ← Reader.counted (readMark kind)
  let tailTrimmed ← readTrailer
  pure { elements, missed, trimmed, tailTrimmed }

/-- Reads a slice whose order keys are of the given kind. -/
def decode (kind : UInt8) (value : Bytes) : Except MessagePart (ShardSlice StoredValue) :=
  (·.1) <$> read kind value

end ShardSlice

end ShardedCache.SortedGet

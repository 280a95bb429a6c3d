import ShardedCache.OrderKey
import ShardedCache.Text.Utf8

/-!
# Parts of a sorted multi-get message

Requests and slices travel as values of one frame. A number of entries takes four bytes, a cache
key is a 16-bit length and the text it counts. Reading stops at the first part that is missing or
malformed and names it.
-/

namespace ShardedCache.SortedGet

/-- The parts that a reader can miss. -/
inductive MessagePart where
  | requestExtras | startKey | stopKey | count | keyLength | key | keyEncoding | elementKey
  | elementValue | missedStatus | trimmedKey | trailer
  deriving DecidableEq, Repr

namespace MessagePart

def name : MessagePart → String
  | requestExtras => "request extras"
  | startKey => "from bkey"
  | stopKey => "to bkey"
  | count => "count"
  | keyLength => "key length"
  | key => "key"
  | keyEncoding => "key encoding"
  | elementKey => "element bkey"
  | elementValue => "element value"
  | missedStatus => "missed status"
  | trimmedKey => "trimmed bkey"
  | trailer => "trailer"

def message (part : MessagePart) : String := "malformed sort-range " ++ part.name

end MessagePart

/-- Reads from the front of a byte string, or names the part that is not there. -/
abbrev Reader (α : Type) := StateT Bytes (Except MessagePart) α

namespace Reader

/-- Takes `n` bytes; `part` is missing when there are fewer. -/
def content (n : Nat) (part : MessagePart) : Reader Bytes := fun src =>
  match src.split? n with
  | some read => .ok read
  | none => .error part

/-- A word of `width` bytes. -/
def word (width : Nat) (part : MessagePart) : Reader Nat :=
  ofBigEndian <$> content width part

def word32 : Reader UInt32 := UInt32.ofNat <$> word 4 .count

def orderKey (kind : UInt8) (part : MessagePart) : Reader OrderKey := fun src =>
  match OrderKey.read kind src with
  | (some key, rest) => .ok (key, rest)
  | (none, _) => .error part

/-- A cache key. -/
def text : Reader String := do
  let length ← word 2 .keyLength
  match Text.Utf8.decode (← content length .key) with
  | .ok key => pure key
  | .error _ => throw .keyEncoding

variable {α : Type}

/-- Reads `n` entries. -/
def times (entry : Reader α) : (n : Nat) → Reader (List α)
  | 0 => pure []
  | n + 1 => do
    let first ← entry
    let others ← times entry n
    pure (first :: others)

/-- Reads a number of entries and that many of them. -/
def counted (entry : Reader α) : Reader (List α) := do
  times entry (← word32).toNat

end Reader

/-- A cache key as it is written. -/
def encodeText (s : String) : Bytes :=
  let content := Text.Utf8.encode s
  bigEndian 2 content.length ++ content

/-- The number of entries and the entries. -/
def encodeCounted {α : Type} (entry : α → Bytes) (entries : List α) : Bytes :=
  bigEndian 4 entries.length ++ entries.flatMap entry

end ShardedCache.SortedGet

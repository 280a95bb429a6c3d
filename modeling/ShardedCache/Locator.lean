import ShardedCache.Text.Utf8

/-!
# Where a key lives

A key belongs to the shard whose number is the key's hash modulo the number of shards. The hash is
the 32-bit FNV-1a hash of the key's bytes, the same for every client.
-/

namespace ShardedCache.Locator

def hashStart : UInt32 := 0x811c9dc5

def hashPrime : UInt32 := 0x01000193

def hash (key : Bytes) : UInt32 :=
  key.foldl (fun h b => (h ^^^ b.toUInt32) * hashPrime) hashStart

/-- The number of the shard, of `count`, that a key belongs to. -/
def index (count : Nat) (key : String) : Nat := (hash (Text.Utf8.encode key)).toNat % count

end ShardedCache.Locator

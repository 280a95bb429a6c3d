import ShardedCache.Bytes

/-!
# Stored values

What a server keeps under a key: bytes, and a flag word that says how to read them.
-/

namespace ShardedCache

structure StoredValue where
  flags : UInt32
  data : Bytes
  deriving DecidableEq, Repr

end ShardedCache

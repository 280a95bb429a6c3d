import ShardedCache.Text.Quoted

/-!
# Configuration

What a client can be told. Times are in milliseconds, sizes in bytes.
-/

namespace ShardedCache

structure Credentials where
  username : String
  password : String
  deriving DecidableEq, Repr

/-- What the queues of one connection go by. -/
structure QueueSettings where
  readBufferSize : Nat
  writeBufferSize : Nat
  writeQueueCapacity : Nat
  /-- Send runs of gets or stores as one batch. -/
  optimize : Bool
  maxBatchKeys : Nat
  maxBatchBytes : Nat
  deriving DecidableEq, Repr

structure Config where
  /-- The address of every shard; keys are shared out in this order. -/
  servers : List String := ["127.0.0.1:11211"]
  /-- How long a future waits unless told otherwise. -/
  opTimeout : Nat := 2500
  connectTimeout : Nat := 5000
  maxReconnectDelay : Nat := 30000
  readBufferSize : Nat := 16384
  writeBufferSize : Nat := 16384
  /-- Operations submitted to a node and not yet picked up by its connection. -/
  inputQueueCapacity : Nat := 16384
  writeQueueCapacity : Nat := 8192
  optimize : Bool := true
  maxBatchKeys : Nat := 64
  maxBatchBytes : Nat := 16384
  /-- Keep a ratio of timeouts for each node. -/
  timeoutRatioWindow : Bool := false
  auth : Option Credentials := none
  /-- How long a submission waits for a node that is authenticating. -/
  authWait : Nat := 1000
  deriving DecidableEq, Repr

/-- Why a configuration cannot be used. -/
inductive ConfigFlaw where
  | noServers
  | notAddress (server : String)
  | zero (field : String)
  deriving DecidableEq, Repr

def ConfigFlaw.message : ConfigFlaw → String
  | noServers => "at least one server is required"
  | notAddress server => "server " ++ Text.quoted server ++ " is not host:port"
  | zero field => field ++ " must be > 0"

namespace Config

def queueSettings (c : Config) : QueueSettings where
  readBufferSize := c.readBufferSize
  writeBufferSize := c.writeBufferSize
  writeQueueCapacity := c.writeQueueCapacity
  optimize := c.optimize
  maxBatchKeys := c.maxBatchKeys
  maxBatchBytes := c.maxBatchBytes

/-- The sizes that may not be zero, by name and in the order in which they are checked. -/
def sizes (c : Config) : List (String × Nat) :=
  [("read_buffer_size", c.readBufferSize), ("write_buffer_size", c.writeBufferSize),
    ("input_queue_capacity", c.inputQueueCapacity),
    ("write_queue_capacity", c.writeQueueCapacity), ("max_batch_keys", c.maxBatchKeys)]

/-- The first reason why the configuration cannot be used. -/
def flaw? (c : Config) : Option ConfigFlaw :=
  if c.servers.isEmpty then some .noServers
  else
    match c.servers.find? (!·.contains ':') with
    | some server => some (.notAddress server)
    | none => (c.sizes.find? (·.2 == 0)).map fun size => .zero size.1

end Config

end ShardedCache

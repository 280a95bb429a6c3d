import ShardedCache.Config.Environment
import ShardedCache.Config.Validity
import ShardedCache.Toml.Document

/-!
# Where configurations come from

A configuration is the text of a document, read exactly, or it is gathered from the defaults, a
document and the environment, each over the one before. Either way it is used only if it has no
flaw.
-/

namespace ShardedCache.Config

/-- Reads a configuration from the text of a document. -/
def ofToml (text : String) : Except CacheError Config :=
  match (Toml.read? text).bind (ofTable? .exact) with
  | some c => c.validated
  | none => .error (.invalidArgument "bad config")

/-- A place where a document may be. -/
inductive Source where
  | nowhere
  /-- There should be a document, and there is none. -/
  | missing
  | document (text : String)
  deriving DecidableEq, Repr

/-- The settings of a document. Its names may be in letters of either case. -/
def Source.settings? : Source → Option Settings
  | nowhere => some []
  | missing => none
  | document text =>
    (Toml.read? text).map fun found =>
      found.foldl (fun settings (field, v) => Environment.setField settings field v) []

/-- Gathers a configuration from a document and the environment. -/
def load (source : Source) (environment : List (String × String)) : Except CacheError Config :=
  let read := source.settings?.bind fun found =>
    ofTable? .lenient (Environment.apply environment found)
  match read with
  | some c => c.validated
  | none => .error .config

/-- All settings by name. -/
def fields (c : Config) : List (String × ConfigValue) :=
  let size (n : Nat) : ConfigValue := .int n
  [("servers", .list (c.servers.map .text)), ("op_timeout_ms", size c.opTimeout),
    ("connect_timeout_ms", size c.connectTimeout),
    ("max_reconnect_delay_ms", size c.maxReconnectDelay),
    ("read_buffer_size", size c.readBufferSize), ("write_buffer_size", size c.writeBufferSize),
    ("input_queue_capacity", size c.inputQueueCapacity),
    ("write_queue_capacity", size c.writeQueueCapacity), ("optimize", .flag c.optimize),
    ("max_batch_keys", size c.maxBatchKeys), ("max_batch_bytes", size c.maxBatchBytes),
    ("timeout_ratio_window", .flag c.timeoutRatioWindow), ("auth_wait_ms", size c.authWait)]

end ShardedCache.Config

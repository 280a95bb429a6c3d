import ShardedCache.Config.Basic
import ShardedCache.Text.Number

/-!
# Configuration values

Configurations come from sources that only know numbers, texts, lists and tables. A `Reading` says
how single values are taken: `exact` wants every value in its own type, `lenient` turns one into
another where that makes sense. `Config.ofTable?` reads a whole configuration; fields that are not
there keep their defaults and fields it does not know do not matter.
-/

namespace ShardedCache

inductive ConfigValue where
  | flag (b : Bool)
  | int (n : Int)
  | float (x : Float)
  | text (s : String)
  /-- A date or a time of day, which no field wants. -/
  | moment (text : String)
  | list (items : List ConfigValue)
  | table (entries : List (String × ConfigValue))
  deriving Repr, Inhabited

/-- How single values are taken. -/
structure Reading where
  size? : ConfigValue → Option Nat
  flag? : ConfigValue → Option Bool
  text? : ConfigValue → Option String

namespace ConfigValue

def listOf? {α : Type} (item? : ConfigValue → Option α) : ConfigValue → Option (List α)
  | list items => items.mapM item?
  | _ => none

/-- Name and password from a table, or from a list that starts with them. -/
def credentials? (r : Reading) : ConfigValue → Option Credentials
  | table entries => do
    let username ← r.text? (← entries.lookup "username")
    let password ← r.text? (← entries.lookup "password")
    some { username, password }
  | list (name :: password :: _) => do
    some { username := ← r.text? name, password := ← r.text? password }
  | _ => none

end ConfigValue

namespace Config

/-- Changes one field of a configuration. Fields that are not known change nothing. -/
def setField? (r : Reading) (c : Config) (field : String) (v : ConfigValue) : Option Config :=
  match field with
  | "servers" => (v.listOf? r.text?).map ({ c with servers := · })
  | "op_timeout_ms" => (r.size? v).map ({ c with opTimeout := · })
  | "connect_timeout_ms" => (r.size? v).map ({ c with connectTimeout := · })
  | "max_reconnect_delay_ms" => (r.size? v).map ({ c with maxReconnectDelay := · })
  | "read_buffer_size" => (r.size? v).map ({ c with readBufferSize := · })
  | "write_buffer_size" => (r.size? v).map ({ c with writeBufferSize := · })
  | "input_queue_capacity" => (r.size? v).map ({ c with inputQueueCapacity := · })
  | "write_queue_capacity" => (r.size? v).map ({ c with writeQueueCapacity := · })
  | "optimize" => (r.flag? v).map ({ c with optimize := · })
  | "max_batch_keys" => (r.size? v).map ({ c with maxBatchKeys := · })
  | "max_batch_bytes" => (r.size? v).map ({ c with maxBatchBytes := · })
  | "timeout_ratio_window" => (r.flag? v).map ({ c with timeoutRatioWindow := · })
  | "auth" => (v.credentials? r).map ({ c with auth := some · })
  | "auth_wait_ms" => (r.size? v).map ({ c with authWait := · })
  | _ => some c

/-- The defaults with the fields of a table over them. -/
def ofTable? (r : Reading) (entries : List (String × ConfigValue)) : Option Config :=
  entries.foldlM (fun c (field, v) => setField? r c field v) {}

end Config

namespace Reading

/-- Every value in its own type. -/
def exact : Reading where
  size?
    | .int n => if 0 ≤ n then some n.toNat else none
    | _ => none
  flag?
    | .flag b => some b
    | _ => none
  text?
    | .text s => some s
    | _ => none

end Reading

end ShardedCache

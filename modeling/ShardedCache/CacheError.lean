import ShardedCache.Operation.Basic

/-!
# Errors of a call

What a caller learns when a call does not succeed.
-/

namespace ShardedCache

/-- An operation that had not ended when a wait ran out of time. -/
structure Overdue where
  node : String
  operation : String
  phase : Phase
  deriving DecidableEq, Repr

def Overdue.text (o : Overdue) : String :=
  o.operation ++ " [" ++ o.phase.name ++ "] on " ++ o.node

inductive CacheError where
  | timeout (overdue : List Overdue)
  | cancelled (cause : String)
  | protocol (error : ProtocolError)
  | composite (errors : List CacheError)
  /-- Reading or writing failed outside the client. -/
  | io
  /-- A configuration source could not be read. -/
  | config
  | transcode (message : String)
  | invalidArgument (message : String)
  | nodeUnavailable (node : String)
  | queueFull (node : String)
  /-- A sum did not fit into a machine word. The call broke off there, and the caller is told nothing. -/
  | overflow
  deriving Repr, BEq, Inhabited

namespace CacheError

def kind : CacheError → String
  | timeout _ => "Timeout"
  | cancelled _ => "Cancelled"
  | protocol _ => "Protocol"
  | composite _ => "Composite"
  | io => "Io"
  | config => "Config"
  | transcode _ => "Transcode"
  | invalidArgument _ => "InvalidArgument"
  | nodeUnavailable _ => "NodeUnavailable"
  | queueFull _ => "QueueFull"
  | overflow => "panic"

/-- Several texts in one line. -/
def joined (texts : List String) : String := "; ".intercalate texts

def text : CacheError → String
  | timeout overdue =>
    "timed out waiting for " ++ toString overdue.length ++ " operation(s): "
      ++ joined (overdue.map (·.text))
  | cancelled cause => "operation cancelled: " ++ cause
  | protocol error => "protocol error: " ++ error.text
  | composite errors =>
    toString errors.length ++ " operations failed: " ++ joined (errors.map text)
  | io => "I/O error"
  | config => "configuration error"
  | transcode message => "transcoding error: " ++ message
  | invalidArgument message => "invalid argument: " ++ message
  | nodeUnavailable node => "node unavailable: " ++ node
  | queueFull node => "input queue full on " ++ node
  | overflow => "attempt to add with overflow"

def isTimeout : CacheError → Bool
  | timeout _ => true
  | _ => false

/-- Folds several failures into one; a lone failure stays as it is. -/
def ofList? : List CacheError → Option CacheError
  | [] => none
  | [e] => some e
  | errors => some (composite errors)

end CacheError

end ShardedCache

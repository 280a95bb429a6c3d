/-!
# Protocol errors

The error of a single operation, told apart by who caused it.
-/

namespace ShardedCache

inductive Origin where
  /-- A response that does not fit the request. -/
  | general
  /-- The server refused the request. -/
  | client
  /-- The server failed. -/
  | server
  deriving DecidableEq, Repr

def Origin.name : Origin → String
  | general => "General"
  | client => "Client"
  | server => "Server"

def Origin.ofName? (name : String) : Option Origin :=
  [Origin.general, .client, .server].find? (·.name == name)

structure ProtocolError where
  origin : Origin
  message : String
  deriving DecidableEq, Repr

def ProtocolError.text (e : ProtocolError) : String := e.origin.name ++ " error: " ++ e.message

end ShardedCache

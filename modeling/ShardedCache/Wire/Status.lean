import ShardedCache.Bytes
import ShardedCache.Text.Utf8

/-!
# Outcomes of a request

A `StatusCode` says how a request ended in words common to all commands; a `Status` adds the
message. Responses carry the outcome as a 16-bit number, which `StatusCode.ofWire` reads.
-/

namespace ShardedCache.Wire

inductive StatusCode where
  | success | notFound | notStored | alreadyExists | typeMismatch | error | server | client | cancelled
  | undefined
  deriving DecidableEq, Repr

/-! ## Numbers on the wire -/

def noError : UInt16 := 0x0000
def keyNotFound : UInt16 := 0x0001
def keyExists : UInt16 := 0x0002
def valueTooLarge : UInt16 := 0x0003
def invalidArguments : UInt16 := 0x0004
def itemNotStored : UInt16 := 0x0005
def nonNumeric : UInt16 := 0x0006
def authError : UInt16 := 0x0020
def authContinue : UInt16 := 0x0021
def unknownCommand : UInt16 := 0x0081
def outOfMemory : UInt16 := 0x0082
def internalError : UInt16 := 0x0084
def busy : UInt16 := 0x0085

/-- Whether a response status asks for the connection to be dropped. A value that is too large is
refused on its own and leaves the connection usable. -/
def isConnectionFatal (status : UInt16) : Bool := status == invalidArguments

namespace StatusCode

def name : StatusCode → String
  | success => "SUCCESS"
  | notFound => "NOT_FOUND"
  | notStored => "NOT_STORED"
  | alreadyExists => "EXISTS"
  | typeMismatch => "TYPE_MISMATCH"
  | error => "ERROR"
  | server => "SERVER_ERROR"
  | client => "CLIENT_ERROR"
  | cancelled => "CANCELLED"
  | undefined => "UNDEFINED"

def all : List StatusCode :=
  [success, notFound, notStored, alreadyExists, typeMismatch, error, server, client, cancelled,
    undefined]

def ofName? (name : String) : Option StatusCode := all.find? (·.name == name)

/-- The outcome that a response line of the text protocol states. -/
def ofLine (line : String) : StatusCode :=
  match line with
  | "OK" | "END" | "STORED" | "DELETED" => success
  | "NOT_STORED" => notStored
  | "EXISTS" => alreadyExists
  | "NOT_FOUND" => notFound
  | "TYPE_MISMATCH" => typeMismatch
  | "ERROR" => error
  | "SERVER_ERROR" => server
  | "CLIENT_ERROR" => client
  | _ => undefined

def ofWire (status : UInt16) : StatusCode :=
  if status = noError then success
  else if status = keyNotFound then notFound
  else if status = keyExists then alreadyExists
  else if status = valueTooLarge ∨ status = invalidArguments then client
  else if status = itemNotStored then notStored
  else if status = nonNumeric then typeMismatch
  else if status = authError ∨ status = authContinue ∨ status = unknownCommand then error
  else if status = outOfMemory ∨ status = internalError ∨ status = busy then server
  else undefined

def toWire : StatusCode → UInt16
  | success => noError
  | notFound => keyNotFound
  | alreadyExists => keyExists
  | notStored => itemNotStored
  | typeMismatch => nonNumeric
  | client => invalidArguments
  | server => internalError
  | error | cancelled | undefined => unknownCommand

end StatusCode

/-- How a request ended. -/
structure Status where
  code : StatusCode
  message : String
  deriving DecidableEq, Repr

namespace Status

def success : Status := ⟨.success, "OK"⟩

/-- A request that was given up for the reason `cause`. -/
def cancelled (cause : String) : Status := ⟨.cancelled, cause⟩

def isSuccess (s : Status) : Bool := s.code == .success

/-- The outcome that a response states. The body of an unsuccessful response is the message,
unless it is empty. -/
def ofWire (status : UInt16) (body : Bytes) : Status :=
  let code := StatusCode.ofWire status
  if body.isEmpty || code == .success then ⟨code, code.name⟩ else ⟨code, Text.Utf8.lossy body⟩

def text (s : Status) : String := s.code.name ++ " (" ++ s.message ++ ")"

end Status

end ShardedCache.Wire

import ShardedCache.CacheError
import ShardedCache.Json.Reader

/-!
# Transcoders

How the values of a caller become stored values and are read back: bytes as they are, text as
UTF-8, and JSON under a flag that marks it.
-/

namespace ShardedCache

structure Transcoder (α : Type) where
  encode : α → StoredValue
  decode : StoredValue → Except CacheError α

namespace Transcoder

/-- The flag of a value that is stored as JSON. -/
def jsonFlag : UInt32 := 0x100

def bytes : Transcoder Bytes where
  encode data := { flags := 0, data }
  decode value := .ok value.data

def text : Transcoder String where
  encode s := { flags := 0, data := Text.Utf8.encode s }
  decode value :=
    match Text.Utf8.decode value.data with
    | .ok s => .ok s
    | .error fault => .error (.transcode ("value is not UTF-8: " ++ fault.message))

/-- The message about a value that is flagged as JSON and is none. -/
def malformedJson : CacheError := .transcode "Failed to deserialize value"

/-- JSON values of a type that is written as JSON and read from text. -/
def ofJson {α : Type} (write : α → List Char) (read? : Bytes → Option α) : Transcoder α where
  encode a := { flags := jsonFlag, data := Text.Utf8.encode (String.ofList (write a)) }
  decode value :=
    if value.flags &&& jsonFlag = 0 then
      .error (.transcode ("value flags 0x" ++ Text.hexDigits value.flags.toNat ++ " are not JSON"))
    else
      match read? value.data with
      | some a => .ok a
      | none => .error malformedJson

/-- Any JSON value. -/
def json : Transcoder Json := ofJson Json.render Json.read?

/-- The transcoder for values that are shown in another form. -/
def map {α β : Type} (t : Transcoder α) (view : α → β) (back : β → α) : Transcoder β where
  encode b := t.encode (back b)
  decode value := (t.decode value).map view

end Transcoder

/-- A record that is stored as JSON. -/
structure Profile where
  name : String
  visits : UInt32
  deriving DecidableEq, Repr

namespace Profile

open Json (Token)

def render (p : Profile) : List Char :=
  "\x7b\"name\":".toList ++ Json.renderString p.name ++ ",\"visits\":".toList
    ++ (toString p.visits.toNat).toList ++ ['\x7d']

def visits? (n : Int) : Option UInt32 :=
  if 0 ≤ n ∧ n < UInt32.size then some (.ofNat n.toNat) else none

/-- Reads the members of the record after its opening brace or a comma. Each of the two must occur
once; the values of other members are passed over. -/
def members? (name : Option String) (visits : Option UInt32) : (fuel : Nat) → List Token →
    Option Profile
  | 0, _ => none
  | fuel + 1, .string (some member) :: .colon :: tokens => do
    let (name, visits, tokens) ← match member, name, visits, tokens with
      | "name", none, visits, .string (some s) :: tokens => some (some s, visits, tokens)
      | "visits", name, none, .int n :: tokens => (visits? n).map fun v => (name, some v, tokens)
      | "name", _, _, _ | "visits", _, _, _ => none
      | _, name, visits, tokens =>
        (Json.ofTokens false tokens).map fun (_, tokens) => (name, visits, tokens)
    match tokens with
    | .comma :: tokens => members? name visits fuel tokens
    | [.closeObject] => some { name := ← name, visits := ← visits }
    | _ => none
  | _, _ => none

/-- Reads the record from an object, or from an array of its two values. -/
def read? (src : Bytes) : Option Profile := do
  match ← Json.tokens? src with
  | [.openArray, .string (some name), .comma, .int n, .closeArray] =>
    some { name, visits := ← visits? n }
  | .openObject :: tokens => members? none none tokens.length tokens
  | _ => none

end Profile

/-- Profiles as JSON. -/
def Transcoder.profile : Transcoder Profile := ofJson Profile.render Profile.read?

end ShardedCache

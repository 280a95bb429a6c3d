import ShardedCache.Command.Basic
import ShardedCache.ProtocolError
import ShardedCache.SortedGet.SliceMessage
import ShardedCache.Text.Quoted

/-!
# Replies

What a response says about the request it answers. The tag and the status are checked the same way
for every command; only the payload of a successful response depends on the command.
-/

namespace ShardedCache

open Wire (Frame Status)
open SortedGet (MessagePart ShardSlice)

/-- What a successful response brings besides its status. -/
inductive Payload where
  | value (key : String) (value : StoredValue) (cas : UInt64)
  | counter (n : UInt64)
  | version (text : String)
  | sortRange (slice : ShardSlice StoredValue)
  deriving DecidableEq, Repr

/-- How a response can fail to fit the request. -/
inductive ReplyFlaw where
  | otherTag (found expected : UInt32)
  | extrasLength (key : String) (length : Nat)
  | otherKey (found : Bytes) (expected : String)
  | counterLength (key : String) (length : Nat)
  | versionText (fault : Text.Utf8.Fault)
  | slice (part : MessagePart)
  deriving DecidableEq, Repr

def ReplyFlaw.message : ReplyFlaw → String
  | otherTag found expected =>
    "response opaque " ++ toString found.toNat ++ " does not match request opaque "
      ++ toString expected.toNat
  | extrasLength key length =>
    "get response for " ++ key ++ " has " ++ toString length ++ " extras bytes, expected 4"
  | otherKey found expected =>
    "get response key " ++ Text.quoted (Text.Utf8.lossy found) ++ " does not match " ++ expected
  | counterLength key length =>
    "counter response for " ++ key ++ " has " ++ toString length ++ " bytes, expected 8"
  | versionText fault => "version is not UTF-8: " ++ fault.message
  | slice part => part.message

/-- What a response came to. -/
structure Reply where
  status : Status
  payload : Option Payload
  deriving DecidableEq, Repr

namespace Command

/-- The payload of a successful response. -/
def payload (c : Command) (f : Frame) : Except ReplyFlaw (Option Payload) :=
  match c with
  | get key _ =>
    if f.extras.length ≠ 4 then .error (.extrasLength key f.extras.length)
    else if f.key ≠ [] ∧ f.key ≠ Text.Utf8.encode key then .error (.otherKey f.key key)
    else
      let flags := UInt32.ofNat (ofBigEndian f.extras)
      .ok (some (.value key { flags, data := f.value } f.header.cas))
  | counter r =>
    if f.value.length = 8 then .ok (some (.counter (.ofNat (ofBigEndian f.value))))
    else .error (.counterLength r.key f.value.length)
  | version =>
    match Text.Utf8.decode f.value with
    | .ok text => .ok (some (.version text))
    | .error fault => .error (.versionText fault)
  | sortRange q =>
    match ShardSlice.decode q.range.kind f.value with
    | .ok slice => .ok (some (.sortRange slice))
    | .error part => .error (.slice part)
  | store _ | delete _ | flush _ | noop | sasl .. => .ok none

/-- Reads the response to a request that carried `tag`. A status that blames the request or the
server is an error; any other refusal is an ordinary outcome. -/
def interpret (c : Command) (tag : UInt32) (f : Frame) : Except ProtocolError Reply :=
  if f.tag ≠ tag then .error ⟨.general, (ReplyFlaw.otherTag f.tag tag).message⟩
  else if f.status ≠ Wire.noError then
    let status := Status.ofWire f.status f.value
    match status.code with
    | .client => .error ⟨.client, status.message⟩
    | .server => .error ⟨.server, status.message⟩
    | _ => .ok { status, payload := none }
  else
    match c.payload f with
    | .ok payload => .ok { status := .success, payload }
    | .error flaw => .error ⟨.general, flaw.message⟩

end Command

end ShardedCache

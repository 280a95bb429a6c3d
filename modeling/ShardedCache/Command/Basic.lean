import ShardedCache.Command.Kind
import ShardedCache.SortedGet.RangeQuery
import ShardedCache.Wire.Frame

/-!
# Commands

A `Command` is what a single request asks of a server. It knows its kind, the keys it touches, the
frame that carries it, and the quiet frame that stands for it inside a batch.
-/

namespace ShardedCache

open Wire (Frame Opcode)
open SortedGet (RangeQuery)

structure StoreRequest where
  kind : StoreKind
  key : String
  flags : UInt32
  exptime : UInt32
  data : Bytes
  /-- The version of the item that may be replaced; any version when zero. -/
  cas : UInt64
  deriving DecidableEq, Repr

inductive Direction where
  | up | down
  deriving DecidableEq, Repr

structure CounterRequest where
  direction : Direction
  key : String
  amount : UInt64
  /-- The value of a counter that does not exist yet; without one it is not created. -/
  initial : Option UInt64
  exptime : UInt32
  deriving DecidableEq, Repr

inductive Command where
  | get (key : String) (withCas : Bool)
  | store (request : StoreRequest)
  | delete (key : String)
  | counter (request : CounterRequest)
  | flush (delay : UInt32)
  | noop
  | version
  | sasl (mechanism : String) (payload : Bytes)
  | sortRange (query : RangeQuery)
  deriving DecidableEq, Repr

/-- The expiry that forbids creating a counter. -/
def noAutoCreate : UInt32 := 0xffffffff

namespace StoreRequest

def opcode (r : StoreRequest) : Opcode :=
  match r.kind with
  | .set => .set
  | .add => .add
  | .replace => .replace
  | .append => .append
  | .prepend => .prepend

def extras (r : StoreRequest) : Bytes :=
  if r.kind.isExtension then [] else bigEndian 4 r.flags.toNat ++ bigEndian 4 r.exptime.toNat

def frame (r : StoreRequest) (opcode : Opcode) (tag : UInt32) : Frame :=
  .request opcode r.extras (Text.Utf8.encode r.key) r.data tag r.cas

def quietFrame? (r : StoreRequest) (tag : UInt32) : Option Frame :=
  if r.kind.isExtension then none else r.opcode.quiet?.map (r.frame · tag)

end StoreRequest

namespace CounterRequest

def opcode (r : CounterRequest) : Opcode :=
  match r.direction with
  | .up => .increment
  | .down => .decrement

def extras (r : CounterRequest) : Bytes :=
  let exptime := if r.initial.isSome then r.exptime else noAutoCreate
  bigEndian 8 r.amount.toNat ++ bigEndian 8 (r.initial.getD 0).toNat ++ bigEndian 4 exptime.toNat

end CounterRequest

namespace Command

/-- Authentication by name and password. -/
def saslPlain (username password : String) : Command :=
  .sasl "PLAIN" (0 :: Text.Utf8.encode username ++ 0 :: Text.Utf8.encode password)

def kind : Command → CommandKind
  | get _ withCas => if withCas then .gets else .get
  | store r => if r.cas = 0 then .store r.kind else .cas
  | delete _ => .delete
  | counter r => match r.direction with
    | .up => .incr
    | .down => .decr
  | flush _ => .flush
  | noop => .noop
  | version => .version
  | sasl .. => .saslAuth
  | sortRange _ => .sortRange

/-- What the text of an operation says about its command, after the kind and the tag. -/
def details : Command → String
  | get key _ | delete key => ", key=" ++ key
  | store r => ", key=" ++ r.key ++ ", " ++ toString r.data.length ++ " bytes"
  | counter r => ", key=" ++ r.key ++ ", by=" ++ toString r.amount.toNat
  | flush _ | noop | version => ""
  | sasl mechanism _ => ", mech=" ++ mechanism
  | sortRange q =>
    ", " ++ toString q.keys.length ++ " keys, count=" ++ toString q.count.toNat

/-- The keys that the command touches. -/
def keys : Command → List String
  | get key _ | delete key => [key]
  | store r => [r.key]
  | counter r => [r.key]
  | flush _ | noop | version | sasl .. => []
  | sortRange q => q.keys

/-- The batches that the command may join. A get that asks for the version of the item stays
alone. -/
def family? : Command → Option BatchFamily
  | get _ false => some .get
  | store r => if r.kind.isExtension then none else some .store
  | _ => none

/-- The frame that carries the command. Reads ask for the key to be echoed. -/
def request (c : Command) (tag : UInt32) : Frame :=
  match c with
  | get key _ => .request .getK [] (Text.Utf8.encode key) [] tag 0
  | store r => r.frame r.opcode tag
  | delete key => .request .delete [] (Text.Utf8.encode key) [] tag 0
  | counter r => .request r.opcode r.extras (Text.Utf8.encode r.key) [] tag 0
  | flush delay => .request .flush (bigEndian 4 delay.toNat) [] [] tag 0
  | noop => .request .noOp [] [] [] tag 0
  | version => .request .version [] [] [] tag 0
  | sasl mechanism payload =>
    .request .saslAuth [] (Text.Utf8.encode mechanism) payload tag 0
  | sortRange q => .request .sortRange q.extras [] q.value tag 0

/-- The frame that stands for the command inside a batch: the server answers it only when a get
hits or a store fails. -/
def quietRequest? (c : Command) (tag : UInt32) : Option Frame :=
  match c with
  | get key _ => some (.request .getKQ [] (Text.Utf8.encode key) [] tag 0)
  | store r => r.quietFrame? tag
  | _ => none

end Command

end ShardedCache

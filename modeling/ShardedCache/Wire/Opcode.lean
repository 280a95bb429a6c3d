/-!
# Request opcodes

The commands of the binary protocol and the byte that stands for each. `quiet` is the silent twin
of a command, whose ordinary answer the server leaves out, and `sortRange`, one shard's part of a
sorted multi-get, lives in the vendor range.
-/

namespace ShardedCache.Wire

inductive Opcode where
  | get | set | add | replace | delete | increment | decrement | flush | getQ | noOp | version
  | getK | getKQ | append | prepend | setQ | addQ | replaceQ | saslListMechs | saslAuth | saslStep
  | sortRange
  deriving DecidableEq, Repr

namespace Opcode

def all : List Opcode :=
  [get, set, add, replace, delete, increment, decrement, flush, getQ, noOp, version, getK, getKQ,
    append, prepend, setQ, addQ, replaceQ, saslListMechs, saslAuth, saslStep, sortRange]

def toByte : Opcode → UInt8
  | get => 0x00
  | set => 0x01
  | add => 0x02
  | replace => 0x03
  | delete => 0x04
  | increment => 0x05
  | decrement => 0x06
  | flush => 0x08
  | getQ => 0x09
  | noOp => 0x0a
  | version => 0x0b
  | getK => 0x0c
  | getKQ => 0x0d
  | append => 0x0e
  | prepend => 0x0f
  | setQ => 0x11
  | addQ => 0x12
  | replaceQ => 0x13
  | saslListMechs => 0x20
  | saslAuth => 0x21
  | saslStep => 0x22
  | sortRange => 0xd0

def ofByte? (b : UInt8) : Option Opcode := all.find? (·.toByte == b)

def name : Opcode → String
  | get => "Get"
  | set => "Set"
  | add => "Add"
  | replace => "Replace"
  | delete => "Delete"
  | increment => "Increment"
  | decrement => "Decrement"
  | flush => "Flush"
  | getQ => "GetQ"
  | noOp => "NoOp"
  | version => "Version"
  | getK => "GetK"
  | getKQ => "GetKQ"
  | append => "Append"
  | prepend => "Prepend"
  | setQ => "SetQ"
  | addQ => "AddQ"
  | replaceQ => "ReplaceQ"
  | saslListMechs => "SaslListMechs"
  | saslAuth => "SaslAuth"
  | saslStep => "SaslStep"
  | sortRange => "SortRange"

/-- The silent form of a command, if it has one; a silent command is its own. -/
def quiet? : Opcode → Option Opcode
  | get | getK | getQ | getKQ => some getKQ
  | set | setQ => some setQ
  | add | addQ => some addQ
  | replace | replaceQ => some replaceQ
  | _ => none

def isQuiet : Opcode → Bool
  | getQ | getKQ | setQ | addQ | replaceQ => true
  | _ => false

theorem ofByte?_toByte (o : Opcode) : ofByte? o.toByte = some o := by cases o <;> rfl

end Opcode

end ShardedCache.Wire

/-!
# Kinds of commands

What a command does, as far as messages, metrics and the resending of requests need to know.
-/

namespace ShardedCache

inductive StoreKind where
  | set | add | replace | append | prepend
  deriving DecidableEq, Repr

namespace StoreKind

def name : StoreKind → String
  | set => "Set"
  | add => "Add"
  | replace => "Replace"
  | append => "Append"
  | prepend => "Prepend"

/-- Appending and prepending keep the flags and the expiry of the item, so they send neither, and
they have no quiet form. -/
def isExtension : StoreKind → Bool
  | append | prepend => true
  | set | add | replace => false

end StoreKind

/-- Commands that can share one batch. -/
inductive BatchFamily where
  | get | store
  deriving DecidableEq, Repr

def BatchFamily.name : BatchFamily → String
  | get => "Get"
  | store => "Store"

inductive CommandKind where
  | get | gets
  | store (kind : StoreKind)
  | cas | delete | incr | decr | flush | noop | version | saslAuth | sortRange
  | batch (family : BatchFamily)
  deriving DecidableEq, Repr

namespace CommandKind

def name : CommandKind → String
  | get => "get"
  | gets => "gets"
  | store .set => "set"
  | store .add => "add"
  | store .replace => "replace"
  | store .append => "append"
  | store .prepend => "prepend"
  | cas => "cas"
  | delete => "delete"
  | incr => "incr"
  | decr => "decr"
  | flush => "flush"
  | noop => "noop"
  | version => "version"
  | saslAuth => "sasl-auth"
  | sortRange => "sort-range"
  | batch .get => "batch-get"
  | batch .store => "batch-store"

def all : List CommandKind :=
  [get, gets, store .set, store .add, store .replace, store .append, store .prepend, cas, delete,
    incr, decr, flush, noop, version, saslAuth, sortRange, batch .get, batch .store]

def ofName? (name : String) : Option CommandKind := all.find? (·.name == name)

def isRead : CommandKind → Bool
  | get | gets | sortRange | version | batch .get => true
  | _ => false

def isWrite : CommandKind → Bool
  | store _ | cas | delete | incr | decr | flush | batch .store => true
  | _ => false

/-- Whether sending the command once more, after a fault, leaves the same outcome. -/
def isIdempotent : CommandKind → Bool
  | get | gets | sortRange | version | noop | saslAuth | store .set | store .replace
  | batch .get => true
  | _ => false

end CommandKind

end ShardedCache

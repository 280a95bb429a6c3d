import ShardedCache.CommandLine.Grammar

/-!
# The arguments of the client

The client reads, stores or removes a value, shows the versions of its servers, or runs a sorted
multi-get.
-/

namespace ShardedCache.CommandLine

/-- A sorted multi-get as the user wrote it. -/
structure SortedGetTask where
  keys : List String
  start : String
  stop : String
  count : UInt64
  /-- Page past this many elements. -/
  offset : Option UInt64
  unique : Bool
  deriving DecidableEq, Repr

inductive Task where
  | get (key : String)
  | set (key value : String) (lifetime : UInt32)
  | delete (key : String)
  | version
  | sortedGet (query : SortedGetTask)
  deriving DecidableEq, Repr

structure Arguments where
  task : Task
  /-- The file with the configuration. -/
  config : Option String
  /-- Servers in place of those of the configuration. -/
  servers : List String
  /-- Show the metrics at the end. -/
  metrics : Bool
  deriving DecidableEq, Repr

/-! ## The grammar -/

def helpOption : OptionRule := { name := "help", letter := some 'h', form := .help }

def versionOption : OptionRule := { name := "version", letter := some 'V', form := .version }

/-- The options that may stand in front of the command and after it. -/
def commonOptions : List OptionRule :=
  [{ name := "config", letter := some 'c', form := .single .path },
    { name := "servers", form := .list },
    { name := "log-dir", form := .single .path },
    { name := "log-level", form := .single .text },
    { name := "no-color", form := .switch },
    { name := "metrics", form := .switch },
    helpOption]

def sortedGetOptions : List OptionRule :=
  [{ name := "keys", form := .list, isRequired := true },
    { name := "from", form := .single .text, isRequired := true },
    { name := "to", form := .single .text, isRequired := true },
    { name := "count", form := .single .size },
    { name := "offset", form := .single .size },
    { name := "unique", form := .switch }]

def grammar : Grammar where
  options := versionOption :: commonOptions
  commands :=
    [{ name := "get", options := commonOptions, words := ["key"] },
      { name := "set", words := ["key", "value"]
        options := { name := "ttl", form := .single .word } :: commonOptions },
      { name := "delete", options := commonOptions, words := ["key"] },
      { name := "version", options := commonOptions },
      { name := "smget", options := sortedGetOptions ++ commonOptions }]

/-! ## Reading -/

/-- The number of elements that a sorted multi-get is asked for unless told otherwise. -/
def defaultCount : UInt64 := 50

/-- The number that an option has been given. -/
def size? (given : Given) (name : String) : Option UInt64 :=
  (given.value? name).bind fun text => (Text.readU64 text).toOption

def sortedGetTask (given : Given) : SortedGetTask where
  keys := given.values "keys"
  start := (given.value? "from").getD ""
  stop := (given.value? "to").getD ""
  count := (size? given "count").getD defaultCount
  offset := size? given "offset"
  unique := given.has "unique"

/-- The task that a command with what it was given stands for. -/
def taskOf (command : String) (given : Given) : Task :=
  match command, given.words with
  | "get", [key] => .get key
  | "set", [key, value] =>
    let lifetime := ((given.value? "ttl").bind Text.readInt64?).getD 0
    .set key value (.ofNat lifetime.toNat)
  | "delete", [key] => .delete key
  | "smget", _ => .sortedGet (sortedGetTask given)
  | _, _ => .version

/-- Reads the arguments of the client. Common options after the command go before those in front
of it. -/
def Arguments.read (arguments : List String) : Except UsageError Arguments :=
  (grammar.read {} arguments).map fun request =>
    let servers := request.given.values "servers"
    { task := taskOf request.command request.given
      config := (request.given.value? "config").or (request.program.value? "config")
      servers := if servers.isEmpty then request.program.values "servers" else servers
      metrics := request.given.has "metrics" || request.program.has "metrics" }

end ShardedCache.CommandLine

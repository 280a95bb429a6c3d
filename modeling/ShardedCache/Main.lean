import ShardedCache.CommandLine.Run
import ShardedCache.Config.Source
import ShardedCache.Metrics.Exposition
import ShardedCache.Network

/-!
# The program

Reads the arguments and the configuration, runs one task against the servers and shows what it
wrote.
-/

namespace ShardedCache.CommandLine

/-- An error with its causes, as it is shown. -/
def errorText (messages : List String) : String :=
  match messages with
  | [] => ""
  | [message] => "Error: " ++ message
  | [message, cause] => "Error: " ++ message ++ "\n\nCaused by:\n    " ++ cause
  | message :: causes =>
    let numbered := causes.zipIdx.map fun (cause, i) => "    " ++ toString i ++ ": " ++ cause
    "Error: " ++ message ++ "\n\nCaused by:\n" ++ "\n".intercalate numbered

/-- Shows an error and gives the exit code that goes with it. -/
def failWith (messages : List String) : IO UInt32 := do
  IO.eprintln (errorText messages)
  return 1

/-- The commands and options, in short. -/
def usageText : String :=
  let forms := grammar.commands.map fun command =>
    " ".intercalate ("  pipecache" :: command.name :: command.words.map fun w => "<" ++ w ++ ">")
  "Usage:\n" ++ lines forms

def showUsage (error : UsageError) : IO UInt32 := do
  match error with
  | .help =>
    IO.print usageText
    return 0
  | .version =>
    IO.println ("pipecache " ++ programVersion)
    return 0
  | error =>
    IO.eprintln ("error: " ++ error.name ++ "\n" ++ usageText)
    return 2

/-- The document with the configuration, if there should be one. -/
def readSource (path : Option String) : IO Config.Source := do
  match path with
  | none => return .nowhere
  | some path =>
    try
      return .document (← IO.FS.readFile path)
    catch _ => return .missing

/-- Runs a task on a client whose nodes are connected meanwhile. -/
def runTask (client : Client) (task : Task) (c : Cluster) : IO (Cluster × Outcome) := do
  let start ← IO.monoMsNow
  let links := client.nodes.map fun node => ({ node } : Link)
  let entered (c : Cluster) : Bool := client.nodes.all c.isAuthenticated
  let (c, links) ← (client.drive start client.config.authWait entered links c).block
  match task.start client c with
  | (c, .error messages) => return (c, { written := task.heading, failure := some messages })
  | (c, .ok started) =>
    let deadline := c.now + client.config.opTimeout
    let (c, _) ← (client.drive start deadline (started.isDone ·) links c).block
    match started.finish c with
    | (c, .ok texts) => return (c, { written := task.heading ++ lines texts })
    | (c, .error e) => return (c, { written := task.heading, failure := some e.messages })

/-- Runs the task of the arguments against the servers of a configuration. -/
def Arguments.run (arguments : Arguments) (config : Config) : IO UInt32 := do
  let config := if arguments.servers.isEmpty then config
    else { config with servers := arguments.servers }
  match Client.connect config {} with
  | (_, .error e) => failWith e.messages
  | (c, .ok client) =>
    let (c, outcome) ← runTask client arguments.task c
    IO.print outcome.written
    let c := client.shutDown c
    if arguments.metrics then IO.print (lines c.engine.metrics.lines)
    match outcome.failure with
    | some messages => failWith messages
    | none => return 0

end ShardedCache.CommandLine

open ShardedCache ShardedCache.CommandLine in
def main (arguments : List String) : IO UInt32 := do
  match Arguments.read arguments with
  | .error error => showUsage error
  | .ok arguments =>
    let environment ← Std.Internal.UV.System.osEnviron
    let path := arguments.config.or (environment.toList.lookup "PIPECACHE_CONFIG")
    match Config.load (← readSource path) environment.toList with
    | .error e => failWith ("loading configuration" :: e.messages)
    | .ok config => arguments.run config

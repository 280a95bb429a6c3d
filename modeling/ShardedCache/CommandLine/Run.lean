import ShardedCache.Client.FanOut
import ShardedCache.Client.SortedGet
import ShardedCache.CommandLine.Arguments
import ShardedCache.OrderKey.Reader

/-!
# Running a task

A task is started, which puts its operations into the queues, and finished, which waits for them
and writes what the user gets to see. What was written before a failure stays written.
-/

namespace ShardedCache

/-- The error, and after it the one that caused it where there is one. A task that broke off has no
message. -/
def CacheError.messages (e : CacheError) : List String :=
  match e with
  | .protocol cause => [e.text, cause.text]
  | .overflow => []
  | e => [e.text]

namespace CommandLine

def programVersion : String := "0.1.0"

/-- A task whose operations have been queued. -/
inductive Started where
  | get (future : OperationFuture (Option String))
  | set (future : OperationFuture Bool)
  | delete (future : OperationFuture Bool)
  | version (since : Nat) (queries : List Client.VersionQuery)
  | sortedGet (future : SortedGetFuture String)

/-- What a task has written, and the messages of its failure: none if it broke off. -/
structure Outcome where
  written : String
  failure : Option (List String) := none
  deriving DecidableEq, Repr

/-- Lines, each with its end. -/
def lines (texts : List String) : String := String.join (texts.map (· ++ "\n"))

/-! ## Starting -/

/-- What is written before anything is waited for. -/
def Task.heading : Task → String
  | .version => lines ["pipecache " ++ programVersion]
  | _ => ""

/-- The range that a sorted multi-get asks for. -/
def SortedGetTask.range (q : SortedGetTask) : Except OrderKeyFault KeyRange := do
  return { start := ← OrderKey.ofText q.start, stop := ← OrderKey.ofText q.stop }

def SortedGetTask.begin (q : SortedGetTask) (client : Client) (range : KeyRange) :
    Call (SortedGetFuture String) :=
  match q.offset with
  | some offset => client.sortedGetPage q.keys range offset q.count q.unique .text
  | none => client.sortedGet q.keys range q.count q.unique .text

/-- Turns the failure of a call into its messages. -/
def withMessages {α β : Type} (call : Call α) (f : α → β) (c : Cluster) :
    Cluster × Except (List String) β :=
  match call c with
  | (c, .ok a) => (c, .ok (f a))
  | (c, .error e) => (c, .error e.messages)

/-- Queues the operations of a task. -/
def Task.start (task : Task) (client : Client) (c : Cluster) :
    Cluster × Except (List String) Started :=
  match task with
  | .get key => withMessages (client.get key .text) .get c
  | .set key value lifetime =>
    withMessages (client.store .set key lifetime (Transcoder.text.encode value)) .set c
  | .delete key => withMessages (client.delete key) .delete c
  | .version => withMessages (client.askVersions [] client.nodes) (.version c.now) c
  | .sortedGet query =>
    match query.range with
    | .error fault => (c, .error fault.messages)
    | .ok range => withMessages (query.begin client range) .sortedGet c

/-! ## Finishing -/

/-- Whether everything that the task waits for has been reported. -/
def Started.isDone (c : Cluster) : Started → Bool
  | .get future => future.isDone c
  | .set future | .delete future => future.isDone c
  | .version _ queries => queries.all (·.future.isDone c)
  | .sortedGet future => future.isDone c

/-- The versions of the nodes by name, in order. -/
def versionLines (versions : KeyMap String) : List String :=
  let sorted := versions.mergeSort fun a b => (compare a.1 b.1).isLE
  sorted.map fun (node, version) => "  " ++ node ++ "  " ++ version

def responseLines (r : SortedGetResponse String) : List String :=
  ["status: " ++ r.verdict.name]
    ++ r.elements.map (fun e => e.orderKey.text ++ "\t" ++ e.key ++ "\t" ++ e.value)
    ++ r.missed.map (fun (key, status) => "missed: " ++ key ++ " (" ++ status.text ++ ")")
    ++ r.trimmed.map (fun mark => "trimmed: " ++ mark.key ++ " at " ++ mark.orderKey.text)

/-- What a store has come to. -/
def storeLine (stored : Bool) (status : Option Wire.Status) : String :=
  if stored then "STORED" else "NOT STORED (" ++ (status.map (·.text)).getD "" ++ ")"

/-- Waits for a task and gives the lines that it writes. -/
def Started.finish (c : Cluster) : Started → Cluster × Except CacheError (List String)
  | .get future =>
    let (c, _, result) := future.get c future.timeout
    (c, result.map fun value => [value.getD "(not found)"])
  | .set future =>
    let (c, future, result) := future.get c future.timeout
    (c, result.map fun stored => [storeLine stored (future.status? c)])
  | .delete future =>
    let (c, _, result) := future.get c future.timeout
    (c, result.map fun deleted => [if deleted then "DELETED" else "NOT FOUND"])
  | .version since queries =>
    let (c, result) := Client.awaitVersions since queries [] c
    (c, result.map versionLines)
  | .sortedGet future =>
    let (c, _, result) := future.get c future.timeout
    (c, result.map responseLines)

/-- Starts a task and waits for it. -/
def Task.run (task : Task) (client : Client) (c : Cluster) : Cluster × Outcome :=
  match task.start client c with
  | (c, .error messages) => (c, { written := task.heading, failure := some messages })
  | (c, .ok started) =>
    match started.finish c with
    | (c, .ok texts) => (c, { written := task.heading ++ lines texts })
    | (c, .error e) => (c, { written := task.heading, failure := some e.messages })

end CommandLine

end ShardedCache

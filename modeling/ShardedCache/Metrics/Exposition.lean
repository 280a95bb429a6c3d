import ShardedCache.Metrics
import ShardedCache.Text.Shortest

/-!
# Metrics as text

The exposition format: for each family a line of help, a line that names its type, and a line for
each series. Families are in the order of their names and series in that of their labels; a family
without series is left out.
-/

namespace ShardedCache

namespace Exposition

/-- A label value, with backslashes, quotes and line ends escaped. -/
def escape (s : String) : String :=
  String.join (s.toList.map fun
    | '\\' => "\\\\"
    | '"' => "\\\""
    | '\n' => "\\n"
    | c => c.toString)

/-- The labels of a series, by name and value. -/
abbrev Labels := List (String × String)

def labelText (labels : Labels) : String :=
  if labels.isEmpty then ""
  else
    let texts := labels.map fun (name, value) => name ++ "=\"" ++ escape value ++ "\""
    "\x7b" ++ ",".intercalate texts ++ "\x7d"

def line (name : String) (labels : Labels) (value : Float) : String :=
  name ++ labelText labels ++ " " ++ Text.Shortest.text value

/-- A count, which is kept in 64 bits. -/
def ofCount (n : Nat) : Float := Float.ofNat (n % UInt64.size)

/-- The lines of a family. -/
def family (name help kind : String) (series : List String) : List String :=
  if series.isEmpty then []
  else ["# HELP " ++ name ++ " " ++ help, "# TYPE " ++ name ++ " " ++ kind] ++ series

/-- Counters in the order of their label values. -/
def counters {Label : Type} (name help : String) (values : Label → List String)
    (labels : List String) (series : Counters Label) : List String :=
  let sorted := series.mergeSort fun a b => (compare (values a.1) (values b.1)).isLE
  family name help "counter"
    (sorted.map fun (label, n) => line name (labels.zip (values label)) (ofCount n))

/-- The upper bounds of the buckets of the histogram of shards. -/
def shardBounds : List Nat := [1, 2, 4, 8, 16, 32, 64]

/-- The lines of one series of the histogram of shards, from what was observed, in order. -/
def shardSeries (name policy : String) (observed : List Nat) : List String :=
  let bucket (bound : String) (n : Nat) :=
    line (name ++ "_bucket") [("policy", policy), ("le", bound)] (ofCount n)
  shardBounds.map (fun b => bucket (toString b) (observed.countP (· ≤ b)))
    ++ [bucket "+Inf" observed.length,
      line (name ++ "_sum") [("policy", policy)]
        (observed.foldl (fun sum n => sum + Float.ofNat n) 0),
      line (name ++ "_count") [("policy", policy)] (ofCount observed.length)]

/-- The histogram of shards, from the observations newest first. -/
def shardFamily (observations : List (String × Nat)) : List String :=
  let name := "pipecache_smget_shards"
  let policies := (observations.map (·.1)).eraseDups.mergeSort fun a b => (compare a b).isLE
  family name "Shards touched by one sorted multi-get" "histogram"
    (policies.flatMap fun policy =>
      shardSeries name policy
        (observations.reverse.filterMap fun (p, n) => if p = policy then some n else none))

end Exposition

open Exposition in
/-- All metrics, line by line. -/
def Metrics.lines (m : Metrics) : List String :=
  counters "pipecache_batched_operations_total" "Operations sent inside a pipelined batch"
      ([·]) ["family"] m.batched
    ++ family "pipecache_connected_nodes" "Nodes with an established connection" "gauge"
      [line "pipecache_connected_nodes" [] (ofCount m.connectedNodes.toNat)]
    ++ family "pipecache_operations_cancelled_total" "Operations cancelled before completing"
      "counter" [line "pipecache_operations_cancelled_total" [] (ofCount m.cancelled)]
    ++ counters "pipecache_operations_completed_total" "Operations completed by kind and status"
      (fun (kind, status) => [kind, status]) ["kind", "status"] m.completed
    ++ counters "pipecache_reconnects_total" "Connection attempts after a failure"
      ([·]) ["node"] m.reconnects
    ++ shardFamily m.shards
    ++ counters "pipecache_wait_timeouts_total" "Future waits that timed out, per node"
      ([·]) ["node"] m.waitTimeouts

end ShardedCache

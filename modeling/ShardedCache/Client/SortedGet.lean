import ShardedCache.Client.Basic
import ShardedCache.Future.SortedGet

/-!
# Sorted multi-gets

Every key is asked of its shard, all keys of one shard in one operation. With paging, each shard is
asked for the elements that are passed over as well, since any of them may come from it.
-/

namespace ShardedCache

open SortedGet (Answer RangeQuery reach? reach?_eq_some_iff reach?_eq_none_iff)

/-- The most elements that a sorted multi-get may reach. -/
def maxSortedGetCount : UInt64 := 1000

/-- Why a sorted multi-get is refused. -/
inductive SortedGetFlaw where
  | noKeys
  | count (reach : UInt64)
  /-- There is no reach: the call breaks off where it is computed. -/
  | overflow
  | key (flaw : KeyFlaw)
  | duplicateKey (key : String)
  deriving DecidableEq, Repr

def SortedGetFlaw.message : SortedGetFlaw → String
  | noKeys => "smget needs at least one key"
  | count reach =>
    "offset + count must be within 1..=" ++ toString maxSortedGetCount.toNat ++ ", got "
      ++ toString reach.toNat
  | overflow => CacheError.overflow.text
  | key flaw => flaw.message
  | duplicateKey repeated => "duplicate smget key " ++ Text.quoted repeated

/-- How the call ends. -/
def SortedGetFlaw.error : SortedGetFlaw → CacheError
  | overflow => .overflow
  | flaw => .invalidArgument flaw.message

/-- The first key that cannot be used, or that is among those `seen` before. -/
def keysFlaw? : (seen : List String) → List String → Option SortedGetFlaw
  | _, [] => none
  | seen, key :: keys =>
    match keyFlaw? key with
    | some flaw => some (.key flaw)
    | none => if seen.contains key then some (.duplicateKey key) else keysFlaw? (key :: seen) keys

/-- Why a sorted multi-get is refused, if it is. The reach matters only if something is to be
returned, and comes before the keys. -/
def sortedGetFlaw? (keys : List String) (offset count : UInt64) : Option SortedGetFlaw :=
  if keys.isEmpty then some .noKeys
  else if count = 0 then some (.count offset)
  else
    match reach? offset count with
    | none => some .overflow
    | some reach =>
      if maxSortedGetCount < reach then some (.count reach) else keysFlaw? [] keys

section Valid

variable {keys : List String} {offset count : UInt64}

/-- A call is let through if it has keys that can be used, something is to be returned, and offset and
count together are within the limit. -/
theorem sortedGetFlaw?_eq_none : sortedGetFlaw? keys offset count = none ↔
    keys.isEmpty = false ∧ count ≠ 0 ∧ offset.toNat + count.toNat ≤ maxSortedGetCount.toNat ∧
      keysFlaw? [] keys = none := by
  unfold sortedGetFlaw?
  cases keys.isEmpty with
  | true => simp
  | false =>
    by_cases hcount : count = 0
    · simp [hcount]
    cases hreach : reach? offset count with
    | none =>
      have hlarge := reach?_eq_none_iff.1 hreach
      have hlimit : maxSortedGetCount.toNat < UInt64.size := maxSortedGetCount.toNat_lt
      have hbeyond : ¬offset.toNat + count.toNat ≤ maxSortedGetCount.toNat := by omega
      simp [hcount, hbeyond]
    | some reach =>
      have hwithin : offset.toNat + count.toNat ≤ maxSortedGetCount.toNat ↔
          ¬maxSortedGetCount < reach := by
        rw [← reach?_eq_some_iff.1 hreach, ← UInt64.le_iff_toNat_le, UInt64.not_lt]
      by_cases hbeyond : maxSortedGetCount < reach <;> simp [hcount, hwithin, hbeyond]

/-- What is let through has a reach. -/
theorem reach?_of_valid (h : sortedGetFlaw? keys offset count = none) :
    reach? offset count = some (offset + count) := by
  obtain ⟨-, -, hwithin, -⟩ := sortedGetFlaw?_eq_none.1 h
  have hlimit : maxSortedGetCount.toNat = 1000 := rfl
  rw [reach?_eq_some_iff, UInt64.toNat_add]
  exact Nat.mod_eq_of_lt (by omega)

end Valid

/-- The keys asked of one node. -/
structure ShardKeys where
  name : String
  node : Nat
  keys : List String
  deriving DecidableEq, Repr

namespace ShardKeys

/-- Adds a key to the group of its node, or starts one. Nodes of one name share a group. -/
def add (name : String) (node : Nat) (key : String) : List ShardKeys → List ShardKeys
  | [] => [{ name, node, keys := [key] }]
  | group :: groups =>
    if group.name = name then { group with keys := group.keys ++ [key] } :: groups
    else group :: add name node key groups

end ShardKeys

namespace Client

variable {α : Type}

/-- The keys by node, in the order in which the nodes first occur. -/
def groupByNode (client : Client) (c : Cluster) (keys : List String) : List ShardKeys :=
  keys.foldl
    (fun groups key =>
      let node := client.nodeOf key
      let name := ((c.node? node).map (·.name)).getD ""
      ShardKeys.add name node key groups)
    []

/-- Makes and submits a range query for each shard. -/
def askShards (query : List String → RangeQuery) (answer latch : Nat) : (queued : List Nat) →
    List ShardKeys → Call (List Nat)
  | queued, [] => return queued
  | queued, shard :: shards => do
    let op ← Call.operation (.sortRange (query shard.keys)) (.shard shard.keys answer latch)
    Call.submitAfter queued op shard.node
    askShards query answer latch (queued ++ [op]) shards

/-- Sends a sorted multi-get to all shards that it concerns. -/
def fanOut (client : Client) (keys : List String) (query : List String → RangeQuery)
    (answer : Answer StoredValue) (policy : String) (t : Transcoder α) :
    Call (SortedGetFuture α) := fun c =>
  let shards := client.groupByNode c keys
  let call : Call (SortedGetFuture α) := do
    let latch ← Call.latch shards.length
    let answer ← Call.change fun c =>
      let (reports, id) := c.engine.reports.addAnswer answer
      (c.mapReports fun _ => reports, id)
    let operations ← askShards query answer latch [] shards
    return { operations, answer, latch, timeout := client.config.opTimeout, transcoder := t }
  call (c.mapMetrics (·.observeShards policy shards.length))

/-- At most `count` elements of the range over all keys, in order. -/
def sortedGet (client : Client) (keys : List String) (range : KeyRange) (count : UInt64)
    (unique : Bool) (t : Transcoder α) : Call (SortedGetFuture α) :=
  match sortedGetFlaw? keys 0 count with
  | some flaw => Call.fail flaw.error
  | none =>
    client.fanOut keys (fun keys => { keys, range, count := count.toUInt32, unique })
      (.current count range.isReverse unique) "current" t

/-- The same after passing over the first `offset` elements. -/
def sortedGetPage (client : Client) (keys : List String) (range : KeyRange)
    (offset count : UInt64) (unique : Bool) (t : Transcoder α) : Call (SortedGetFuture α) :=
  match sortedGetFlaw? keys offset count with
  | some flaw => Call.fail flaw.error
  | none =>
    match reach? offset count with
    | none => Call.fail .overflow
    | some reach =>
      client.fanOut keys (fun keys => { keys, range, count := reach.toUInt32, unique })
        (.legacy count offset range.isReverse unique) "legacy" t

theorem sortedGetPage_of_valid (client : Client) {keys : List String} {offset count : UInt64}
    (h : sortedGetFlaw? keys offset count = none) (range : KeyRange) (unique : Bool) (t : Transcoder α) :
    client.sortedGetPage keys range offset count unique t =
      client.fanOut keys (fun keys => { keys, range, count := (offset + count).toUInt32, unique })
        (.legacy count offset range.isReverse unique) "legacy" t := by
  rw [sortedGetPage, h, reach?_of_valid h]

end Client

end ShardedCache

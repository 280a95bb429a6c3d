import ShardedCache.Command.Reply

/-!
# Callbacks

Who hears what became of an operation. A callback hears at most one payload, then one status, then
that the operation is finished. A multiplexer stands between many operations and one aggregate:
it passes payloads on at once and reports a single status when the last operation has finished.
-/

namespace ShardedCache

open Wire (Status)

/-- What a callback hears. -/
inductive Event where
  | payload (payload : Payload)
  | status (status : Status)
  | finished
  deriving DecidableEq, Repr

/-- The receiver of an operation's events. Numbers are positions in the tables of `Reports`. -/
inductive Callback where
  /-- Nobody listens. -/
  | silent
  /-- The events are only kept in the journal, under a name. -/
  | record (name : String)
  /-- Payloads and status are gathered for a future. -/
  | completion (completion : Nat)
  /-- One shard's part of a sorted multi-get, with the keys asked of it. -/
  | shard (keys : List String) (answer latch : Nat)
  | multiplex (multiplexer : Nat) (aggregate : Callback)
  deriving DecidableEq, Repr

/-- Who reports an event. -/
inductive Teller where
  | operation (id : Nat)
  /-- An operation, to the observer registered with it later. -/
  | listener (id : Nat)
  /-- An operation that had finished before it joined a batch. -/
  | finishedEarly (id : Nat)
  | multiplexer (id : Nat)
  deriving DecidableEq, Repr

/-- One event as it was reported. -/
structure Delivery where
  teller : Teller
  receiver : Callback
  event : Event
  deriving DecidableEq, Repr

end ShardedCache

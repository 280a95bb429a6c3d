import ShardedCache.Callback
import ShardedCache.SortedGet.Answer

/-!
# Reports

Everything that callbacks write to: latches that count down, completions, multiplexers and the
answers of sorted multi-gets, each in a table and named by its position there. Every event is also
kept in a journal, so that what anyone was told can be read back in order.
-/

namespace ShardedCache

open Wire (Status)

/-- The outcome of one or more operations, gathered for a future. -/
structure Completion where
  /-- Counted down when an operation has finished. -/
  latch : Nat
  status : Option Status := none
  /-- In order of arrival. -/
  payloads : List Payload := []
  deriving DecidableEq, Repr

namespace Completion

/-- The first value that arrived, with its version. -/
def value? (c : Completion) : Option (StoredValue × UInt64) :=
  c.payloads.findSome? fun
    | .value _ value cas => some (value, cas)
    | _ => none

def counter? (c : Completion) : Option UInt64 :=
  c.payloads.findSome? fun
    | .counter n => some n
    | _ => none

def version? (c : Completion) : Option String :=
  c.payloads.findSome? fun
    | .version text => some text
    | _ => none

def isSuccess (c : Completion) : Bool := c.status.any (·.isSuccess)

end Completion

/-- Turns many reports into one: the last failing status, or success. -/
structure Multiplexer where
  remaining : Nat
  failing : Option Status := none
  deriving DecidableEq, Repr

structure Reports where
  /-- How often each latch has still to be counted down until it opens. -/
  latches : List Nat := []
  completions : List Completion := []
  multiplexers : List Multiplexer := []
  answers : List (SortedGet.Answer StoredValue) := []
  /-- Newest first. -/
  journal : List Delivery := []
  deriving DecidableEq, Repr

namespace Reports

/-! ## The tables -/

def addLatch (r : Reports) (count : Nat) : Reports × Nat :=
  ({ r with latches := r.latches ++ [count] }, r.latches.length)

def latchCount (r : Reports) (latch : Nat) : Nat := r.latches.getD latch 0

def isOpen (r : Reports) (latch : Nat) : Bool := r.latchCount latch == 0

def countDown (r : Reports) (latch : Nat) : Reports :=
  { r with latches := r.latches.modify latch (· - 1) }

def addCompletion (r : Reports) (latch : Nat) : Reports × Nat :=
  ({ r with completions := r.completions ++ [{ latch }] }, r.completions.length)

def completion (r : Reports) (id : Nat) : Completion := r.completions.getD id { latch := 0 }

def modifyCompletion (r : Reports) (id : Nat) (f : Completion → Completion) : Reports :=
  { r with completions := r.completions.modify id f }

/-- A multiplexer for `count` reports. -/
def addMultiplexer (r : Reports) (count : Nat) : Reports × Nat :=
  ({ r with multiplexers := r.multiplexers ++ [{ remaining := count }] }, r.multiplexers.length)

def remaining (r : Reports) (multiplexer : Nat) : Nat :=
  (r.multiplexers[multiplexer]?.map (·.remaining)).getD 0

def modifyMultiplexer (r : Reports) (id : Nat) (f : Multiplexer → Multiplexer) : Reports :=
  { r with multiplexers := r.multiplexers.modify id f }

def addAnswer (r : Reports) (answer : SortedGet.Answer StoredValue) : Reports × Nat :=
  ({ r with answers := r.answers ++ [answer] }, r.answers.length)

def modifyAnswer (r : Reports) (id : Nat)
    (f : SortedGet.Answer StoredValue → SortedGet.Answer StoredValue) : Reports :=
  { r with answers := r.answers.modify id f }

/-! ## Telling a callback -/

/-- What a completion makes of an event. -/
def tellCompletion (r : Reports) (id : Nat) : Event → Reports
  | .payload p => r.modifyCompletion id fun c => { c with payloads := c.payloads ++ [p] }
  | .status s => r.modifyCompletion id fun c => { c with status := some s }
  | .finished => r.countDown (r.completion id).latch

/-- What a shard's events do to the shared answer. A shard that has none of its keys says so by
its status; any other failure fails the whole answer. -/
def tellShard (r : Reports) (keys : List String) (answer latch : Nat) : Event → Reports
  | .payload (.sortRange slice) => r.modifyAnswer answer (·.addSlice slice)
  | .payload _ => r
  | .status s =>
    match s.code with
    | .success => r
    | .notFound => r.modifyAnswer answer (·.addMissed keys s)
    | _ => r.modifyAnswer answer (·.fail s)
  | .finished => r.countDown latch

/-- Reports an event to a callback. -/
def tell (r : Reports) (teller : Teller) (receiver : Callback) (event : Event) : Reports :=
  let r := { r with journal := ⟨teller, receiver, event⟩ :: r.journal }
  match receiver with
  | .silent | .record _ => r
  | .completion id => r.tellCompletion id event
  | .shard keys answer latch => r.tellShard keys answer latch event
  | .multiplex id aggregate =>
    match event with
    | .payload _ => tell r (.multiplexer id) aggregate event
    | .status s =>
      if s.isSuccess then r else r.modifyMultiplexer id fun m => { m with failing := some s }
    | .finished =>
      match r.multiplexers[id]? with
      | some ⟨1, failing⟩ =>
        let r := r.modifyMultiplexer id fun _ => { remaining := 0 }
        let r := tell r (.multiplexer id) aggregate (.status (failing.getD .success))
        tell r (.multiplexer id) aggregate .finished
      | some m => r.modifyMultiplexer id fun _ => { m with remaining := m.remaining - 1 }
      | none => r

/-- Reports that an operation ended with `status`. -/
def conclude (r : Reports) (teller : Teller) (receiver : Callback) (status : Status) : Reports :=
  (r.tell teller receiver (.status status)).tell teller receiver .finished

end Reports

end ShardedCache

/-!
# Node health

Every wait that touched a node reports whether it ran out of time. A node counts the timeouts in a
row, and may keep the last outcomes in a ring, so that recording one takes constant time and the
ratio of timeouts is at hand.
-/

namespace ShardedCache

/-- The last outcomes of waits; `true` stands for a timeout. -/
structure TimeoutWindow where
  slots : List Bool
  /-- The slot to be written next. -/
  next : Nat := 0
  filled : Nat := 0
  /-- How many of the filled slots hold a timeout. -/
  timeouts : Nat := 0
  deriving DecidableEq, Repr

namespace TimeoutWindow

/-- A window over the last `size` outcomes, and over one at least. -/
def ofSize (size : Nat) : TimeoutWindow := { slots := List.replicate (max size 1) false }

def isFull (w : TimeoutWindow) : Bool := w.filled == w.slots.length

/-- Records an outcome; in a full window it takes the place of the oldest. -/
def record (w : TimeoutWindow) (timedOut : Bool) : TimeoutWindow :=
  let leaving := w.isFull && w.slots.getD w.next false
  { slots := w.slots.set w.next timedOut
    next := (w.next + 1) % w.slots.length
    filled := if w.isFull then w.filled else w.filled + 1
    timeouts := (if leaving then w.timeouts - 1 else w.timeouts) + timedOut.toNat }

/-- The percentage of timeouts, rounded down. -/
def ratio (w : TimeoutWindow) : Nat := w.timeouts * 100 / w.filled

def reset (w : TimeoutWindow) : TimeoutWindow := { slots := w.slots.map fun _ => false }

end TimeoutWindow

structure Health where
  /-- Timeouts since the last success. -/
  continuous : UInt32 := 0
  window : Option TimeoutWindow := none
  deriving DecidableEq, Repr

namespace Health

/-- How many outcomes the ratio is taken over. -/
def windowSize : Nat := 100

def tracking (ratio : Bool) : Health where
  window := if ratio then some (.ofSize windowSize) else none

def recordTimeout (h : Health) : Health where
  continuous := h.continuous + 1
  window := h.window.map (·.record true)

def recordSuccess (h : Health) : Health where
  continuous := 0
  window := h.window.map (·.record false)

def reset (h : Health) : Health where
  continuous := 0
  window := h.window.map (·.reset)

def ratio? (h : Health) : Option Nat := h.window.map (·.ratio)

end Health

end ShardedCache

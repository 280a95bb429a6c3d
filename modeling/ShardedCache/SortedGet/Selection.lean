import ShardedCache.SortedGet.Element

/-!
# What a sorted multi-get asks for

A `Selection` is the part of the merged sequence that the caller wants, and a `Verdict` says what
the finished answer is like.
-/

namespace ShardedCache.SortedGet

open Wire (Status)

structure Selection where
  count : UInt64
  /-- How many merged elements are passed over first. -/
  offset : UInt64
  reverse : Bool
  /-- Keep one element for each order key. -/
  unique : Bool
  deriving DecidableEq, Repr

/-- How many merged elements matter: the ones passed over and the ones returned. There is none if
their number does not fit into a machine word, and whoever needs it breaks off there. -/
def reach? (offset count : UInt64) : Option UInt64 :=
  if offset.toNat + count.toNat < UInt64.size then some (offset + count) else none

theorem reach?_eq_some_iff {offset count reach : UInt64} :
    reach? offset count = some reach ↔ reach.toNat = offset.toNat + count.toNat := by
  have hlt : reach.toNat < UInt64.size := reach.toNat_lt
  unfold reach?
  split
  · next hfits =>
    have hsum : (offset + count).toNat = offset.toNat + count.toNat := by
      rw [UInt64.toNat_add]
      exact Nat.mod_eq_of_lt hfits
    rw [Option.some.injEq, ← UInt64.toNat_inj, hsum, eq_comm]
  · next hfits =>
    refine iff_of_false (fun h => by cases h) fun h => hfits ?_
    rwa [← h]

theorem reach?_eq_none_iff {offset count : UInt64} :
    reach? offset count = none ↔ UInt64.size ≤ offset.toNat + count.toNat := by
  unfold reach?
  split
  · next hfits => exact iff_of_false (fun h => by cases h) (Nat.not_le.2 hfits)
  · next hfits => exact iff_of_true rfl (Nat.not_lt.1 hfits)

/-- The reach, as a number of elements. Without one nothing is merged. -/
def Selection.reach (s : Selection) : Nat := ((reach? s.offset s.count).map (·.toNat)).getD 0

theorem Selection.reach_of_none {s : Selection} (h : reach? s.offset s.count = none) : s.reach = 0 := by
  rw [reach, h]
  rfl

theorem Selection.reach_of_fits {s : Selection}
    (h : s.offset.toNat + s.count.toNat < UInt64.size) : s.reach = s.offset.toNat + s.count.toNat := by
  have hsome : reach? s.offset s.count ≠ none := fun hnone => Nat.not_le.2 h (reach?_eq_none_iff.1 hnone)
  obtain ⟨reach, hreach⟩ := Option.ne_none_iff_exists'.1 hsome
  rw [Selection.reach, hreach]
  exact reach?_eq_some_iff.1 hreach

inductive Verdict where
  | complete
  | duplicated
  | trimmed
  | duplicatedTrimmed
  | failed (status : Status)
  deriving DecidableEq, Repr

namespace Verdict

def isSuccess : Verdict → Bool
  | failed _ => false
  | _ => true

def name : Verdict → String
  | complete => "END"
  | duplicated => "DUPLICATED"
  | trimmed => "TRIMMED"
  | duplicatedTrimmed => "DUPLICATED_TRIMMED"
  | failed _ => "FAILED"

end Verdict

variable {α : Type}

/-- Whether two elements side by side share an order key. -/
def hasAdjacentDuplicates : List (Element α) → Bool
  | a :: b :: rest => a.orderKey == b.orderKey || hasAdjacentDuplicates (b :: rest)
  | _ => false

end ShardedCache.SortedGet

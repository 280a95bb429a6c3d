import ShardedCache.Proofs.Client.Asking
import ShardedCache.Proofs.SortedGet.Paging

/-!
# How far a sorted multi-get reaches

Paging reaches over the elements that are passed over and those that are returned. Their number is
computed in 64 bits where a call is validated, where the shards are asked and where their elements are
merged. What is validated keeps all three from going wrong, but the first of them comes before the
limit is looked at: an offset and a count that do not fit into a machine word together break the call
off, where it should be refused (`Client.reach_of_sortedGetPage`). Without an offset the number is the
count, and nothing can go wrong.
-/

namespace ShardedCache

open SortedGet (Answer RangeQuery ShardSlice reach? reach?_eq_none_iff reach?_eq_some_iff)

/-- The keys that a sorted multi-get can be made for. -/
structure UsableKeys (keys : List String) : Prop where
  nonempty : keys ≠ []
  usable : ∀ key ∈ keys, key ≠ "" ∧ key.utf8ByteSize ≤ maxKeyLength
  nodup : keys.Nodup

/-! ## What is let through -/

theorem usableKeys_iff {keys : List String} :
    UsableKeys keys ↔ keys.isEmpty = false ∧ keysFlaw? [] keys = none := by
  rw [keysFlaw?_eq_none, List.isEmpty_eq_false_iff]
  constructor
  · intro h
    exact ⟨h.nonempty, fun key hkey => keyFlaw?_eq_none.2 (h.usable key hkey), h.nodup,
      fun _ _ => List.not_mem_nil⟩
  · rintro ⟨hne, husable, hnodup, -⟩
    exact ⟨hne, fun key hkey => keyFlaw?_eq_none.1 (husable key hkey), hnodup⟩

section Flaws

variable {keys : List String} {offset count : UInt64}

theorem count_pos_iff : 1 ≤ count.toNat ↔ count ≠ 0 := by
  rw [Nat.one_le_iff_ne_zero, ne_eq, ne_eq, ← UInt64.toNat_inj, UInt64.toNat_zero]

/-- A call is let through just if its keys are usable, something is to be returned, and the reach is
within the limit. -/
theorem sortedGet_valid_iff : sortedGetFlaw? keys offset count = none ↔
    UsableKeys keys ∧ 1 ≤ count.toNat ∧ offset.toNat + count.toNat ≤ maxSortedGetCount.toNat := by
  rw [sortedGetFlaw?_eq_none, usableKeys_iff, count_pos_iff]
  tauto

/-- A flaw that the keys have is one of a single key, or that it is repeated. -/
theorem keysFlaw?_ne {flaw : SortedGetFlaw} (hkey : ∀ k, flaw ≠ .key k)
    (hrepeated : ∀ key, flaw ≠ .duplicateKey key) :
    ∀ {seen keys : List String}, keysFlaw? seen keys ≠ some flaw
  | _, [], h => by cases h
  | _, _ :: _, h => by
    unfold keysFlaw? at h
    split at h
    · exact hkey _ (Option.some.inj h).symm
    · split at h
      · exact hrepeated _ (Option.some.inj h).symm
      · exact keysFlaw?_ne hkey hrepeated h

/-- Whether there is a reach matters as soon as there are keys and something is to be returned. -/
theorem sortedGetFlaw?_eq_overflow : sortedGetFlaw? keys offset count = some .overflow ↔
    keys ≠ [] ∧ 1 ≤ count.toNat ∧ 2 ^ 64 ≤ offset.toNat + count.toNat := by
  have hsize : 2 ^ 64 ≤ offset.toNat + count.toNat ↔ reach? offset count = none :=
    reach?_eq_none_iff.symm
  have hkeysFlaw : ∀ {seen keys}, keysFlaw? seen keys ≠ some .overflow :=
    keysFlaw?_ne (fun _ h => by cases h) (fun _ h => by cases h)
  rw [count_pos_iff, hsize]
  unfold sortedGetFlaw?
  cases keys with
  | nil => simp
  | cons key keys =>
    by_cases hcount : count = 0
    · simp [hcount]
    cases reach? offset count with
    | none => simp [hcount]
    | some reach => by_cases hbeyond : maxSortedGetCount < reach <;> simp [hcount, hbeyond, hkeysFlaw]

/-- The reach that a call is refused for is the true one. -/
theorem toNat_of_count_flaw {reach : UInt64}
    (h : sortedGetFlaw? keys offset count = some (.count reach)) :
    reach.toNat = offset.toNat + count.toNat := by
  unfold sortedGetFlaw? at h
  split at h
  · cases h
  split at h
  · next hcount =>
    cases h
    simp [hcount]
  split at h
  · cases h
  · next hreach =>
    split at h
    · cases h
      exact reach?_eq_some_iff.1 hreach
    · exact absurd h (keysFlaw?_ne (fun _ h => by cases h) (fun _ h => by cases h))

end Flaws

namespace Client

variable {α : Type} {keys : List String} {offset count : UInt64}

/-! ## What is asked for -/

/-- Every operation that the call makes asks a shard for so many elements. -/
def AsksFor (c c' : Cluster) (number : Nat) : Prop :=
  ∀ id op, c.engine.get? id = none → c'.engine.get? id = some op →
    ∃ q : RangeQuery, op.work = .single (.sortRange q) ∧ q.count.toNat = number

theorem asksFor_fanOut (client : Client) (hvalid : sortedGetFlaw? keys offset count = none)
    (range : KeyRange) (unique : Bool) (answer : Answer StoredValue) (policy : String)
    (t : Transcoder α) (c : Cluster) :
    AsksFor c (client.fanOut keys
      (fun keys => { keys, range, count := (offset + count).toUInt32, unique }) answer policy t c).1
      (offset.toNat + count.toNat) := by
  intro id op hnew hop
  obtain ⟨shard, -, hwork⟩ := made_fanOut client keys _ answer policy t c hnew hop
  refine ⟨_, hwork, ?_⟩
  rw [(of_sortedGetFlaw? hvalid).1]
  exact reach?_eq_some_iff.1 (reach?_of_valid hvalid)

theorem sortedGetPage_of_flaw (client : Client) {flaw : SortedGetFlaw}
    (hflaw : sortedGetFlaw? keys offset count = some flaw) (range : KeyRange) (unique : Bool)
    (t : Transcoder α) (c : Cluster) :
    client.sortedGetPage keys range offset count unique t c = (c, .error flaw.error) := by
  rw [sortedGetPage, hflaw]
  rfl

theorem sortedGet_of_flaw (client : Client) {flaw : SortedGetFlaw}
    (hflaw : sortedGetFlaw? keys 0 count = some flaw) (range : KeyRange) (unique : Bool)
    (t : Transcoder α) (c : Cluster) :
    client.sortedGet keys range count unique t c = (c, .error flaw.error) := by
  rw [sortedGet, hflaw]
  rfl

theorem error_of_ne_overflow {flaw : SortedGetFlaw} (h : flaw ≠ .overflow) :
    flaw.error = .invalidArgument flaw.message := by
  cases flaw with
  | overflow => exact absurd rfl h
  | _ => rfl

/-- **How far a page reaches.** A call is let through just if its keys are usable, something is to be
returned, and the reach is at most the limit. If there are keys, something is to be returned and the reach
does not fit into a machine word, the call breaks off; every other call is refused as invalid, for the
true reach if for any. In neither case does anything change. Where a call is let through there is a
reach: every shard is asked for that many elements, as many are merged, and however the shards answer
the merging does not break off. -/
theorem reach_of_sortedGetPage (client : Client) (keys : List String) (range : KeyRange)
    (offset count : UInt64) (unique : Bool) (t : Transcoder α) (c : Cluster) :
    let reach := offset.toNat + count.toNat
    let limit := maxSortedGetCount.toNat
    (sortedGetFlaw? keys offset count = none ↔
      UsableKeys keys ∧ 1 ≤ count.toNat ∧ reach ≤ limit) ∧
    (sortedGetFlaw? keys offset count = some .overflow ↔
      keys ≠ [] ∧ 1 ≤ count.toNat ∧ 2 ^ 64 ≤ reach) ∧
    (sortedGetFlaw? keys offset count = some .overflow →
      client.sortedGetPage keys range offset count unique t c = (c, .error .overflow)) ∧
    (∀ flaw, sortedGetFlaw? keys offset count = some flaw → flaw ≠ .overflow →
      client.sortedGetPage keys range offset count unique t c =
        (c, .error (.invalidArgument flaw.message)) ∧
      ∀ refused, flaw = .count refused → refused.toNat = reach) ∧
    (sortedGetFlaw? keys offset count = none →
      (∃ sum, reach? offset count = some sum ∧ sum.toNat = reach) ∧
      AsksFor c (client.sortedGetPage keys range offset count unique t c).1 reach ∧
      ((.legacy count offset range.isReverse unique : Answer StoredValue).selection.reach = reach) ∧
      ∀ slices : List (ShardSlice StoredValue),
        ¬((Answer.legacy count offset range.isReverse unique).addSlices slices).isBrokenOff) ∧
    (sortedGetFlaw? keys 0 count = none ↔
      UsableKeys keys ∧ 1 ≤ count.toNat ∧ count.toNat ≤ limit) ∧
    (∀ flaw, sortedGetFlaw? keys 0 count = some flaw →
      client.sortedGet keys range count unique t c = (c, .error (.invalidArgument flaw.message))) ∧
    (sortedGetFlaw? keys 0 count = none →
      AsksFor c (client.sortedGet keys range count unique t c).1 count.toNat) := by
  intro reach limit
  have hlimit : limit = 1000 := rfl
  have hzero : (0 : UInt64).toNat + count.toNat = count.toNat := Nat.zero_add _
  refine ⟨sortedGet_valid_iff, sortedGetFlaw?_eq_overflow,
    fun hflaw => client.sortedGetPage_of_flaw hflaw range unique t c, fun flaw hflaw hne => ⟨?_, ?_⟩,
    fun hvalid => ?_, ?_, fun flaw hflaw => ?_, fun hvalid => ?_⟩
  · rw [client.sortedGetPage_of_flaw hflaw, error_of_ne_overflow hne]
  · rintro refused rfl
    exact toNat_of_count_flaw hflaw
  · have hwithin : reach ≤ limit := (sortedGet_valid_iff.1 hvalid).2.2
    have hfits : offset.toNat + count.toNat < UInt64.size := by
      simp only [UInt64.size]
      omega
    refine ⟨⟨_, reach?_of_valid hvalid, reach?_eq_some_iff.1 (reach?_of_valid hvalid)⟩, ?_,
      SortedGet.Selection.reach_of_fits hfits, fun slices hbroken => ?_⟩
    · rw [client.sortedGetPage_of_valid hvalid]
      exact client.asksFor_fanOut hvalid range unique _ _ t c
    · exact Nat.not_le.2 hfits ((Answer.isBrokenOff_addSlices _ _ _ _ _).1 hbroken).1
  · rw [sortedGet_valid_iff, hzero]
  · have hne : flaw ≠ .overflow := by
      rintro rfl
      have hlarge := (sortedGetFlaw?_eq_overflow.1 hflaw).2.2
      have := count.toNat_lt
      omega
    rw [client.sortedGet_of_flaw hflaw, error_of_ne_overflow hne]
  · have hasks := client.asksFor_fanOut hvalid range unique (.current count range.isReverse unique)
      "current" t c
    rw [UInt64.zero_add, hzero] at hasks
    rw [sortedGet, hvalid]
    exact hasks

/-- Passing over 2^64 - 1 elements to return one breaks off, though the keys are usable and the reach is
not within the limit. -/
theorem broken_off_at_the_sum :
    let call := oneNode.2.sortedGetPage ["a"] ⟨.number 5, .number 9⟩ 18446744073709551615 1 false .bytes
      oneNode.1
    UsableKeys ["a"] ∧ call.2 = .error .overflow ∧
    ¬∀ flaw, sortedGetFlaw? ["a"] 18446744073709551615 1 = some flaw →
      ∃ message, call.2 = .error (.invalidArgument message) := by
  intro call
  have hflaw : sortedGetFlaw? ["a"] 18446744073709551615 1 = some .overflow := by decide
  have hcall : call.2 = .error .overflow := by
    rw [show call = (oneNode.1, .error .overflow) from oneNode.2.sortedGetPage_of_flaw hflaw _ _ _ _]
  refine ⟨⟨by decide, by decide, by decide⟩, hcall, fun h => ?_⟩
  obtain ⟨message, hmessage⟩ := h _ hflaw
  rw [hcall] at hmessage
  cases hmessage

end Client

end ShardedCache

import Mathlib.Data.List.Dedup
import ShardedCache.Proofs.SortedGet.Distinct
import ShardedCache.Proofs.SortedGet.StableSort

/-!
# The capped merge against its reference

`reference` says what the shards hold together: everything, sorted stably, or for each order key
the first element of the first shard to arrive that has one. Merging the shards one after the
other, with a cut in every round, gives the front of the reference (`mergeAll_spec`). Two facts
carry the induction: a round without a cut takes the reference of some shards to that of one more
(`uncut_reference`), and what is cut off a side does not show in the next round
(`take_uncut_take`).
-/

namespace ShardedCache.SortedGet

open OrderKey (compareIn Before)

variable {α : Type} {reverse : Bool}

/-! ## The reference -/

/-- The order keys that occur, each once, in the direction of the query. -/
def distinctKeys (reverse : Bool) (l : List (Element α)) : List OrderKey :=
  (l.map (·.orderKey)).dedup.mergeSort fun a b => (compareIn reverse a b).isLE

/-- The first element with an order key, in the first shard to arrive that has one. -/
def firstArrival (shards : List (List (Element α))) (k : OrderKey) : Option (Element α) :=
  shards.findSome? (firstWith k)

/-- What the shards, in the order of their arrival, hold together: one element for each order key,
or all of them, of level ones the earlier arrival first. -/
def reference (reverse unique : Bool) (shards : List (List (Element α))) : List (Element α) :=
  if unique then (distinctKeys reverse shards.flatten).filterMap (firstArrival shards)
  else shards.flatten.mergeSort (Element.le reverse)

theorem mem_distinctKeys {k : OrderKey} {l : List (Element α)} :
    k ∈ distinctKeys reverse l ↔ ∃ a ∈ l, a.orderKey = k := by
  simp [distinctKeys]

theorem pairwise_distinctKeys (l : List (Element α)) :
    (distinctKeys reverse l).Pairwise (Before reverse) := by
  have hle : (distinctKeys reverse l).Pairwise fun a b => (compareIn reverse a b).isLE :=
    List.pairwise_mergeSort (OrderKey.compareIn_isLE_trans reverse)
      (OrderKey.compareIn_isLE_total reverse) _
  have hnodup : (distinctKeys reverse l).Nodup :=
    (List.mergeSort_perm _ _).nodup_iff.2 (List.nodup_dedup _)
  refine (hle.and hnodup).imp fun {a b} ⟨hab, hne⟩ => ?_
  exact (OrderKey.before_or_before reverse hne).resolve_right (OrderKey.isLE_iff_not_before.1 hab)

theorem firstArrival_eq (shards : List (List (Element α))) (k : OrderKey) :
    firstArrival shards k = firstWith k shards.flatten := List.find?_flatten.symm

theorem firstArrival_append (shards : List (List (Element α))) (shard : List (Element α))
    (k : OrderKey) :
    firstArrival (shards ++ [shard]) k = (firstArrival shards k).or (firstWith k shard) := by
  simp [firstArrival_eq, firstWith_append]

/-- Picking an element for each of some keys keeps their order. -/
theorem ascending_filterMap {f : OrderKey → Option (Element α)} {ks : List OrderKey}
    (hf : ∀ k a, f k = some a → a.orderKey = k) (hks : ks.Pairwise (Before reverse)) :
    Ascending reverse (ks.filterMap f) := by
  refine List.pairwise_filterMap.2 (hks.imp fun {k k'} h a ha b hb => ?_)
  rwa [hf k a ha, hf k' b hb]

theorem firstWith_filterMap {f : OrderKey → Option (Element α)} (k : OrderKey)
    (hf : ∀ k a, f k = some a → a.orderKey = k) : ∀ {ks : List OrderKey},
    firstWith k (ks.filterMap f) = if k ∈ ks then f k else none
  | [] => by simp
  | k' :: ks => by
    rw [List.filterMap_cons]
    cases hk' : f k' with
    | none =>
      rw [firstWith_filterMap k hf]
      by_cases h : k = k'
      · simp [h, hk']
      · simp [h]
    | some a =>
      rw [firstWith_cons, hf k' a hk', firstWith_filterMap k hf]
      by_cases h : k = k'
      · simp [h, hk']
      · simp [h, Ne.symm h]

theorem firstArrival_orderKey {shards : List (List (Element α))} {k : OrderKey} {a : Element α}
    (h : firstArrival shards k = some a) : a.orderKey = k :=
  orderKey_of_firstWith (firstArrival_eq shards k ▸ h)

theorem ascending_reference (shards : List (List (Element α))) :
    Ascending reverse (reference reverse true shards) :=
  ascending_filterMap (fun _ _ => firstArrival_orderKey) (pairwise_distinctKeys _)

theorem firstWith_reference (k : OrderKey) (shards : List (List (Element α))) :
    firstWith k (reference reverse true shards) = firstArrival shards k := by
  rw [reference, if_pos rfl, firstWith_filterMap k fun _ _ => firstArrival_orderKey]
  split
  · rfl
  · next hk =>
    rw [mem_distinctKeys] at hk
    rw [firstArrival_eq, eq_comm, firstWith_eq_none]
    exact fun a ha hak => hk ⟨a, ha, hak⟩

/-- The order keys of the reference are those that occur. -/
theorem map_orderKey_reference (shards : List (List (Element α))) :
    (reference reverse true shards).map (·.orderKey) = distinctKeys reverse shards.flatten := by
  have hall : ∀ ks : List OrderKey, (∀ k ∈ ks, k ∈ distinctKeys reverse shards.flatten) →
      (ks.filterMap (firstArrival shards)).map (·.orderKey) = ks := by
    intro ks hks
    induction ks with
    | nil => rfl
    | cons k ks ih =>
      obtain ⟨a, ha, rfl⟩ := mem_distinctKeys.1 (hks k (by simp))
      rw [List.filterMap_cons]
      cases h : firstArrival shards a.orderKey with
      | none => exact absurd rfl (firstWith_eq_none.1 (firstArrival_eq shards _ ▸ h) a ha)
      | some b => simp [firstArrival_orderKey h, ih fun k hk => hks k (by simp [hk])]
  exact hall _ fun _ hk => hk

theorem sorted_reference (unique : Bool) (shards : List (List (Element α))) :
    Sorted reverse (reference reverse unique shards) := by
  cases unique with
  | true => exact (ascending_reference shards).sorted
  | false =>
    rw [reference, if_neg (by simp)]
    exact List.pairwise_mergeSort (Element.le_trans reverse) (Element.le_total reverse) _

namespace Current

/-! ## One round -/

/-- A round of the merge before its cut. -/
def uncut (reverse unique : Bool) (merged shard : List (Element α)) : List (Element α) :=
  if unique then dropRepeats none (mergeDistinct reverse merged shard)
  else merged.merge shard (Element.le reverse)

theorem merge_eq (s : Selection) (merged shard : List (Element α)) :
    merge s merged shard = (uncut s.reverse s.unique merged shard).take s.count.toNat := rfl

/-- What a round starts from: in distinct mode no order key twice. -/
def Settled (reverse unique : Bool) (merged : List (Element α)) : Prop :=
  unique → Ascending reverse merged

theorem settled_reference (unique : Bool) (shards : List (List (Element α))) :
    Settled reverse unique (reference reverse unique shards) := by
  rintro rfl
  exact ascending_reference shards

theorem Settled.take {unique : Bool} {merged : List (Element α)} (n : Nat)
    (h : Settled reverse unique merged) : Settled reverse unique (merged.take n) :=
  fun hu => (h hu).sublist (List.take_sublist n merged)

/-- What a side holds past the cut does not show in the round. -/
theorem take_uncut_take {unique : Bool} {n : Nat} {merged shard : List (Element α)}
    (hmerged : Settled reverse unique merged) (hshard : Ordered reverse shard) :
    (uncut reverse unique (merged.take n) shard).take n = (uncut reverse unique merged shard).take n := by
  cases unique with
  | true =>
    have hasc := hmerged rfl
    have hcut : Ascending reverse (merged.take n) := hasc.sublist (List.take_sublist n merged)
    rw [uncut, if_pos rfl, uncut, if_pos rfl, dropRepeats_mergeDistinct hcut hshard,
      dropRepeats_mergeDistinct hasc hshard, take_mergeDistinct_take_left]
  | false =>
    rw [uncut, if_neg (by simp), uncut, if_neg (by simp), StableSort.take_merge_take_left]

theorem uncut_reference (unique : Bool) (shards : List (List (Element α)))
    {shard : List (Element α)} (hshard : Sorted reverse shard) :
    uncut reverse unique (reference reverse unique shards) shard =
      reference reverse unique (shards ++ [shard]) := by
  cases unique with
  | true =>
    have hasc : Ascending reverse (reference reverse true shards) := ascending_reference shards
    have hord := ordered_mergeDistinct hasc.ordered hshard.ordered
    refine eq_of_ascending_of_firstWith (dropRepeats_none_ascending hord)
      (ascending_reference _) fun k => ?_
    rw [uncut, if_pos rfl, firstWith_dropRepeats_none k hord, firstWith_mergeDistinct k hasc.ordered,
      firstWith_reference, firstWith_reference, firstArrival_append]
  | false =>
    rw [uncut, if_neg (by simp), reference, if_neg (by simp), reference, if_neg (by simp),
      StableSort.merge_mergeSort (Element.le_trans reverse) (Element.le_total reverse)
        shards.flatten hshard]
    simp

/-! ## All rounds -/

/-- The shards merged one after the other, in the order of their arrival. -/
def mergeAll (s : Selection) (shards : List (List (Element α))) : List (Element α) :=
  shards.foldl (merge s) []

/-- From the cut reference of some shards on, the rounds lead to the cut reference of all. -/
theorem foldl_merge_take_reference (s : Selection) (before : List (List (Element α))) :
    ∀ {after : List (List (Element α))}, (∀ shard ∈ after, Sorted s.reverse shard) →
      after.foldl (merge s) ((reference s.reverse s.unique before).take s.count.toNat) =
        (reference s.reverse s.unique (before ++ after)).take s.count.toNat
  | [], _ => by simp
  | shard :: after, h => by
    have hshard := h shard (by simp)
    have hround : merge s ((reference s.reverse s.unique before).take s.count.toNat) shard =
        (reference s.reverse s.unique (before ++ [shard])).take s.count.toNat := by
      rw [merge_eq, take_uncut_take (settled_reference _ _) hshard.ordered,
        uncut_reference _ _ hshard]
    rw [List.foldl_cons, hround,
      foldl_merge_take_reference s (before ++ [shard]) fun x hx => h x (by simp [hx])]
    simp

theorem reference_nil (reverse unique : Bool) :
    reference reverse unique ([] : List (List (Element α))) = [] := by
  cases unique <;> simp [reference, distinctKeys]

theorem mergeAll_eq (s : Selection) {shards : List (List (Element α))}
    (h : ∀ shard ∈ shards, Sorted s.reverse shard) :
    mergeAll s shards = (reference s.reverse s.unique shards).take s.count.toNat := by
  have := foldl_merge_take_reference s [] h
  simpa [mergeAll, reference_nil] using this

/-- The next round may as well start from everything that came before. -/
theorem foldl_merge_reference (s : Selection) (before : List (List (Element α)))
    {shard : List (Element α)} {after : List (List (Element α))}
    (h : ∀ x ∈ shard :: after, Sorted s.reverse x) :
    (shard :: after).foldl (merge s) (reference s.reverse s.unique before) =
      (reference s.reverse s.unique (before ++ shard :: after)).take s.count.toNat := by
  rw [List.foldl_cons, merge_eq, uncut_reference _ _ (h shard (by simp)),
    foldl_merge_take_reference s (before ++ [shard]) fun x hx => h x (by simp [hx])]
  simp

/-- **The capped merge is exact**: after all rounds the merged list is the front of the reference,
and so sorted, no longer than the cap and, in distinct mode, without a repeated order key. What one
round cut off no later round misses: from any round on, the result is the same as if nothing had
been cut before. -/
theorem mergeAll_spec (s : Selection) (shards : List (List (Element α)))
    (h : ∀ shard ∈ shards, Sorted s.reverse shard) :
    mergeAll s shards = (reference s.reverse s.unique shards).take s.count.toNat ∧
    Sorted s.reverse (mergeAll s shards) ∧
    (mergeAll s shards).length ≤ s.count.toNat ∧
    (s.unique → ((mergeAll s shards).map (·.orderKey)).Nodup) ∧
    ∀ before shard after, shards = before ++ shard :: after →
      mergeAll s shards = (shard :: after).foldl (merge s) (reference s.reverse s.unique before) := by
  have heq := mergeAll_eq s h
  refine ⟨heq, ?_, ?_, fun hu => ?_, ?_⟩
  · rw [heq]
    exact (sorted_reference _ _).sublist (List.take_sublist _ _)
  · rw [heq]
    exact List.length_take_le _ _
  · rw [heq]
    exact (((settled_reference s.unique shards).take _) hu).nodup
  · rintro before shard after rfl
    rw [heq, foldl_merge_reference s before fun x hx => h x (List.mem_append_right _ hx)]

/-- A shard that repeats an order key, which the next shard has too. -/
theorem mergeAll_spec_repeat_and_tie :
    let s : Selection := { count := 2, offset := 0, reverse := true, unique := true }
    let shards : List (List (Element Nat)) :=
      [[⟨"b", .number 5, 0⟩, ⟨"a", .number 5, 1⟩],
        [⟨"c", .number 5, 2⟩, ⟨"c", .number 3, 3⟩, ⟨"c", .number 1, 4⟩]]
    (∀ shard ∈ shards, Sorted s.reverse shard) ∧
      mergeAll s shards = (reference s.reverse s.unique shards).take 2 ∧
      mergeAll s shards = [⟨"b", .number 5, 0⟩, ⟨"c", .number 3, 3⟩] := by
  intro s shards
  have h : ∀ shard ∈ shards, Sorted s.reverse shard := by
    simp only [shards, s, Sorted]
    decide
  refine ⟨h, (mergeAll_spec s shards h).1, ?_⟩
  cbv

end Current

end ShardedCache.SortedGet

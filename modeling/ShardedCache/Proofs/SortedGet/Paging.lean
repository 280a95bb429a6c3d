import Mathlib.Data.List.Induction
import Mathlib.Data.List.Iterate
import ShardedCache.Proofs.SortedGet.Continuity
import ShardedCache.Proofs.SortedGet.TrimReport

/-!
# Pages of the merged sequence

Where no tail was trimmed, the paging policy inserts what the current policy merges. What is already
behind the place of a `Walk` and the merge of the rest (`Walk.toCome`) stay the same from step to
step as far as they matter, so the rounds give the front of the `reference` (`rounds_eq`). Of level
elements the two policies may put different ones first, so outside distinct mode it is the pairs of
order key and collection that agree. An answer then is a page of what a merge without a cap gives
(`Answer.merged_page`), unless offset and count do not fit into a machine word together: then the first
shard that answers breaks the merging off.
-/

namespace ShardedCache.SortedGet

open OrderKey (Before)

variable {α : Type} {reverse : Bool} {s : Selection}

/-- A shard's answer in full and in order, in distinct mode with no order key twice. -/
structure ShardSlice.Whole (reverse unique : Bool) (slice : ShardSlice α) : Prop where
  sorted : Sorted reverse slice.elements
  untrimmed : slice.tailTrimmed = false
  distinct : unique → (slice.elements.map (·.orderKey)).Nodup

theorem ShardSlice.Whole.ascending {slice : ShardSlice α} (h : slice.Whole reverse true) :
    Ascending reverse slice.elements := h.sorted.ordered.ascending (h.distinct rfl)

namespace Legacy

open Current (mergeDistinct dropRepeats)

/-! ## What a walk makes of the rest -/

namespace Walk

/-- What is ahead, merged with what is still to be inserted. In distinct mode an element that shares
its order key with the one just behind is dropped. -/
def toCome (s : Selection) (w : Walk α) : List (Element α) :=
  if s.unique then
    mergeDistinct s.reverse w.ahead (dropRepeats (w.passed.head?.map (·.orderKey)) w.shard)
  else w.shard.merge w.ahead (Element.le s.reverse)

/-- What the walk leads to, if nothing is cut off. -/
def whole (s : Selection) (w : Walk α) : List (Element α) := w.passed.reverse ++ w.toCome s

theorem toCome_of_shard_nil (passed ahead : List (Element α)) :
    toCome s ⟨passed, ahead, []⟩ = ahead := by
  unfold toCome
  split
  · cases ahead <;> simp [dropRepeats, mergeDistinct]
  · simp

theorem dropRepeats_of_fresh {passed shard : List (Element α)} {e : Element α}
    (h : ¬ sharesKey passed e) : dropRepeats (passed.head?.map (·.orderKey)) (e :: shard) =
      e :: dropRepeats (some e.orderKey) shard := by
  have hne : passed.head?.map (·.orderKey) ≠ some e.orderKey := by
    cases passed <;> simp_all [sharesKey]
  rw [dropRepeats, if_neg hne]

theorem toCome_pass {passed ahead shard : List (Element α)} {a e : Element α}
    (before : ¬ Element.le s.reverse e a) (hfresh : s.unique → ¬ sharesKey passed e) :
    toCome s ⟨passed, a :: ahead, e :: shard⟩ = a :: toCome s ⟨a :: passed, ahead, e :: shard⟩ := by
  unfold toCome
  split
  · next hu =>
    rw [dropRepeats_of_fresh (hfresh hu)]
    simp only [List.head?_cons, Option.map_some]
    by_cases hkey : a.orderKey = e.orderKey
    · rw [mergeDistinct, if_pos hkey, dropRepeats, if_pos (by rw [hkey]), hkey]
    · have hle : Element.le s.reverse a e := by
        have := Element.le_total s.reverse a e
        simp_all
      rw [mergeDistinct, if_neg hkey, if_pos hle, dropRepeats, if_neg (by simpa using hkey)]
  · rw [List.cons_merge_cons_neg _ _ _ before]

theorem toCome_skip {passed ahead shard : List (Element α)} {e : Element α} (hu : s.unique)
    (behind : sharesKey passed e) :
    toCome s ⟨passed, ahead, e :: shard⟩ = toCome s ⟨passed, ahead, shard⟩ := by
  obtain ⟨a, rest, rfl, hkey⟩ := sharesKey_eq_true.1 behind
  simp [toCome, hu, dropRepeats, hkey]

theorem toCome_meet {passed ahead shard : List (Element α)} {a e : Element α} (hu : s.unique)
    (fresh : ¬ sharesKey passed e) (level : a.orderKey = e.orderKey) :
    toCome s ⟨passed, a :: ahead, e :: shard⟩ = a :: toCome s ⟨a :: passed, ahead, shard⟩ := by
  simp only [toCome, hu, if_true, dropRepeats_of_fresh fresh, List.head?_cons, Option.map_some]
  rw [mergeDistinct, if_pos level, level]

theorem toCome_insert {passed ahead shard : List (Element α)} {e : Element α}
    (inFront : ∀ a ∈ ahead.head?, Element.le s.reverse e a)
    (fresh : s.unique → ¬ sharesKey passed e ∧ ¬ sharesKey ahead e) :
    toCome s ⟨passed, ahead, e :: shard⟩ = e :: toCome s ⟨e :: passed, ahead, shard⟩ := by
  unfold toCome
  split
  · next hu =>
    rw [dropRepeats_of_fresh (fresh hu).1]
    cases ahead with
    | nil => simp [mergeDistinct]
    | cons a ahead =>
      have hkey : a.orderKey ≠ e.orderKey := by simpa [sharesKey] using (fresh hu).2
      have hea := Element.before_of_le (inFront a rfl) hkey.symm
      have hle : ¬ Element.le s.reverse a e := fun hle => Element.not_before_of_le hle hea
      rw [mergeDistinct, if_neg hkey, if_neg hle]
      rfl
  · cases ahead with
    | nil => simp
    | cons a ahead => rw [List.cons_merge_cons_pos _ _ _ (inFront a rfl)]

/-- What is cut off ahead does not show in front of the cut. -/
theorem take_toCome_take (n : Nat) (passed ahead shard : List (Element α)) :
    (toCome s ⟨passed, ahead.take n, shard⟩).take n = (toCome s ⟨passed, ahead, shard⟩).take n := by
  unfold toCome
  split
  · exact Current.take_mergeDistinct_take_left _ _ _
  · exact StableSort.take_merge_take_right _ _ _

variable {trimmed : Bool} {w w' : Walk α}

/-- No order key twice, in distinct mode. -/
def Distinct (s : Selection) (w : Walk α) : Prop := s.unique → Ascending s.reverse w.merged

theorem Step.distinct (h : Step s trimmed w w') (hw : w.InOrder s.reverse) (hd : w.Distinct s) :
    w'.Distinct s := by
  intro hu
  have hasc := hd hu
  cases h with
  | pass before => simpa [Walk.merged] using hasc
  | skip here => exact hasc
  | meet here => simpa [Walk.merged] using hasc
  | @insert passed ahead shard e here fresh =>
    exact pairwise_insert hasc (hw.before_of_behind (fresh hu).1)
      (hw.before_of_inFront here.inFront (fresh hu).2) _

/-- A step changes nothing that is not cut off in the end. -/
theorem Step.take_whole (h : Step s trimmed w w') (hd : w.Distinct s) :
    (w'.whole s).take s.reach = (w.whole s).take s.reach := by
  cases h with
  | @pass passed ahead shard a e before =>
    have hfresh : s.unique → ¬ sharesKey passed e := by
      intro hu hshare
      obtain ⟨p, rest, rfl, hkey⟩ := sharesKey_eq_true.1 hshare
      have hpa := (List.pairwise_append.1 (hd hu)).2.2 p (by simp) a (by simp)
      exact before (Element.le_of_before (hkey ▸ hpa))
    simp [whole, toCome_pass before hfresh]
  | skip here unique behind => rw [whole, whole, toCome_skip unique behind]
  | meet here unique fresh level => simp [whole, toCome_meet unique fresh level]
  | @insert passed ahead shard e here fresh =>
    have hroom : s.reach - (e :: passed).reverse.length = s.reach - passed.length - 1 := by
      simp only [List.length_reverse, List.length_cons]
      omega
    have hwhole : whole s ⟨passed, ahead, e :: shard⟩ = whole s ⟨e :: passed, ahead, shard⟩ := by
      simp [whole, toCome_insert here.inFront fresh]
    rw [hwhole, whole, whole, List.take_append, List.take_append, hroom, take_toCome_take]

/-- A walk that is not kept from going on leaves off with the front of the whole. -/
theorem Stops.merged_eq (h : Stops s false w) (hw : w.Bounded s) :
    w.merged = (w.whole s).take s.reach := by
  have hcut : w.merged = w.merged.take s.reach := (List.take_of_length_le hw).symm
  rw [hcut, merged, whole]
  cases h with
  | done => rw [toCome_of_shard_nil]
  | full hfull =>
    rw [List.take_append_of_le_length (by simpa using hfull),
      List.take_append_of_le_length (by simpa using hfull)]
  | gap ht => cases ht

end Walk

/-! ## The rounds -/

/-- What the paging policy starts a round from, as long as no tail was trimmed. -/
structure Unmarked (s : Selection) (now : Legacy × List (Element α)) : Prop where
  unmarked : now.1.trimmed = false
  offset : now.1.offsetApplied = false
  kept : Kept s now.2
  distinct : s.unique → Ascending s.reverse now.2

variable {now : Legacy × List (Element α)} {slice : ShardSlice α}

theorem trimmed_round (hnow : now.1.trimmed = false) (hslice : slice.tailTrimmed = false) :
    (Legacy.round s now slice).1.trimmed = false := by
  unfold Legacy.round merge
  split
  · exact hnow
  · cases now.2.isEmpty <;> cases slice.elements.getLast? <;> simp [hnow, hslice]

/-- A round merges the shard in and cuts at the reach. -/
theorem Unmarked.round_eq (h : Unmarked s now) (hslice : slice.Whole s.reverse s.unique) :
    (round s now slice).2 = (Walk.toCome s ⟨[], now.2, slice.elements⟩).take s.reach := by
  by_cases hnil : now.2 = []
  · rw [(round_of_nil slice hnil).1, hnil, Walk.toCome]
    split
    · next hu =>
      rw [hu] at hslice
      simp [Current.mergeDistinct, Current.dropRepeats_of_ascending hslice.ascending]
    · simp
  · obtain ⟨w', hsteps, hstops, heq⟩ := round_walk (s := s) slice hnil
    rw [h.unmarked] at hsteps hstops
    have hstart : Walk.InOrder s.reverse ⟨[], now.2, slice.elements⟩ :=
      ⟨h.kept.order, hslice.sorted.ordered, by simp⟩
    obtain ⟨hbounded, -, -, hwhole⟩ : w'.Bounded s ∧ w'.InOrder s.reverse ∧ w'.Distinct s ∧
        (w'.whole s).take s.reach = (Walk.whole s ⟨[], now.2, slice.elements⟩).take s.reach := by
      refine Walk.kept (fun w => w.Bounded s ∧ w.InOrder s.reverse ∧ w.Distinct s ∧
        (w.whole s).take s.reach = (Walk.whole s ⟨[], now.2, slice.elements⟩).take s.reach)
        (fun hstep hkept => ?_) hsteps ⟨h.kept.room, hstart, h.distinct, rfl⟩
      obtain ⟨hb, ho, hd, hw⟩ := hkept
      exact ⟨(hstep.bounded hb).1, hstep.inOrder ho, hstep.distinct ho hd, (hstep.take_whole hd).trans hw⟩
    rw [heq, hstops.merged_eq hbounded, hwhole]
    rfl

theorem Unmarked.round (h : Unmarked s now) (hslice : slice.Whole s.reverse s.unique) :
    Unmarked s (round s now slice) := by
  refine ⟨trimmed_round h.unmarked hslice.untrimmed, (offsetApplied_round slice).trans h.offset,
    (h.kept.round hslice.sorted.ordered).1, fun hu => ?_⟩
  rw [h.round_eq hslice, Walk.toCome, if_pos hu]
  have hasc := Current.ascending_mergeDistinct (h.distinct hu)
    (Current.dropRepeats_none_ascending hslice.sorted.ordered)
  exact hasc.sublist (List.take_sublist _ _)

theorem unmarked_rounds {slices : List (ShardSlice α)} (h : ∀ slice ∈ slices, slice.Whole s.reverse s.unique) :
    Unmarked s (rounds s slices) := by
  induction slices using List.reverseRecOn with
  | nil => exact ⟨rfl, rfl, kept_nil, fun _ => List.Pairwise.nil⟩
  | append_singleton slices slice ih =>
    rw [rounds_append]
    exact (ih fun x hx => h x (by simp [hx])).round (h slice (by simp))

/-- Without a reach the first round breaks off, and with one none does. -/
theorem brokenOff_rounds (s : Selection) (slices : List (ShardSlice α)) :
    (rounds s slices).1.brokenOff ↔ reach? s.offset s.count = none ∧ slices ≠ [] := by
  induction slices using List.reverseRecOn with
  | nil => simp [rounds]
  | append_singleton slices slice ih =>
    have hround : rounds s (slices ++ [slice]) = round s (rounds s slices) slice :=
      rounds_append s slices [slice]
    rw [hround]
    by_cases hnone : reach? s.offset s.count = none
    · simp [round_of_none slice hnone, hnone]
    · have hkeeps : (round s (rounds s slices) slice).1.brokenOff = (rounds s slices).1.brokenOff := by
        rw [round, merge, if_neg hnone]
      rw [hkeeps, ih]
      simp [hnone]

/-- The front of the reference, up to the reach. -/
def reached (s : Selection) (slices : List (ShardSlice α)) : List (Element α) :=
  (reference s.reverse s.unique (slices.map (·.elements))).take s.reach

/-- One more round of the capped merge. -/
theorem reached_append (slices : List (ShardSlice α)) (hslice : Sorted s.reverse slice.elements) :
    reached s (slices ++ [slice]) =
      (Current.uncut s.reverse s.unique (reached s slices) slice.elements).take s.reach := by
  rw [reached, reached, Current.take_uncut_take (Current.settled_reference _ _) hslice.ordered,
    Current.uncut_reference _ _ hslice, List.map_append]
  rfl

/-- **The rounds give the front of the reference**: in distinct mode the very elements, otherwise
elements of the same pairs. -/
theorem rounds_eq (s : Selection) {slices : List (ShardSlice α)}
    (h : ∀ slice ∈ slices, slice.Whole s.reverse s.unique) :
    (s.unique → (rounds s slices).2 = reached s slices) ∧
      (rounds s slices).2.map Element.pair = (reached s slices).map Element.pair := by
  induction slices using List.reverseRecOn with
  | nil => simp [rounds, reached, Current.reference_nil]
  | append_singleton slices slice ih =>
    obtain ⟨hsame, hpairs⟩ := ih fun x hx => h x (by simp [hx])
    have hslice := h slice (by simp)
    have hunmarked : Unmarked s (rounds s slices) :=
      unmarked_rounds fun x hx => h x (by simp [hx])
    have hround : (rounds s (slices ++ [slice])).2 =
        (Walk.toCome s ⟨[], (rounds s slices).2, slice.elements⟩).take s.reach := by
      rw [rounds_append]
      exact hunmarked.round_eq hslice
    rw [hround, reached_append slices hslice.sorted, Walk.toCome, Current.uncut]
    split
    · next hu =>
      have hasc : Ascending s.reverse (reached s slices) := hsame hu ▸ hunmarked.distinct hu
      have heq := Current.dropRepeats_mergeDistinct hasc hslice.sorted.ordered
      rw [hsame hu, heq]
      exact ⟨fun _ => rfl, rfl⟩
    · next hu =>
      refine ⟨fun hu' => absurd hu' hu, ?_⟩
      -- the two merges differ only in which side goes first among equals
      have hreached : Sorted s.reverse (reached s slices) :=
        (sorted_reference _ _).sublist (List.take_sublist _ _)
      have hnow : Sorted s.reverse (rounds s slices).2 := by
        have : ((rounds s slices).2.map Element.pair).Pairwise (pairLe s.reverse · ·) :=
          hpairs ▸ List.pairwise_map.2 hreached
        exact List.pairwise_map.1 this
      have hmerge : ∀ {l r : List (Element α)}, Sorted s.reverse l → Sorted s.reverse r →
          Sorted s.reverse (l.merge r (Element.le s.reverse)) := fun hl hr =>
        List.pairwise_merge (Element.le_trans s.reverse) (Element.le_total s.reverse) _ _ hl hr
      rw [List.map_take, List.map_take]
      refine congrArg _ (Sorted.map_pair_eq (hmerge hslice.sorted hnow)
        (hmerge hreached hslice.sorted) ?_)
      refine ((List.merge_perm_append _).map _).trans (.trans ?_ ((List.merge_perm_append _).map _).symm)
      rw [List.map_append, List.map_append, hpairs]
      exact List.perm_append_comm

end Legacy

/-! ## Merging without a cap -/

namespace Current

/-- The shards merged one after the other, with nothing cut off. -/
def mergeWhole (reverse unique : Bool) (shards : List (List (Element α))) : List (Element α) :=
  shards.foldl (uncut reverse unique) []

theorem mergeWhole_eq (unique : Bool) {shards : List (List (Element α))}
    (h : ∀ shard ∈ shards, Sorted reverse shard) :
    mergeWhole reverse unique shards = reference reverse unique shards := by
  induction shards using List.reverseRecOn with
  | nil => exact (reference_nil reverse unique).symm
  | append_singleton shards shard ih =>
    have hshards := ih fun x hx => h x (by simp [hx])
    rw [mergeWhole] at hshards ⊢
    rw [List.foldl_append, hshards]
    exact uncut_reference unique shards (h shard (by simp))

theorem length_reference_le (unique : Bool) (shards : List (List (Element α))) :
    (reference reverse unique shards).length ≤ shards.flatten.length := by
  cases unique with
  | true =>
    rw [← List.length_map (·.orderKey), map_orderKey_reference, distinctKeys, List.length_mergeSort,
      ← @List.length_map _ _ shards.flatten (·.orderKey)]
    exact (List.dedup_sublist _).length_le
  | false => simp [reference]

/-- With a cap that is large enough for all elements nothing is cut off. -/
theorem mergeAll_of_room (s : Selection) {shards : List (List (Element α))}
    (h : ∀ shard ∈ shards, Sorted s.reverse shard)
    (hroom : shards.flatten.length ≤ s.count.toNat) :
    mergeAll s shards = mergeWhole s.reverse s.unique shards := by
  rw [mergeAll_eq s h, mergeWhole_eq s.unique h]
  exact List.take_of_length_le (Nat.le_trans (length_reference_le _ _) hroom)

end Current

/-! ## Pages -/

/-- Consecutive pieces of a list make up its front. -/
theorem flatMap_range_drop_take {β : Type} (l : List β) (c : Nat) : ∀ m : Nat,
    (List.range m).flatMap (fun i => (l.drop (i * c)).take c) = l.take (m * c)
  | 0 => by simp
  | m + 1 => by
    rw [List.range_succ, List.flatMap_append, flatMap_range_drop_take l c m, Nat.add_mul, Nat.one_mul,
      List.take_add]
    simp

namespace Answer

/-- The answer after these slices have arrived, in this order. -/
def addSlices (a : Answer α) (slices : List (ShardSlice α)) : Answer α := slices.foldl addSlice a

/-- The answer for one page, as it is after its verdict has been asked for `asked + 1` times. -/
def page (count offset : UInt64) (reverse unique : Bool) (slices : List (ShardSlice α))
    (asked : Nat) : Answer α :=
  (fun a => a.conclude.1)^[asked + 1] ((legacy count offset reverse unique).addSlices slices)

theorem conclude_of_verdict {a : Answer α} {verdict : Verdict} (h : a.verdict = some verdict) :
    a.conclude = (a, verdict) := by
  simp [conclude, h]

theorem verdict_conclude (a : Answer α) : a.conclude.1.verdict = some a.conclude.2 := by
  unfold conclude
  cases hv : a.verdict with
  | some verdict => exact hv
  | none => cases a.failure <;> rfl

theorem iterate_conclude (a : Answer α) (asked : Nat) :
    (fun a => a.conclude.1)^[asked + 1] a = a.conclude.1 := by
  induction asked with
  | zero => rfl
  | succ asked ih => rw [Function.iterate_succ_apply', ih, conclude_of_verdict (verdict_conclude a)]

/-- Still gathering under the paging policy, which is at `now`. -/
structure Paging (a : Answer α) (now : Legacy × List (Element α)) : Prop where
  policy : a.policy = .legacy now.1
  merged : a.merged = now.2
  failure : a.failure = none
  verdict : a.verdict = none

theorem Paging.addSlices {slices : List (ShardSlice α)} : ∀ {a : Answer α}
    {now : Legacy × List (Element α)}, a.Paging now →
    (a.addSlices slices).Paging (slices.foldl (Legacy.round a.selection) now) ∧
      (a.addSlices slices).selection = a.selection := by
  induction slices with
  | nil => exact fun h => ⟨h, rfl⟩
  | cons slice slices ih =>
    intro a now h
    have hopen : ¬ a.isFailed := by simp [isFailed, h.failure]
    have hstep : a.addSlice slice = { a with
        missed := a.missed ++ slice.missed
        trimmed := a.trimmed ++ slice.trimmed
        policy := .legacy (Legacy.round a.selection now slice).1
        merged := (Legacy.round a.selection now slice).2 } := by
      rw [addSlice, if_neg hopen]
      simp only [mergeElements, h.policy, h.merged, Legacy.round]
    have hnext : (a.addSlice slice).Paging (Legacy.round a.selection now slice) := by
      rw [hstep]
      exact ⟨rfl, rfl, h.failure, h.verdict⟩
    have hselection : (a.addSlice slice).selection = a.selection := by rw [hstep]
    have := ih hnext
    rw [hselection] at this
    exact this

theorem Paging.conclude {a : Answer α} {now : Legacy × List (Element α)} (h : a.Paging now)
    (hoffset : now.1.offsetApplied = false) :
    a.conclude.1.merged = now.2.drop a.selection.offset.toNat := by
  simp [Answer.conclude, h.verdict, h.failure, finishMerge, h.policy, h.merged, Legacy.finish,
    hoffset, refineTrimmed_merged]

theorem isBrokenOff_conclude (a : Answer α) : a.conclude.1.isBrokenOff = a.isBrokenOff := by
  have hfinish : a.finishMerge.isBrokenOff = a.isBrokenOff := by
    unfold finishMerge
    cases hpolicy : a.policy with
    | current => rfl
    | legacy state =>
      simp only [isBrokenOff, hpolicy, Legacy.finish]
      split <;> rfl
  unfold conclude
  cases a.verdict with
  | some verdict => rfl
  | none =>
    cases a.failure with
    | some failure => rfl
    | none =>
      rw [← hfinish, refineTrimmed_eq]
      rfl

variable {slices : List (ShardSlice α)}

theorem merged_current (count : UInt64) (unique : Bool)
    (h : ∀ slice ∈ slices, Sorted reverse slice.elements) :
    ((current count reverse unique).addSlices slices).conclude.1.merged =
      (reference reverse unique (slices.map (·.elements))).take count.toNat := by
  have hgather : (current count reverse unique).addSlices slices =
      (current count reverse unique).gather (slices.map fun slice => ⟨[], slice⟩) := by
    rw [gather, List.foldl_map, addSlices]
  obtain ⟨hg, -, hm, -⟩ := @Gathering.gather α (slices.map fun slice => ⟨[], slice⟩) _
    (gathering_current count reverse unique)
  rw [hgather, hg.conclude.1, hm, List.map_map]
  refine Current.mergeAll_eq ⟨count, 0, reverse, unique⟩ fun shard hshard => ?_
  obtain ⟨slice, hslice, rfl⟩ := List.mem_map.1 hshard
  exact h slice hslice

theorem merged_legacy (count offset : UInt64) (unique : Bool) (asked : Nat)
    (h : ∀ slice ∈ slices, slice.Whole reverse unique) :
    (page count offset reverse unique slices asked).merged.map Element.pair =
      (((reference reverse unique (slices.map (·.elements))).map Element.pair).take
        (Selection.reach ⟨count, offset, reverse, unique⟩)).drop offset.toNat := by
  obtain ⟨hpaging, hselection⟩ := @Paging.addSlices α slices
    (legacy count offset reverse unique) ({}, []) ⟨rfl, rfl, rfl, rfl⟩
  have hrounds := Legacy.rounds_eq ⟨count, offset, reverse, unique⟩ h
  have hunmarked := Legacy.unmarked_rounds (s := ⟨count, offset, reverse, unique⟩) h
  rw [page, iterate_conclude, hpaging.conclude hunmarked.offset, hselection, List.map_drop]
  have hpairs := hrounds.2
  rw [Legacy.reached, List.map_take] at hpairs
  exact congrArg _ hpairs

/-- Offset and count are added up when a shard answers, and if they do not fit, that is as far as it
gets. -/
theorem isBrokenOff_addSlices (count offset : UInt64) (reverse unique : Bool)
    (slices : List (ShardSlice α)) :
    ((legacy count offset reverse unique).addSlices slices).isBrokenOff ↔
      UInt64.size ≤ offset.toNat + count.toNat ∧ slices ≠ [] := by
  obtain ⟨hpaging, -⟩ := @Paging.addSlices α slices
    (legacy count offset reverse unique) ({}, []) ⟨rfl, rfl, rfl, rfl⟩
  rw [isBrokenOff, hpaging.policy, ← reach?_eq_none_iff]
  exact Legacy.brokenOff_rounds ⟨count, offset, reverse, unique⟩ slices

theorem isBrokenOff_page (count offset : UInt64) (reverse unique : Bool) (slices : List (ShardSlice α))
    (asked : Nat) : (page count offset reverse unique slices asked).isBrokenOff ↔
      UInt64.size ≤ offset.toNat + count.toNat ∧ slices ≠ [] := by
  rw [page, iterate_conclude, isBrokenOff_conclude, isBrokenOff_addSlices]

/-- **An answer is a page of the whole.** When all shards have answered in full, and offset and count
fit into a machine word together, the pairs of the answer are the `count` ones from `offset` on of what
a merge without a cap gives, or one whose cap leaves room for all elements. If they do not fit, the
merging breaks off at the first shard that answers, and nothing is merged. So pages one behind the other
make up the front of the whole, which in duplicate mode is everything, sorted; and the first page is the
answer under the current policy. -/
theorem merged_page (count : UInt64) (reverse unique : Bool) (slices : List (ShardSlice α))
    (h : ∀ slice ∈ slices, slice.Whole reverse unique) :
    let whole := (Current.mergeWhole reverse unique (slices.map (·.elements))).map Element.pair
    let pairs := fun offset asked =>
      (page count offset reverse unique slices asked).merged.map Element.pair
    (∀ offset asked, pairs offset asked = if offset.toNat + count.toNat < UInt64.size then
      (whole.drop offset.toNat).take count.toNat else []) ∧
    (∀ offset asked, (page count offset reverse unique slices asked).isBrokenOff ↔
      UInt64.size ≤ offset.toNat + count.toNat ∧ slices ≠ []) ∧
    (∀ cap : UInt64, (slices.flatMap (·.elements)).length ≤ cap.toNat → whole =
      (Current.mergeAll ⟨cap, 0, reverse, unique⟩ (slices.map (·.elements))).map Element.pair) ∧
    (∀ m asked, m * count.toNat < UInt64.size →
      (List.range m).flatMap (fun i => pairs (.ofNat (i * count.toNat)) asked) =
        whole.take (m * count.toNat)) ∧
    (unique = false → whole =
      ((slices.flatMap (·.elements)).mergeSort (Element.le reverse)).map Element.pair) ∧
    ∀ asked, pairs 0 asked =
      ((current count reverse unique).addSlices slices).conclude.1.merged.map Element.pair := by
  intro whole pairs
  have hsorted : ∀ shard ∈ slices.map (·.elements), Sorted reverse shard := by
    intro shard hshard
    obtain ⟨slice, hslice, rfl⟩ := List.mem_map.1 hshard
    exact (h slice hslice).sorted
  have hwhole : whole = (reference reverse unique (slices.map (·.elements))).map Element.pair :=
    congrArg _ (Current.mergeWhole_eq unique hsorted)
  have hpage : ∀ offset asked, pairs offset asked = if offset.toNat + count.toNat < UInt64.size then
      (whole.drop offset.toNat).take count.toNat else [] := by
    intro offset asked
    have hpairs : pairs offset asked =
        (whole.take (Selection.reach ⟨count, offset, reverse, unique⟩)).drop offset.toNat := by
      rw [hwhole]
      exact merged_legacy count offset unique asked h
    rw [hpairs]
    split
    · next hfits => rw [Selection.reach_of_fits hfits, List.drop_take, Nat.add_sub_cancel_left]
    · next hlarge =>
      rw [Selection.reach_of_none (reach?_eq_none_iff.2 (Nat.not_lt.1 hlarge)), List.take_zero,
        List.drop_nil]
  refine ⟨hpage, fun offset asked => isBrokenOff_page count offset reverse unique slices asked,
    fun cap hroom => ?_, fun m asked hm => ?_, fun hu => ?_, fun asked => ?_⟩
  · rw [List.flatMap_def] at hroom
    rw [Current.mergeAll_of_room ⟨cap, 0, reverse, unique⟩ hsorted hroom]
  · rw [← flatMap_range_drop_take]
    refine List.flatMap_congr fun i hi => ?_
    have hi : (i + 1) * count.toNat ≤ m * count.toNat :=
      Nat.mul_le_mul_right _ (List.mem_range.1 hi)
    rw [Nat.add_mul, Nat.one_mul] at hi
    have hoffset : (UInt64.ofNat (i * count.toNat)).toNat = i * count.toNat :=
      UInt64.toNat_ofNat_of_lt' (by omega)
    rw [hpage, hoffset, if_pos (by omega)]
  · rw [hwhole, hu, reference, if_neg (by simp), List.flatMap_def]
  · have hzero := hpage 0 asked
    rw [if_pos (by simpa using count.toNat_lt)] at hzero
    rw [hzero, merged_current count unique fun slice hslice => (h slice hslice).sorted, hwhole,
      List.map_take]
    rfl

/-- The second of two pages, from two shards. -/
theorem merged_page_of_two_shards :
    let slices : List (ShardSlice Nat) :=
      [{ elements := [⟨"a", .number 1, 0⟩, ⟨"a", .number 4, 1⟩] },
        { elements := [⟨"b", .number 1, 2⟩, ⟨"b", .number 3, 3⟩, ⟨"b", .number 5, 4⟩] }]
    (∀ slice ∈ slices, slice.Whole false false) ∧
    (page 2 2 false false slices 1).merged.map Element.pair =
      (((Current.mergeWhole false false (slices.map (·.elements))).map Element.pair).drop 2).take 2 ∧
    (page 2 2 false false slices 1).merged = [⟨"b", .number 3, 3⟩, ⟨"a", .number 4, 1⟩] := by
  intro slices
  have h : ∀ slice ∈ slices, slice.Whole false false := by
    simp only [slices, List.forall_mem_cons, List.not_mem_nil, false_imp_iff, forall_true_iff, and_true]
    exact ⟨⟨by simp only [Sorted]; decide, rfl, by simp⟩, ⟨by simp only [Sorted]; decide, rfl, by simp⟩⟩
  exact ⟨h, (merged_page 2 false false slices h).1 2 1, by cbv⟩

/-- Offset and count do not fit into a machine word together: the merging breaks off, and the page is
empty though there is an element past the offset. -/
theorem merged_page_of_overflow :
    let slices : List (ShardSlice Nat) :=
      [{ elements := [⟨"a", .number 1, 0⟩, ⟨"a", .number 2, 1⟩] }]
    (∀ slice ∈ slices, slice.Whole false false) ∧
    (page 18446744073709551615 1 false false slices 0).isBrokenOff ∧
    (page 18446744073709551615 1 false false slices 0).merged = [] ∧
    (((Current.mergeWhole false false (slices.map (·.elements))).map Element.pair).drop 1).take
      18446744073709551615 = [(.number 2, "a")] := by
  intro slices
  refine ⟨?_, by cbv, by cbv, by cbv⟩
  simp only [slices, List.forall_mem_cons, List.not_mem_nil, false_imp_iff, forall_true_iff, and_true]
  exact ⟨by simp only [Sorted]; decide, rfl, by simp⟩

end Answer

end ShardedCache.SortedGet

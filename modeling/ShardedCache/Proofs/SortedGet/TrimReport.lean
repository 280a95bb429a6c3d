import ShardedCache.Proofs.SortedGet.Current
import ShardedCache.SortedGet.Answer
import Mathlib.Data.List.Permutation

/-!
# An empty trim report

Each requested collection is `full` somewhere, and the shard that has it may show less of it, if it
says where it stopped: then nothing is missing before the trim mark. A shard answers with the front
of what it shows. If no trim mark is left when the answer is concluded, the answer is the front of
the full collections all the same (`conclude_of_no_trimmed`): either nothing was missing, or the
answer is full and everything that was missing stands past its last element.
-/

namespace ShardedCache.SortedGet

open OrderKey (compareIn Before)

variable {α : Type} {reverse : Bool}

/-! ## What shards show -/

/-- What is shown of a collection that was trimmed at `mark`: all of it, or all but some elements at
or past the mark. -/
inductive TrimmedAt (reverse : Bool) (mark : OrderKey) :
    (full shown : List (Element α)) → Prop where
  | nil : TrimmedAt reverse mark [] []
  | kept {full shown : List (Element α)} (e : Element α) (h : TrimmedAt reverse mark full shown) :
    TrimmedAt reverse mark (e :: full) (e :: shown)
  | missed {full shown : List (Element α)} {e : Element α} (past : ¬ Before reverse e.orderKey mark)
    (h : TrimmedAt reverse mark full shown) : TrimmedAt reverse mark (e :: full) shown

/-- The elements of some collections in order; in distinct mode the first for each order key. -/
def inOrder (reverse unique : Bool) (elements : List (Element α)) : List (Element α) :=
  let sorted := elements.mergeSort (Element.le reverse)
  if unique then Current.dropRepeats none sorted else sorted

/-- One shard's part in a query: the collections asked of it, and its answer. -/
structure Part (α : Type) where
  asked : List String
  slice : ShardSlice α

/-- The answer is the front of what the shard shows, and what it does not show it reports. -/
def Part.Honest (s : Selection) (full : String → List (Element α)) (p : Part α)
    (shown : String → List (Element α)) : Prop :=
  p.slice.elements = (inOrder s.reverse s.unique (p.asked.flatMap shown)).take s.count.toNat ∧
    ∀ k ∈ p.asked, shown k = full k ∨
      ∃ mark ∈ p.slice.trimmed, mark.key = k ∧ TrimmedAt s.reverse mark.orderKey (full k) (shown k)

/-- Up to an order key before the mark nothing is missing. -/
theorem TrimmedAt.filter_eq {mark last : OrderKey} {full shown : List (Element α)}
    (h : TrimmedAt reverse mark full shown) (hlast : Before reverse last mark) :
    shown.filter (fun e => ¬ Before reverse last e.orderKey) =
      full.filter (fun e => ¬ Before reverse last e.orderKey) := by
  induction h with
  | nil => rfl
  | kept e h ih => rw [List.filter_cons, List.filter_cons, ih]
  | missed past h ih =>
    rw [ih, List.filter_cons, if_neg (by simpa using hlast.trans_not past)]

/-! ## Gathering the answers -/

namespace Answer

/-- The answer after the shards have answered, in this order. -/
def gather (a : Answer α) (parts : List (Part α)) : Answer α :=
  parts.foldl (fun a p => a.addSlice p.slice) a

/-- Still gathering under the current policy: nothing has failed and nothing is settled. -/
structure Gathering (a : Answer α) : Prop where
  policy : a.policy = .current
  failure : a.failure = none
  verdict : a.verdict = none

theorem gathering_current (count : UInt64) (reverse unique : Bool) :
    (current count reverse unique : Answer α).Gathering := ⟨rfl, rfl, rfl⟩

theorem Gathering.addSlice_eq {a : Answer α} (h : a.Gathering) (slice : ShardSlice α) :
    a.addSlice slice = { a with
      missed := a.missed ++ slice.missed
      trimmed := a.trimmed ++ slice.trimmed
      merged := Current.merge a.selection a.merged slice.elements } := by
  simp [addSlice, isFailed, h.failure, mergeElements, h.policy]

theorem Gathering.gather : ∀ {parts : List (Part α)} {a : Answer α}, a.Gathering →
    (a.gather parts).Gathering ∧ (a.gather parts).selection = a.selection ∧
      (a.gather parts).merged =
        (parts.map (·.slice.elements)).foldl (Current.merge a.selection) a.merged ∧
      (a.gather parts).trimmed = a.trimmed ++ parts.flatMap (·.slice.trimmed)
  | [], a, h => by simpa [Answer.gather] using h
  | p :: parts, a, h => by
    have hadd := h.addSlice_eq p.slice
    have hnext : (a.addSlice p.slice).Gathering := by
      rw [hadd]
      exact ⟨h.policy, h.failure, h.verdict⟩
    obtain ⟨hg, hs, hm, ht⟩ := @Gathering.gather parts _ hnext
    have hstep : a.gather (p :: parts) = (a.addSlice p.slice).gather parts := rfl
    rw [hstep]
    refine ⟨hg, ?_, ?_, ?_⟩
    · rw [hs, hadd]
    · rw [hm, hadd]
      rfl
    · rw [ht, hadd]
      simp

/-- Only the trim marks change. -/
theorem refineTrimmed_eq (a : Answer α) :
    a.refineTrimmed = { a with trimmed := a.refineTrimmed.trimmed } := by
  unfold refineTrimmed
  dsimp only
  split
  · split <;> rfl
  · rfl

theorem refineTrimmed_merged (a : Answer α) : a.refineTrimmed.merged = a.merged := by
  rw [refineTrimmed_eq]

theorem Gathering.conclude {a : Answer α} (h : a.Gathering) :
    a.conclude.1.merged = a.merged ∧ a.conclude.1.trimmed = a.refineTrimmed.trimmed := by
  simp [Answer.conclude, h.verdict, h.failure, finishMerge, h.policy, refineTrimmed_merged]

theorem isBeyond_iff {last : OrderKey} {mark : TrimMark} :
    isBeyond reverse last mark ↔ Before reverse last mark.orderKey := by
  unfold isBeyond Before compareIn
  rw [Std.OrientedOrd.eq_swap (a := mark.orderKey)]
  cases reverse <;> cases compare last mark.orderKey <;> simp

/-- No trim mark is left: there was none, or the answer is full and all of them lie past its end. -/
theorem refineTrimmed_eq_nil {a : Answer α} (h : a.refineTrimmed.trimmed = []) :
    a.trimmed = [] ∨ ∃ last, a.merged.getLast? = some last ∧
      a.selection.count.toNat ≤ a.merged.length ∧
      ∀ mark ∈ a.trimmed, Before a.selection.reverse last.orderKey mark.orderKey := by
  have hnil : a.trimmed.mergeSort (TrimMark.le a.selection.reverse) = [] → a.trimmed = [] :=
    fun h => List.Perm.nil_eq (h ▸ List.mergeSort_perm _ _) |>.symm
  unfold refineTrimmed at h
  dsimp only at h
  split at h
  · next last hlast =>
    split at h
    · exact .inl (hnil h)
    · next hfull =>
      refine .inr ⟨last, hlast, Nat.le_of_not_lt hfull, fun mark hmark => ?_⟩
      have := List.filter_eq_nil_iff.1 h mark ((List.mem_mergeSort).2 hmark)
      rw [← isBeyond_iff]
      simpa using this
  · exact .inl (hnil h)

end Answer

/-! ## What the shards show, merged -/

theorem sorted_inOrder (unique : Bool) (l : List (Element α)) :
    Sorted reverse (inOrder reverse unique l) := by
  have h : Sorted reverse (l.mergeSort (Element.le reverse)) :=
    List.pairwise_mergeSort (Element.le_trans reverse) (Element.le_total reverse) l
  unfold inOrder
  split
  · exact (Current.dropRepeats_none_ascending h.ordered).sorted
  · exact h

theorem settled_inOrder (unique : Bool) (l : List (Element α)) :
    Current.Settled reverse unique (inOrder reverse unique l) := by
  rintro rfl
  exact Current.dropRepeats_none_ascending
    (List.pairwise_mergeSort (Element.le_trans reverse) (Element.le_total reverse) l
      |> Sorted.ordered)

theorem mem_orderKeys_inOrder {unique : Bool} {l : List (Element α)} {k : OrderKey} :
    (∃ a ∈ inOrder reverse unique l, a.orderKey = k) ↔ ∃ a ∈ l, a.orderKey = k := by
  have h : Sorted reverse (l.mergeSort (Element.le reverse)) :=
    List.pairwise_mergeSort (Element.le_trans reverse) (Element.le_total reverse) l
  cases unique with
  | false => simp [inOrder]
  | true =>
    have hnone := Current.firstWith_dropRepeats_none k h.ordered
    have hiff : ∀ l : List (Element α), (∃ a ∈ l, a.orderKey = k) ↔ firstWith k l ≠ none := by
      intro l
      rw [Ne, firstWith_eq_none]
      simp
    rw [hiff, inOrder, if_pos rfl, hnone, ← hiff]
    simp

namespace Current

/-- A shard may cut its own list where the merge will cut. -/
theorem merge_take (s : Selection) {merged shard : List (Element α)}
    (hmerged : Settled s.reverse s.unique merged) (hshard : Settled s.reverse s.unique shard) :
    merge s merged (shard.take s.count.toNat) = merge s merged shard := by
  rw [merge_eq, merge_eq, uncut, uncut]
  split
  · next hu =>
    have hcut : Ascending s.reverse (shard.take s.count.toNat) := hshard.take _ hu
    rw [dropRepeats_of_ascending (ascending_mergeDistinct (hmerged hu) hcut),
      dropRepeats_of_ascending (ascending_mergeDistinct (hmerged hu) (hshard hu)),
      take_mergeDistinct_take_right]
  · exact StableSort.take_merge_take_right _ _ _

theorem settled_merge (s : Selection) {merged shard : List (Element α)}
    (hmerged : Settled s.reverse s.unique merged) (hshard : Settled s.reverse s.unique shard) :
    Settled s.reverse s.unique (merge s merged shard) := by
  intro hu
  have hasc := ascending_mergeDistinct (hmerged hu) (hshard hu)
  rw [merge_eq, uncut, if_pos hu, dropRepeats_of_ascending hasc]
  exact hasc.sublist (List.take_sublist _ _)

theorem foldl_merge_map_take (s : Selection) : ∀ {shards : List (List (Element α))}
    {merged : List (Element α)}, Settled s.reverse s.unique merged →
    (∀ shard ∈ shards, Settled s.reverse s.unique shard) →
    (shards.map (·.take s.count.toNat)).foldl (merge s) merged = shards.foldl (merge s) merged
  | [], _, _, _ => rfl
  | shard :: shards, merged, hmerged, h => by
    have hshard := h shard (by simp)
    rw [List.map_cons, List.foldl_cons, List.foldl_cons, merge_take s hmerged hshard]
    exact foldl_merge_map_take s (settled_merge s hmerged hshard) fun x hx => h x (by simp [hx])

/-- Shards that answer with the front of what they have make the front of what they have
together. -/
theorem foldl_merge_inOrder (s : Selection) (shown : List (List (Element α))) :
    (shown.map fun l => (inOrder s.reverse s.unique l).take s.count.toNat).foldl (merge s) [] =
      (reference s.reverse s.unique (shown.map (inOrder s.reverse s.unique))).take
        s.count.toNat := by
  have hmap : (shown.map fun l => (inOrder s.reverse s.unique l).take s.count.toNat) =
      (shown.map (inOrder s.reverse s.unique)).map (·.take s.count.toNat) := by simp
  have hnil : Settled s.reverse s.unique ([] : List (Element α)) := fun _ => List.Pairwise.nil
  rw [hmap, foldl_merge_map_take s hnil (by simp [settled_inOrder])]
  exact mergeAll_eq s (by simp [sorted_inOrder])

end Current

theorem reference_inOrder_of_all (shown : List (List (Element α))) :
    reference reverse false (shown.map (inOrder reverse false)) =
      shown.flatten.mergeSort (Element.le reverse) := by
  rw [reference, if_neg (by simp)]
  refine StableSort.mergeSort_congr (Element.le_trans reverse) (Element.le_total reverse) fun a => ?_
  rw [List.filter_flatten, List.filter_flatten, List.map_map]
  congr 1
  refine List.map_congr_left fun l _ => ?_
  exact StableSort.filter_level_mergeSort (Element.le_trans reverse) (Element.le_total reverse) l a

theorem distinctKeys_congr {l₁ l₂ : List (Element α)}
    (h : ∀ k, (∃ a ∈ l₁, a.orderKey = k) ↔ ∃ a ∈ l₂, a.orderKey = k) :
    distinctKeys reverse l₁ = distinctKeys reverse l₂ := by
  have h₁ := @pairwise_distinctKeys α reverse l₁
  have h₂ := @pairwise_distinctKeys α reverse l₂
  refine List.Perm.eq_of_pairwise (fun _ _ _ _ hab hba => absurd hba hab.asymm) h₁ h₂ ?_
  refine (List.perm_ext_iff_of_nodup (h₁.imp Before.ne) (h₂.imp Before.ne)).2 fun k => ?_
  rw [mem_distinctKeys, mem_distinctKeys, h k]

theorem orderKeys_reference_inOrder (shown : List (List (Element α))) :
    (reference reverse true (shown.map (inOrder reverse true))).map (·.orderKey) =
      distinctKeys reverse shown.flatten := by
  rw [map_orderKey_reference]
  refine distinctKeys_congr fun k => ?_
  have := @mem_orderKeys_inOrder α reverse true
  simp only [List.mem_flatten, List.mem_map, exists_exists_and_eq_and]
  constructor
  · rintro ⟨a, ⟨l, hl, ha⟩, hk⟩
    obtain ⟨b, hb, hbk⟩ := this.1 ⟨a, ha, hk⟩
    exact ⟨b, ⟨l, hl, hb⟩, hbk⟩
  · rintro ⟨a, ⟨l, hl, ha⟩, hk⟩
    obtain ⟨b, hb, hbk⟩ := this.2 ⟨a, ha, hk⟩
    exact ⟨b, ⟨l, hl, hb⟩, hbk⟩

/-! ## What is missing lies past the end -/

/-- Lists that agree up to an order key behind the first `n` elements of one of them have the same
first `n` elements in order. -/
theorem take_mergeSort_of_agree {last : OrderKey} {n : Nat} {l₁ l₂ : List (Element α)}
    (hagree : l₁.filter (fun e => ¬ Before reverse last e.orderKey) =
      l₂.filter fun e => ¬ Before reverse last e.orderKey)
    (hn : n ≤ l₁.length)
    (hlast : ∀ e ∈ (l₁.mergeSort (Element.le reverse)).take n, ¬ Before reverse last e.orderKey) :
    (l₁.mergeSort (Element.le reverse)).take n = (l₂.mergeSort (Element.le reverse)).take n := by
  have hfront : ∀ l : List (Element α), (l.mergeSort (Element.le reverse)).Pairwise
      fun a b => decide (¬ Before reverse last b.orderKey) →
        decide (¬ Before reverse last a.orderKey) := by
    intro l
    refine (List.pairwise_mergeSort (Element.le_trans reverse) (Element.le_total reverse) l).imp ?_
    intro a b hab
    simp only [decide_eq_true_eq]
    exact fun hb ha => hb (ha.trans_not (Element.not_before_of_le hab))
  refine StableSort.take_eq_of_filter_eq (hfront l₁) (hfront l₂) ?_ ?_
  · rw [StableSort.filter_mergeSort (Element.le_trans reverse) (Element.le_total reverse),
      StableSort.filter_mergeSort (Element.le_trans reverse) (Element.le_total reverse), hagree]
  · refine StableSort.le_length_filter (by simpa using hn) fun e he => ?_
    simpa using hlast e he

theorem take_distinctKeys_of_agree {last : OrderKey} {n : Nat} {l₁ l₂ : List (Element α)}
    (hagree : l₁.filter (fun e => ¬ Before reverse last e.orderKey) =
      l₂.filter fun e => ¬ Before reverse last e.orderKey)
    (hn : n ≤ (distinctKeys reverse l₁).length)
    (hlast : ∀ k ∈ (distinctKeys reverse l₁).take n, ¬ Before reverse last k) :
    (distinctKeys reverse l₁).take n = (distinctKeys reverse l₂).take n := by
  have hfront : ∀ l : List (Element α), (distinctKeys reverse l).Pairwise
      fun a b => decide (¬ Before reverse last b) → decide (¬ Before reverse last a) := by
    intro l
    refine (pairwise_distinctKeys l).imp fun {a b} hab => ?_
    simp only [decide_eq_true_eq]
    exact fun hb ha => hb (ha.trans hab)
  have hmem : ∀ (l : List (Element α)) k, k ∈ (distinctKeys reverse l).filter
      (fun k => ¬ Before reverse last k) ↔
        ∃ e ∈ l.filter fun e => ¬ Before reverse last e.orderKey, e.orderKey = k := by
    intro l k
    simp only [List.mem_filter, mem_distinctKeys, decide_eq_true_eq]
    constructor
    · rintro ⟨⟨e, he, rfl⟩, hk⟩
      exact ⟨e, ⟨he, hk⟩, rfl⟩
    · rintro ⟨e, ⟨he, hk⟩, rfl⟩
      exact ⟨⟨e, he, rfl⟩, hk⟩
  refine StableSort.take_eq_of_filter_eq (hfront l₁) (hfront l₂) ?_ ?_
  · have h₁ := (@pairwise_distinctKeys α reverse l₁).filter fun k => ¬ Before reverse last k
    have h₂ := (@pairwise_distinctKeys α reverse l₂).filter fun k => ¬ Before reverse last k
    refine List.Perm.eq_of_pairwise (fun _ _ _ _ hab hba => absurd hba hab.asymm) h₁ h₂ ?_
    refine (List.perm_ext_iff_of_nodup (h₁.imp Before.ne) (h₂.imp Before.ne)).2 fun k => ?_
    rw [hmem, hmem, hagree]
  · refine StableSort.le_length_filter hn fun k hk => ?_
    simpa using hlast k hk

/-! ## Collections in any order -/

/-- Of labelled collections only the one with the right label has elements level with `a`. -/
theorem filter_level_flatMap (full : String → List (Element α)) (a : Element α) :
    ∀ {keys : List String}, keys.Nodup → (∀ k ∈ keys, ∀ e ∈ full k, e.key = k) →
      (keys.flatMap full).filter (StableSort.level (Element.le reverse) a) =
        if a.key ∈ keys then (full a.key).filter (StableSort.level (Element.le reverse) a) else []
  | [], _, _ => rfl
  | k :: keys, hnodup, hfull => by
    rw [List.nodup_cons] at hnodup
    rw [List.flatMap_cons, List.filter_append,
      filter_level_flatMap full a hnodup.2 fun k hk => hfull k (by simp [hk])]
    by_cases hk : a.key = k
    · subst hk
      simp [hnodup.1]
    · have hnone : (full k).filter (StableSort.level (Element.le reverse) a) = [] := by
        refine List.filter_eq_nil_iff.2 fun e he hlevel => hk ?_
        exact (Element.key_eq_of_level hlevel).trans (hfull k (by simp) e he)
      simp [hnone, hk]

theorem mergeSort_flatMap_perm {full : String → List (Element α)} {keys keys' : List String}
    (hperm : keys.Perm keys') (hnodup : keys.Nodup)
    (hfull : ∀ k ∈ keys, ∀ e ∈ full k, e.key = k) :
    (keys.flatMap full).mergeSort (Element.le reverse) =
      (keys'.flatMap full).mergeSort (Element.le reverse) := by
  refine StableSort.mergeSort_congr (Element.le_trans reverse) (Element.le_total reverse) fun a => ?_
  rw [filter_level_flatMap full a hnodup hfull,
    filter_level_flatMap full a (hperm.nodup_iff.1 hnodup) fun k hk => hfull k (hperm.mem_iff.2 hk)]
  simp only [hperm.mem_iff]

/-! ## An answer that leaves no mark -/

section Gathered

variable {s : Selection} {full : String → List (Element α)} {parts : List (Part α)}
  {shown : Part α → String → List (Element α)}

/-- All that is shown to the query. -/
def shownElements (parts : List (Part α)) (shown : Part α → String → List (Element α)) :
    List (Element α) := parts.flatMap fun p => p.asked.flatMap (shown p)

/-- Up to an order key before all marks nothing is missing. -/
theorem shown_agrees (hparts : ∀ p ∈ parts, p.Honest s full (shown p)) {last : OrderKey}
    (hmarks : ∀ mark ∈ parts.flatMap (·.slice.trimmed), Before s.reverse last mark.orderKey) :
    (shownElements parts shown).filter (fun e => ¬ Before s.reverse last e.orderKey) =
      ((parts.flatMap (·.asked)).flatMap full).filter
        fun e => ¬ Before s.reverse last e.orderKey := by
  rw [List.flatMap_assoc, shownElements, List.filter_flatMap, List.filter_flatMap]
  refine List.flatMap_congr fun p hp => ?_
  rw [List.filter_flatMap, List.filter_flatMap]
  refine List.flatMap_congr fun k hk => ?_
  rcases (hparts p hp).2 k hk with heq | ⟨mark, hmark, -, htrim⟩
  · rw [heq]
  · exact htrim.filter_eq (hmarks mark (List.mem_flatMap.2 ⟨p, hp, hmark⟩))

theorem shown_complete (hparts : ∀ p ∈ parts, p.Honest s full (shown p))
    (hmarks : parts.flatMap (·.slice.trimmed) = []) :
    shownElements parts shown = (parts.flatMap (·.asked)).flatMap full := by
  rw [List.flatMap_assoc]
  refine List.flatMap_congr fun p hp => List.flatMap_congr fun k hk => ?_
  rcases (hparts p hp).2 k hk with heq | ⟨mark, hmark, -⟩
  · exact heq
  · have : mark ∈ parts.flatMap (·.slice.trimmed) := List.mem_flatMap.2 ⟨p, hp, hmark⟩
    simp [hmarks] at this

/-- What is gathered is the front of what the shards show together. -/
theorem gather_merged (hparts : ∀ p ∈ parts, p.Honest s full (shown p)) :
    (parts.map (·.slice.elements)).foldl (Current.merge s) [] =
      (reference s.reverse s.unique ((parts.map fun p => p.asked.flatMap (shown p)).map
        (inOrder s.reverse s.unique))).take s.count.toNat := by
  rw [← Current.foldl_merge_inOrder s, List.map_map]
  congr 1
  exact List.map_congr_left fun p hp => (hparts p hp).1

theorem gather_merged_of_all (hparts : ∀ p ∈ parts, p.Honest s full (shown p))
    (hu : s.unique = false) :
    (parts.map (·.slice.elements)).foldl (Current.merge s) [] =
      ((shownElements parts shown).mergeSort (Element.le s.reverse)).take s.count.toNat := by
  rw [gather_merged hparts, hu, reference_inOrder_of_all, shownElements, List.flatMap_def]

theorem gather_orderKeys (hparts : ∀ p ∈ parts, p.Honest s full (shown p))
    (hu : s.unique = true) :
    ((parts.map (·.slice.elements)).foldl (Current.merge s) []).map (·.orderKey) =
      (distinctKeys s.reverse (shownElements parts shown)).take s.count.toNat := by
  rw [gather_merged hparts, hu, List.map_take, orderKeys_reference_inOrder, shownElements,
    List.flatMap_def]

theorem sorted_gather (hparts : ∀ p ∈ parts, p.Honest s full (shown p)) :
    Sorted s.reverse ((parts.map (·.slice.elements)).foldl (Current.merge s) []) := by
  rw [gather_merged hparts]
  exact (sorted_reference _ _).sublist (List.take_sublist _ _)

/-- With a mark behind the end of a full answer, nothing that is missing belongs to its front. -/
theorem take_mergeSort_shown (hparts : ∀ p ∈ parts, p.Honest s full (shown p))
    (hu : s.unique = false) {last : Element α}
    (hlast : ((parts.map (·.slice.elements)).foldl (Current.merge s) []).getLast? = some last)
    (hn : s.count.toNat ≤ ((parts.map (·.slice.elements)).foldl (Current.merge s) []).length)
    (hmarks : ∀ mark ∈ parts.flatMap (·.slice.trimmed),
      Before s.reverse last.orderKey mark.orderKey) :
    ((shownElements parts shown).mergeSort (Element.le s.reverse)).take s.count.toNat =
      (((parts.flatMap (·.asked)).flatMap full).mergeSort (Element.le s.reverse)).take
        s.count.toNat := by
  have hend := (sorted_gather hparts).ordered.not_before_getLast hlast
  rw [gather_merged_of_all hparts hu] at hn hend
  refine take_mergeSort_of_agree (shown_agrees hparts hmarks) ?_ hend
  simp only [List.length_take, List.length_mergeSort] at hn
  omega

theorem take_distinctKeys_shown (hparts : ∀ p ∈ parts, p.Honest s full (shown p))
    (hu : s.unique = true) {last : Element α}
    (hlast : ((parts.map (·.slice.elements)).foldl (Current.merge s) []).getLast? = some last)
    (hn : s.count.toNat ≤ ((parts.map (·.slice.elements)).foldl (Current.merge s) []).length)
    (hmarks : ∀ mark ∈ parts.flatMap (·.slice.trimmed),
      Before s.reverse last.orderKey mark.orderKey) :
    (distinctKeys s.reverse (shownElements parts shown)).take s.count.toNat =
      (distinctKeys s.reverse ((parts.flatMap (·.asked)).flatMap full)).take s.count.toNat := by
  have hkeys := gather_orderKeys hparts hu
  have hend := (sorted_gather hparts).ordered.not_before_getLast hlast
  refine take_distinctKeys_of_agree (shown_agrees hparts hmarks) ?_ ?_
  · have hlen := congrArg List.length hkeys
    simp only [List.length_map, List.length_take] at hlen
    omega
  · rw [← hkeys]
    intro k hk
    obtain ⟨e, he, rfl⟩ := List.mem_map.1 hk
    exact hend e he

end Gathered

namespace Answer

/-- **An empty trim report certifies the answer.** When honest shards have answered, in any order,
and no trim mark is left, the answer is the front of the full collections; in distinct mode its
order keys are the first of theirs. -/
theorem conclude_of_no_trimmed (count : UInt64) (reverse unique : Bool) (keys : List String)
    (full : String → List (Element α)) (parts : List (Part α))
    (shown : Part α → String → List (Element α)) (hkeys : keys.Nodup)
    (hfull : ∀ k ∈ keys, ∀ e ∈ full k, e.key = k)
    (hasked : (parts.flatMap (·.asked)).Perm keys)
    (hparts : ∀ p ∈ parts, p.Honest ⟨count, 0, reverse, unique⟩ full (shown p))
    (hempty : ((current count reverse unique).gather parts).conclude.1.trimmed = []) :
    let merged := ((current count reverse unique).gather parts).conclude.1.merged
    (unique = false →
      merged = ((keys.flatMap full).mergeSort (Element.le reverse)).take count.toNat) ∧
    (unique = true →
      merged.map (·.orderKey) = (distinctKeys reverse (keys.flatMap full)).take count.toNat) := by
  obtain ⟨hg, hs, hm, ht⟩ :=
    @Gathering.gather α parts _ (gathering_current count reverse unique)
  obtain ⟨hmerged, htrimmed⟩ := hg.conclude
  rw [htrimmed] at hempty
  have hnodup : (parts.flatMap (·.asked)).Nodup := hasked.nodup_iff.2 hkeys
  have hfull' : ∀ k ∈ parts.flatMap (·.asked), ∀ e ∈ full k, e.key = k :=
    fun k hk => hfull k (hasked.mem_iff.1 hk)
  have hkeys : distinctKeys reverse (keys.flatMap full) =
      distinctKeys reverse ((parts.flatMap (·.asked)).flatMap full) :=
    distinctKeys_congr fun k => by simp only [(hasked.flatMap_right full).mem_iff]
  intro merged
  have hm' : merged = (parts.map (·.slice.elements)).foldl
      (Current.merge ⟨count, 0, reverse, unique⟩) [] := hmerged.trans hm
  rw [hm', hkeys, ← mergeSort_flatMap_perm hasked hnodup hfull']
  rcases refineTrimmed_eq_nil hempty with hnone | ⟨last, hlast, hcount, hmarks⟩
  · have hcomplete := shown_complete hparts (by simpa [current] using ht.symm.trans hnone)
    rw [← hcomplete]
    exact ⟨gather_merged_of_all hparts, gather_orderKeys hparts⟩
  · rw [hm] at hlast hcount
    rw [hs] at hcount hmarks
    rw [ht] at hmarks
    refine ⟨fun hu => ?_, fun hu => ?_⟩
    · rw [← take_mergeSort_shown hparts hu hlast hcount hmarks]
      exact gather_merged_of_all hparts hu
    · rw [← take_distinctKeys_shown hparts hu hlast hcount hmarks]
      exact gather_orderKeys hparts hu

/-- The shard of `b` stops short of the third element, which no answer of two elements shows. -/
theorem conclude_of_no_trimmed_past_the_end :
    let full : String → List (Element Nat) := fun k =>
      if k = "a" then [⟨"a", .number 1, 0⟩, ⟨"a", .number 3, 1⟩]
      else if k = "b" then [⟨"b", .number 2, 2⟩, ⟨"b", .number 4, 3⟩] else []
    let parts : List (Part Nat) :=
      [{ asked := ["b"], slice := { elements := [⟨"b", .number 2, 2⟩], trimmed := [⟨"b", .number 4⟩] } },
        { asked := ["a"], slice := { elements := full "a" } }]
    ((current 2 false false).gather parts).conclude.1.merged =
      ((["a", "b"].flatMap full).mergeSort (Element.le false)).take 2 := by
  intro full parts
  refine (conclude_of_no_trimmed 2 false false ["a", "b"] full parts
    (fun _ k => if k = "b" then [⟨"b", .number 2, 2⟩] else full k)
    (by decide) ?_ (List.Perm.swap _ _ _) ?_ (by cbv)).1 rfl
  · simp [full]
  · intro p hp
    simp only [parts, List.mem_cons, List.not_mem_nil, or_false] at hp
    rcases hp with rfl | rfl
    · refine ⟨by decide +kernel, fun k hk => .inr ?_⟩
      rw [List.mem_singleton.1 hk]
      refine ⟨⟨"b", .number 4⟩, by simp, rfl, ?_⟩
      exact .kept _ (.missed (by decide) .nil)
    · refine ⟨by cbv, fun k hk => .inl ?_⟩
      rw [List.mem_singleton.1 hk]
      rfl

end Answer

end ShardedCache.SortedGet

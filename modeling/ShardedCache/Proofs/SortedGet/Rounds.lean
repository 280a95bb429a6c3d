import Mathlib.Data.List.Induction
import Mathlib.Data.List.Nodup
import ShardedCache.Proofs.SortedGet.Continuity

/-!
# The merged list after every round

Whatever tails were trimmed, a round of the paging policy leaves a sorted list within the reach
(`Walk.InPlace`). In distinct mode an element is inserted only where nothing has its order key, so no
order key comes to be there twice by inserting (`Walk.Step.occurrences_le`). The first shard that has
any elements is not inserted but taken as it is, and whatever it repeats stays: the list is free of
repetitions after all rounds just when the front of that shard is (`every_round_keeps`).
-/

namespace ShardedCache.SortedGet

open OrderKey (Before)

variable {α : Type}

/-- How often an order key occurs. -/
def occurrences (k : OrderKey) (l : List (Element α)) : Nat := (l.map (·.orderKey)).count k

theorem occurrences_append (k : OrderKey) (l₁ l₂ : List (Element α)) :
    occurrences k (l₁ ++ l₂) = occurrences k l₁ + occurrences k l₂ := by
  simp [occurrences]

theorem occurrences_le_of_sublist (k : OrderKey) {l₁ l₂ : List (Element α)} (h : l₁.Sublist l₂) :
    occurrences k l₁ ≤ occurrences k l₂ :=
  (h.map _).count_le k

theorem occurrences_eq_zero {k : OrderKey} {l : List (Element α)} (h : ∀ x ∈ l, x.orderKey ≠ k) :
    occurrences k l = 0 := by
  refine List.count_eq_zero.2 fun hmem => ?_
  obtain ⟨x, hx, hkey⟩ := List.mem_map.1 hmem
  exact h x hx hkey

theorem nodup_iff_occurrences {l : List (Element α)} :
    (l.map (·.orderKey)).Nodup ↔ ∀ k, occurrences k l ≤ 1 := List.nodup_iff_count_le_one

theorem Selection.reach_le (s : Selection) : s.reach ≤ s.offset.toNat + s.count.toNat := by
  by_cases hfits : s.offset.toNat + s.count.toNat < UInt64.size
  · exact Nat.le_of_eq (reach_of_fits hfits)
  · rw [reach_of_none (reach?_eq_none_iff.2 (Nat.not_lt.1 hfits))]
    exact Nat.zero_le _

namespace Legacy

variable {s : Selection} {trimmed : Bool}

namespace Walk

variable {w w' : Walk α}

/-- The list is sorted, and what has been passed may stand in front of all that is to be inserted,
or shares its order key and will keep it out. -/
structure InPlace (s : Selection) (w : Walk α) : Prop where
  merged : Sorted s.reverse w.merged
  shard : Sorted s.reverse w.shard
  behind : ∀ p ∈ w.passed, ∀ e ∈ w.shard,
    Element.le s.reverse p e ∨ s.unique ∧ p.orderKey = e.orderKey

theorem InPlace.inOrder (h : w.InPlace s) : w.InOrder s.reverse := by
  refine ⟨h.merged.ordered, h.shard.ordered, fun p hp e he => ?_⟩
  rcases h.behind p hp e he with hle | ⟨-, hkey⟩
  · exact Element.not_before_of_le hle
  · rw [hkey]
    exact Before.irrefl _ _

theorem Step.inPlace (h : Step s trimmed w w') (hw : w.InPlace s) : w'.InPlace s := by
  have horder := hw.inOrder
  cases h with
  | @pass passed ahead shard a e before =>
    refine ⟨by simpa [Walk.merged] using hw.merged, hw.shard, fun p hp e' he' => ?_⟩
    rcases List.mem_cons.1 hp with rfl | hp
    · have hpe : Element.le s.reverse p e := by
        have := Element.le_total s.reverse p e
        simpa [before] using this
      rcases List.mem_cons.1 he' with rfl | he'
      · exact .inl hpe
      · exact .inl (Element.le_trans _ _ _ _ hpe (List.rel_of_pairwise_cons hw.shard he'))
    · exact hw.behind p hp e' he'
  | skip here =>
    exact ⟨hw.merged, hw.shard.of_cons, fun p hp e' he' => hw.behind p hp e' (List.mem_cons_of_mem _ he')⟩
  | @meet passed ahead shard a e here unique fresh level =>
    refine ⟨by simpa [Walk.merged] using hw.merged, hw.shard.of_cons, fun p hp e' he' => ?_⟩
    rcases List.mem_cons.1 hp with rfl | hp
    · -- `p` may belong behind `e`, but not behind what has a later order key
      have hee' := List.rel_of_pairwise_cons hw.shard he'
      by_cases hkey : e.orderKey = e'.orderKey
      · exact .inr ⟨unique, level.trans hkey⟩
      · have hbefore := Element.before_of_le hee' hkey
        rw [← level] at hbefore
        exact .inl (Element.le_of_before hbefore)
    · exact hw.behind p hp e' (List.mem_cons_of_mem _ he')
  | @insert passed ahead shard e here fresh =>
    have hbehind : ∀ p ∈ passed, Element.le s.reverse p e := by
      intro p hp
      rcases hw.behind p hp e (by simp) with hle | ⟨hu, -⟩
      · exact hle
      · exact Element.le_of_before (horder.before_of_behind (fresh hu).1 p hp)
    have hfront : ∀ a ∈ ahead, Element.le s.reverse e a := by
      intro a ha
      have hahead := (List.pairwise_append.1 hw.merged).2.1
      cases ahead with
      | nil => cases ha
      | cons b rest =>
        have heb := here.inFront b rfl
        rcases List.mem_cons.1 ha with rfl | ha
        · exact heb
        · exact Element.le_trans _ _ _ _ heb (List.rel_of_pairwise_cons hahead ha)
    refine ⟨pairwise_insert hw.merged hbehind hfront _, hw.shard.of_cons, fun p hp e' he' => ?_⟩
    rcases List.mem_cons.1 hp with rfl | hp
    · exact .inl (List.rel_of_pairwise_cons hw.shard he')
    · exact hw.behind p hp e' (List.mem_cons_of_mem _ he')

/-- In distinct mode nothing is inserted beside an element with its order key. -/
theorem Step.occurrences_le (hu : s.unique) (h : Step s trimmed w w') (hw : w.InPlace s)
    (k : OrderKey) : occurrences k w'.merged ≤ max (occurrences k w.merged) 1 := by
  have horder := hw.inOrder
  cases h with
  | pass before =>
    simp only [Walk.merged, List.reverse_cons, List.append_assoc, List.singleton_append]
    exact Nat.le_max_left _ _
  | skip here => exact Nat.le_max_left _ _
  | meet here =>
    simp only [Walk.merged, List.reverse_cons, List.append_assoc, List.singleton_append]
    exact Nat.le_max_left _ _
  | @insert passed ahead shard e here fresh =>
    have hcut : occurrences k (ahead.take (s.reach - passed.length - 1)) ≤ occurrences k ahead :=
      occurrences_le_of_sublist k (List.take_sublist _ _)
    have hmerged : merged ⟨e :: passed, ahead.take (s.reach - passed.length - 1), shard⟩ =
        passed.reverse ++ ([e] ++ ahead.take (s.reach - passed.length - 1)) := by simp [merged]
    rw [hmerged]
    simp only [merged, occurrences_append]
    by_cases hkey : e.orderKey = k
    · have hpassed : occurrences k passed.reverse = 0 := by
        refine occurrences_eq_zero fun x hx => ?_
        rw [← hkey]
        exact (horder.before_of_behind (fresh hu).1 x (List.mem_reverse.1 hx)).ne
      have hahead : occurrences k ahead = 0 := by
        refine occurrences_eq_zero fun x hx => ?_
        rw [← hkey]
        exact (horder.before_of_inFront here.inFront (fresh hu).2 x hx).ne.symm
      have hone : occurrences k [e] = 1 := by simp [occurrences, hkey]
      omega
    · have hnone : occurrences k [e] = 0 := occurrences_eq_zero (by simpa using hkey)
      omega

end Walk

/-! ## One round -/

section Round

variable {now : Legacy × List (Element α)} {slice : ShardSlice α}

theorem sorted_round (hnow : Sorted s.reverse now.2) (hslice : Sorted s.reverse slice.elements) :
    Sorted s.reverse (round s now slice).2 := by
  by_cases hnil : now.2 = []
  · rw [(round_of_nil slice hnil).1]
    exact hslice.sublist (List.take_sublist _ _)
  · obtain ⟨w', hsteps, -, heq⟩ := round_walk (s := s) slice hnil
    have hplace : w'.InPlace s := Walk.kept _ Walk.Step.inPlace hsteps ⟨hnow, hslice, by simp⟩
    rw [heq]
    exact hplace.merged

/-- A round that inserts repeats nothing that was not repeated before. -/
theorem occurrences_round_le (hu : s.unique) (hnow : Sorted s.reverse now.2)
    (hslice : Sorted s.reverse slice.elements) (hne : now.2 ≠ []) (k : OrderKey) :
    occurrences k (round s now slice).2 ≤ max (occurrences k now.2) 1 := by
  obtain ⟨w', hsteps, -, heq⟩ := round_walk (s := s) slice hne
  have hkept : w'.InPlace s ∧ occurrences k w'.merged ≤ max (occurrences k now.2) 1 := by
    refine Walk.kept
      (fun w => w.InPlace s ∧ occurrences k w.merged ≤ max (occurrences k now.2) 1)
      (fun hstep hw => ⟨hstep.inPlace hw.1, ?_⟩) hsteps ⟨⟨hnow, hslice, by simp⟩, ?_⟩
    · have := hstep.occurrences_le hu hw.1 k
      omega
    · exact Nat.le_max_left _ _
  rw [heq]
  exact hkept.2

end Round

/-! ## All rounds -/

theorem sorted_rounds {slices : List (ShardSlice α)}
    (h : ∀ slice ∈ slices, Sorted s.reverse slice.elements) :
    Sorted s.reverse (rounds s slices).2 := by
  induction slices using List.reverseRecOn with
  | nil => exact List.Pairwise.nil
  | append_singleton slices slice ih =>
    rw [rounds_append]
    exact sorted_round (ih fun x hx => h x (by simp [hx])) (h slice (by simp))

theorem offsetApplied_rounds (s : Selection) (slices : List (ShardSlice α)) :
    (rounds s slices).1.offsetApplied = false := by
  induction slices using List.reverseRecOn with
  | nil => rfl
  | append_singleton slices slice ih =>
    rw [rounds_append]
    exact (offsetApplied_round slice).trans ih

/-- What is kept of the first shard that has any elements. -/
def opening (s : Selection) (slices : List (ShardSlice α)) : List (Element α) :=
  ((slices.find? (!·.elements.isEmpty)).elim [] (·.elements)).take s.reach

theorem opening_append (s : Selection) (before after : List (ShardSlice α)) :
    opening s (before ++ after) = if ∀ slice ∈ before, slice.elements = [] then opening s after
      else opening s before := by
  unfold opening
  rw [List.find?_append]
  split
  · next hnone =>
    have : before.find? (!·.elements.isEmpty) = none := by simpa using hnone
    rw [this, Option.none_or]
  · next hsome =>
    have : before.find? (!·.elements.isEmpty) ≠ none := by simpa using hsome
    obtain ⟨first, hfirst⟩ := Option.ne_none_iff_exists'.1 this
    rw [hfirst, Option.some_or]

theorem opening_of_empty {slices : List (ShardSlice α)} (h : ∀ slice ∈ slices, slice.elements = []) :
    opening s slices = [] := by
  have : slices.find? (!·.elements.isEmpty) = none := by simpa using h
  simp [opening, this]

/-- The opening of a prefix is that of the whole, or empty. -/
theorem opening_take_sublist (s : Selection) (slices : List (ShardSlice α)) (n : Nat) :
    (opening s (slices.take n)).Sublist (opening s slices) := by
  conv => rhs; rw [← List.take_append_drop n slices, opening_append]
  split
  · next hnone =>
    rw [opening_of_empty hnone]
    exact List.nil_sublist _
  · exact List.Sublist.refl _

/-- The list is empty as long as there is nothing to open it with. -/
theorem rounds_eq_nil_iff (s : Selection) {slices : List (ShardSlice α)}
    (h : ∀ slice ∈ slices, Sorted s.reverse slice.elements) :
    (rounds s slices).2 = [] ↔ s.reach = 0 ∨ ∀ slice ∈ slices, slice.elements = [] := by
  induction slices using List.reverseRecOn with
  | nil => simp [rounds]
  | append_singleton slices slice ih =>
    have hslices : ∀ x ∈ slices, Sorted s.reverse x.elements := fun x hx => h x (by simp [hx])
    have hrounds : rounds s (slices ++ [slice]) = round s (rounds s slices) slice :=
      rounds_append s slices [slice]
    rw [hrounds]
    by_cases hnil : (rounds s slices).2 = []
    · rw [(round_of_nil slice hnil).1, List.take_eq_nil_iff]
      have := (ih hslices).1 hnil
      simp only [List.mem_append, List.mem_singleton, or_imp, forall_and, forall_eq]
      tauto
    · have hkept : Kept s (rounds s slices).2 := kept_rounds fun x hx => (hslices x hx).ordered
      have hlonger := (hkept.round (h slice (by simp)).ordered).2
      have hne : (round s (rounds s slices) slice).2 ≠ [] := by
        intro hempty
        rw [hempty, List.length_nil, Nat.le_zero, List.length_eq_zero_iff] at hlonger
        exact hnil hlonger
      have := mt (ih hslices).2 hnil
      simp only [hne, false_iff]
      simp only [List.mem_append, List.mem_singleton, or_imp, forall_and, forall_eq]
      tauto

theorem occurrences_rounds_le (hu : s.unique) {slices : List (ShardSlice α)}
    (h : ∀ slice ∈ slices, Sorted s.reverse slice.elements) (k : OrderKey) :
    occurrences k (rounds s slices).2 ≤ max (occurrences k (opening s slices)) 1 := by
  induction slices using List.reverseRecOn with
  | nil => simp [rounds, occurrences]
  | append_singleton slices slice ih =>
    have hslices : ∀ x ∈ slices, Sorted s.reverse x.elements := fun x hx => h x (by simp [hx])
    have hslice := h slice (by simp)
    have hrounds : rounds s (slices ++ [slice]) = round s (rounds s slices) slice :=
      rounds_append s slices [slice]
    rw [hrounds, opening_append]
    by_cases hnil : (rounds s slices).2 = []
    · rw [(round_of_nil slice hnil).1]
      rcases (rounds_eq_nil_iff s hslices).1 hnil with hzero | hempty
      · simp [hzero, occurrences]
      · have hopening : opening s [slice] = slice.elements.take s.reach := by
          by_cases hslice : slice.elements = [] <;> simp [opening, hslice]
        rw [if_pos hempty, hopening]
        exact Nat.le_max_left _ _
    · have hnone := mt (fun hnone => (rounds_eq_nil_iff s hslices).2 (.inr hnone)) hnil
      rw [if_neg hnone]
      have hround := occurrences_round_le hu (sorted_rounds hslices) hslice hnil k
      have := ih hslices
      omega

/-- The first shard that has any elements is taken as it is. -/
theorem exists_rounds_eq_opening (s : Selection) {slices : List (ShardSlice α)}
    (h : ∀ slice ∈ slices, Sorted s.reverse slice.elements) :
    ∃ n, (rounds s (slices.take n)).2 = opening s slices := by
  cases hfind : slices.find? (!·.elements.isEmpty) with
  | none => exact ⟨0, by simp [rounds, opening, hfind]⟩
  | some first =>
    obtain ⟨hfirst, before, after, rfl, hbefore⟩ := List.find?_eq_some_iff_append.1 hfind
    have hnil : (rounds s before).2 = [] :=
      (rounds_eq_nil_iff s fun x hx => h x (by simp [hx])).2 (.inr (by simpa using hbefore))
    have htake : (before ++ first :: after).take (before.length + 1) = before ++ [first] := by
      rw [List.take_length_add_append, List.take_succ_cons, List.take_zero]
    refine ⟨before.length + 1, ?_⟩
    rw [htake, rounds_append, List.foldl_cons, List.foldl_nil, (round_of_nil first hnil).1]
    simp [opening, hfind]

/-- **What every round keeps.** The merged list is sorted and within the reach, which is at most
offset and count together, and what is left of it in the end is within the count. In distinct mode
inserting repeats no order key: none occurs more often than in what opened the list, so the lists of
all rounds are free of repetitions just when the front of the first shard that has any elements is. -/
theorem every_round_keeps (s : Selection) (slices : List (ShardSlice α))
    (h : ∀ slice ∈ slices, Sorted s.reverse slice.elements) :
    (∀ n, let now := rounds s (slices.take n)
      Sorted s.reverse now.2 ∧ now.2.length ≤ s.reach ∧
      s.reach ≤ s.offset.toNat + s.count.toNat ∧
      (finish s now.1 now.2).2.length ≤ s.count.toNat ∧
      (s.unique → ∀ k, occurrences k now.2 ≤ max (occurrences k (opening s slices)) 1)) ∧
    (s.unique → ((∀ n, ((rounds s (slices.take n)).2.map (·.orderKey)).Nodup) ↔
      ((opening s slices).map (·.orderKey)).Nodup)) := by
  have htake : ∀ n, ∀ slice ∈ slices.take n, Sorted s.reverse slice.elements :=
    fun n slice hslice => h slice (List.mem_of_mem_take hslice)
  have hrepeats : s.unique → ∀ n k, occurrences k (rounds s (slices.take n)).2 ≤
      max (occurrences k (opening s slices)) 1 := by
    intro hu n k
    have hrounds := occurrences_rounds_le hu (htake n) k
    have hopening := occurrences_le_of_sublist k (opening_take_sublist s slices n)
    omega
  constructor
  · intro n now
    have hroom : now.2.length ≤ s.reach :=
      (kept_rounds fun slice hslice => (htake n slice hslice).ordered).room
    have hreach := s.reach_le
    refine ⟨sorted_rounds (htake n), hroom, hreach, ?_, fun hu => hrepeats hu n⟩
    rw [finish, offsetApplied_rounds]
    simp only [Bool.false_eq_true, ↓reduceIte, List.length_drop]
    omega
  · intro hu
    constructor
    · intro hdistinct
      obtain ⟨n, hn⟩ := exists_rounds_eq_opening s h
      rw [← hn]
      exact hdistinct n
    · intro hopening n
      refine nodup_iff_occurrences.2 fun k => ?_
      have hone := nodup_iff_occurrences.1 hopening k
      have := hrepeats hu n k
      omega

/-- Three shards in distinct mode. Nothing of the first is repeated by what comes after. -/
theorem every_round_keeps_of_three_shards :
    let s : Selection := { count := 2, offset := 1, reverse := false, unique := true }
    let slices : List (ShardSlice Nat) :=
      [{ elements := [⟨"b", .number 1, 0⟩, ⟨"b", .number 4, 1⟩], tailTrimmed := true },
        { elements := [⟨"a", .number 1, 2⟩, ⟨"a", .number 3, 3⟩] },
        { elements := [⟨"c", .number 2, 4⟩, ⟨"c", .number 3, 5⟩] }]
    (∀ slice ∈ slices, Sorted s.reverse slice.elements) ∧ s.unique ∧
    (∀ n, ((rounds s (slices.take n)).2.map (·.orderKey)).Nodup) ∧
    (rounds s (slices.take 3)).2 =
      [⟨"b", .number 1, 0⟩, ⟨"c", .number 2, 4⟩, ⟨"a", .number 3, 3⟩] := by
  intro s slices
  have h : ∀ slice ∈ slices, Sorted s.reverse slice.elements := by
    simp only [slices, s, Sorted, List.forall_mem_cons, List.not_mem_nil, false_imp_iff,
      forall_true_iff, and_true]
    decide
  exact ⟨h, rfl, ((every_round_keeps s slices h).2 rfl).2 (by decide), by decide⟩

/-- The only shard repeats an order key, and in distinct mode it stays repeated. -/
theorem repeated_in_opening :
    let s : Selection := { count := 10, offset := 0, reverse := false, unique := true }
    let slice : ShardSlice Nat := { elements := [⟨"a", .number 1, 0⟩, ⟨"b", .number 1, 1⟩] }
    Sorted s.reverse slice.elements ∧ s.unique ∧
    ¬ ((rounds s [slice]).2.map (·.orderKey)).Nodup := by
  intro s slice
  refine ⟨?_, rfl, by decide⟩
  simp only [slice, s, Sorted]
  decide

end Legacy

end ShardedCache.SortedGet

import ShardedCache.Proofs.SortedGet.Insertion

/-!
# Gaps behind a trimmed tail

What a shard with a trimmed tail dropped comes after its last element, so a list that goes on past
that order key may have a gap. The paging policy marks the merged list when it ends with that
element, and lets a marked or a full list grow at the front only (`Guarded.round`). A list that is
neither takes up whatever comes next (`mem_round_of_unguarded`), so one that went on past the tail
before its shard came, or ends level with it on another collection, is left with the gap
(`stays_within_iff`).
-/

namespace ShardedCache.SortedGet

open OrderKey (Before)

variable {α : Type} {reverse : Bool}

namespace Legacy

variable {s : Selection}

/-- One shard's round: what the policy remembers, and the merged list. -/
def round (s : Selection) (now : Legacy × List (Element α)) (slice : ShardSlice α) :
    Legacy × List (Element α) :=
  now.1.merge s now.2 slice.elements slice.tailTrimmed

/-- The rounds of shards in the order of their arrival. -/
def rounds (s : Selection) (slices : List (ShardSlice α)) : Legacy × List (Element α) :=
  slices.foldl (round s) ({}, [])

theorem rounds_append (s : Selection) (before after : List (ShardSlice α)) :
    rounds s (before ++ after) = after.foldl (round s) (rounds s before) := List.foldl_append

section Round

variable {now : Legacy × List (Element α)} (slice : ShardSlice α)

/-- Without a reach a round breaks off before anything has changed. -/
theorem round_of_none (h : reach? s.offset s.count = none) :
    round s now slice = ({ now.1 with brokenOff := true }, now.2) := by
  rw [round, merge, if_pos h]

theorem offsetApplied_round : (round s now slice).1.offsetApplied = now.1.offsetApplied := by
  unfold round merge
  split <;> rfl

theorem round_of_nil (h : now.2 = []) :
    (round s now slice).2 = slice.elements.take s.reach ∧
      (0 < s.reach → (round s now slice).1.trimmed =
        (slice.tailTrimmed && (slice.elements.take s.reach).length < s.reach)) := by
  by_cases hnone : reach? s.offset s.count = none
  · simp [round_of_none slice hnone, Selection.reach_of_none hnone, h]
  · simp [round, merge, hnone, h]

theorem round_of_ne_nil (h : now.2 ≠ []) (hreach : 0 < s.reach) :
    (round s now slice).2 = insertAll s now.1.trimmed [] now.2 slice.elements ∧
      (round s now slice).1.trimmed =
        ((now.1.trimmed || slice.elements.getLast?.any fun last =>
          slice.tailTrimmed && endsWith (round s now slice).2 last) &&
            (round s now slice).2.length < s.reach) := by
  have hne : now.2.isEmpty = false := by simpa using h
  have hsome : reach? s.offset s.count ≠ none := fun hnone =>
    absurd (Selection.reach_of_none hnone) (Nat.ne_of_gt hreach)
  simp only [round, merge, hsome, hne, Bool.false_eq_true, ↓reduceIte, true_and]
  cases slice.elements.getLast? <;> rfl

/-- The walk that a round is. -/
theorem round_walk (h : now.2 ≠ []) : ∃ w', Relation.ReflTransGen (Walk.Step s now.1.trimmed)
    ⟨[], now.2, slice.elements⟩ w' ∧ Walk.Stops s now.1.trimmed w' ∧
      (round s now slice).2 = w'.merged := by
  by_cases hnone : reach? s.offset s.count = none
  · -- a walk that leaves off where it starts
    refine ⟨_, .refl, .full (Nat.le_of_eq (Selection.reach_of_none hnone)), ?_⟩
    rw [round_of_none slice hnone]
    rfl
  · obtain ⟨w', hsteps, hstops, heq⟩ :=
      Walk.insertAll_eq s now.1.trimmed ⟨[], now.2, slice.elements⟩
    refine ⟨w', hsteps, hstops, ?_⟩
    rw [← heq, round, merge, if_neg hnone]
    simp [h]

end Round

/-! ## What every round keeps -/

/-- The merged list is in order and within the reach. -/
structure Kept (s : Selection) (merged : List (Element α)) : Prop where
  room : merged.length ≤ s.reach
  order : Ordered s.reverse merged

theorem kept_nil : Kept s ([] : List (Element α)) := ⟨Nat.zero_le _, List.Pairwise.nil⟩

theorem Kept.round {now : Legacy × List (Element α)} (h : Kept s now.2) {slice : ShardSlice α}
    (hslice : Ordered s.reverse slice.elements) :
    Kept s (round s now slice).2 ∧ now.2.length ≤ (Legacy.round s now slice).2.length := by
  by_cases hnil : now.2 = []
  · rw [(round_of_nil _ hnil).1, hnil]
    exact ⟨⟨List.length_take_le _ _, hslice.sublist (List.take_sublist _ _)⟩, Nat.zero_le _⟩
  · obtain ⟨w', hsteps, -, heq⟩ := round_walk (s := s) slice hnil
    obtain ⟨hbounded, hlonger⟩ := Walk.steps_bounded hsteps h.room
    have horder : w'.InOrder s.reverse :=
      Walk.kept _ Walk.Step.inOrder hsteps ⟨h.order, hslice, by simp⟩
    rw [heq]
    exact ⟨⟨hbounded, horder.merged⟩, hlonger⟩

theorem Kept.foldl {slices : List (ShardSlice α)} {now : Legacy × List (Element α)}
    (h : Kept s now.2) (hslices : ∀ slice ∈ slices, Ordered s.reverse slice.elements) :
    Kept s (slices.foldl (Legacy.round s) now).2 := by
  induction slices generalizing now with
  | nil => exact h
  | cons slice slices ih =>
    rw [List.foldl_cons]
    exact ih (h.round (hslices slice (by simp))).1 fun x hx => hslices x (by simp [hx])

theorem kept_rounds {slices : List (ShardSlice α)}
    (h : ∀ slice ∈ slices, Ordered s.reverse slice.elements) : Kept s (rounds s slices).2 :=
  Kept.foldl kept_nil h

/-! ## Lists that do not grow at the end -/

/-- Nothing in the list lies past the order key. -/
def Within (reverse : Bool) (k : OrderKey) (l : List (Element α)) : Prop :=
  ∀ x ∈ l, ¬ Before reverse k x.orderKey

instance (reverse : Bool) (k : OrderKey) (l : List (Element α)) : Decidable (Within reverse k l) :=
  inferInstanceAs (Decidable (∀ x ∈ l, _))

/-- Nothing lies past the order key, and the list is full or known to end at a trimmed tail. -/
structure Guarded (s : Selection) (k : OrderKey) (now : Legacy × List (Element α)) : Prop where
  within : Within s.reverse k now.2
  closed : s.reach ≤ now.2.length ∨ now.1.trimmed ∧ now.2 ≠ []

/-- A list that is full or marked takes up nothing past an order key that it does not go past. -/
theorem Walk.Step.within {trimmed : Bool} {w w' : Walk α} {k : OrderKey}
    (h : Walk.Step s trimmed w w')
    (hclosed : s.reach ≤ w.merged.length ∨ trimmed ∧ w.merged ≠ [])
    (hw : Within s.reverse k w.merged) : Within s.reverse k w'.merged := by
  intro x hx
  rw [Walk.mem_merged] at hx
  cases h with
  | pass before =>
    refine hw x ?_
    simpa [Walk.merged, or_assoc, or_left_comm] using hx
  | skip here => exact hw x (Walk.mem_merged.2 hx)
  | meet here =>
    refine hw x ?_
    simpa [Walk.merged, or_assoc, or_left_comm] using hx
  | @insert passed ahead shard e here fresh =>
    have hold : ∀ y, y ∈ passed ∨ y ∈ ahead → ¬ Before s.reverse k y.orderKey :=
      fun y hy => hw y (Walk.mem_merged.2 hy)
    rcases hx with hx | hx
    · rcases List.mem_cons.1 hx with rfl | hx
      · cases ahead with
        | cons a rest =>
          -- the element goes in front of another one
          have hxa := Element.not_before_of_le (here.inFront a rfl)
          exact fun hk => hold a (by simp) (hk.trans_not hxa)
        | nil =>
          -- at the end of a list that is not full: it is marked, and the order key is its last
          have hroom := here.room
          have hmarked : trimmed ∧ passed ≠ [] := by
            rw [Walk.length_merged] at hclosed
            simpa [Nat.not_le_of_lt hroom, Walk.merged] using hclosed
          obtain ⟨a, rest, rfl, hkey⟩ :=
            sharesKey_eq_true.1 (here.contiguous rfl hmarked.1 hmarked.2)
          rw [← hkey]
          exact hold a (by simp)
      · exact hold x (.inl hx)
    · exact hold x (.inr (List.mem_of_mem_take hx))

theorem Guarded.round {k : OrderKey} {now : Legacy × List (Element α)} (h : Guarded s k now)
    (hkept : Kept s now.2) {slice : ShardSlice α} (hslice : Ordered s.reverse slice.elements) :
    Guarded s k (round s now slice) := by
  have hlonger := (hkept.round hslice).2
  by_cases hnil : now.2 = []
  · have hzero : s.reach = 0 := by simpa [hnil] using h.closed
    have hempty : (Legacy.round s now slice).2 = [] := by
      rw [(round_of_nil _ hnil).1, hzero, List.take_zero]
    exact ⟨by simp [Within, hempty], .inl (by simp [hzero])⟩
  · obtain ⟨w', hsteps, -, heq⟩ := round_walk (s := s) slice hnil
    have hwithin : w'.Bounded s ∧ now.2.length ≤ w'.merged.length ∧
        Within s.reverse k w'.merged := by
      refine Walk.kept (fun w => w.Bounded s ∧ now.2.length ≤ w.merged.length ∧
        Within s.reverse k w.merged) (fun {w w'} hstep hw => ?_) hsteps
        ⟨hkept.room, Nat.le_refl _, h.within⟩
      obtain ⟨hbounded, hle⟩ := hstep.bounded hw.1
      have hne : w.merged ≠ [] := fun hw' => hnil (List.length_eq_zero_iff.1 (by
        have := hw.2.1
        simpa [hw'] using this))
      refine ⟨hbounded, Nat.le_trans hw.2.1 hle, hstep.within ?_ hw.2.2⟩
      exact h.closed.imp (Nat.le_trans · hw.2.1) fun ht => ⟨ht.1, hne⟩
    refine ⟨heq ▸ hwithin.2.2, ?_⟩
    have hne : (Legacy.round s now slice).2 ≠ [] := fun h0 => hnil (by simpa [h0] using hlonger)
    rcases Nat.lt_or_ge (Legacy.round s now slice).2.length s.reach with hroom | hfull
    · have hmarked : now.1.trimmed :=
        (h.closed.resolve_left fun hfull => by omega).1
      refine .inr ⟨?_, hne⟩
      rw [(round_of_ne_nil _ hnil (Nat.zero_lt_of_lt hroom)).2, hmarked]
      simpa using hroom
    · exact .inl hfull

theorem Guarded.foldl {k : OrderKey} {slices : List (ShardSlice α)}
    {now : Legacy × List (Element α)} (h : Guarded s k now) (hkept : Kept s now.2)
    (hslices : ∀ slice ∈ slices, Ordered s.reverse slice.elements) :
    Guarded s k (slices.foldl (Legacy.round s) now) := by
  induction slices generalizing now with
  | nil => exact h
  | cons slice slices ih =>
    have hslice := hslices slice (by simp)
    rw [List.foldl_cons]
    exact ih (h.round hkept hslice) (hkept.round hslice).1 fun x hx => hslices x (by simp [hx])

/-! ## Lists that do -/

theorem advance_of_before {e : Element α} : ∀ {passed ahead : List (Element α)},
    (∀ a ∈ ahead, Before reverse a.orderKey e.orderKey) →
      advance reverse e passed ahead = (ahead.reverse ++ passed, [])
  | _, [], _ => rfl
  | passed, a :: ahead, h => by
    have hlt : Element.compare reverse a e = .lt :=
      Element.compare_eq_lt_iff.2 fun hle =>
        Element.not_before_of_le hle (h a (by simp))
    rw [advance, if_pos hlt, advance_of_before fun b hb => h b (by simp [hb])]
    simp

/-- A list that is neither full nor marked takes up an element past all that it holds. -/
theorem mem_round_of_unguarded {now : Legacy × List (Element α)} {x : Element α}
    (hopen : now.1.trimmed = false) (hroom : now.2.length < s.reach)
    (hx : ∀ y ∈ now.2, Before s.reverse y.orderKey x.orderKey) :
    x ∈ (round s now { elements := [x] }).2 := by
  have hpos : 0 < s.reach := Nat.zero_lt_of_lt hroom
  by_cases hnil : now.2 = []
  · rw [(round_of_nil _ hnil).1]
    simp [List.take_of_length_le (show [x].length ≤ s.reach from hpos)]
  · have hfresh : sharesKey now.2.reverse x = false := by
      refine Bool.eq_false_iff.2 fun hshare => ?_
      obtain ⟨a, rest, heq, hkey⟩ := sharesKey_eq_true.1 hshare
      have ha : a ∈ now.2 := List.mem_reverse.1 (by rw [heq]; exact List.mem_cons_self)
      exact (hx a ha).ne hkey
    have hfull : ¬ s.reach ≤ now.2.reverse.length := by simpa using hroom
    have hnone : sharesKey ([] : List (Element α)) x = false := rfl
    rw [(round_of_ne_nil _ hnil hpos).1, hopen, insertAll, advance_of_before hx, List.append_nil]
    simp only [hfull, hfresh, hnone, Bool.and_false, Bool.false_and, Bool.false_eq_true, ↓reduceIte]
    simp [insertAll]

/-! ## One trimmed shard -/

section Trimmed

variable {now : Legacy × List (Element α)} {slice : ShardSlice α} {last : Element α}

/-- What lies past a shard's last element after its round was in the list before. -/
theorem mem_of_past (hslice : Ordered s.reverse slice.elements)
    (hlast : slice.elements.getLast? = some last) {x : Element α} (hx : x ∈ (round s now slice).2)
    (hpast : Before s.reverse last.orderKey x.orderKey) : x ∈ now.2 := by
  have hnot : x ∉ slice.elements := fun hmem => hslice.not_before_getLast hlast x hmem hpast
  by_cases hnil : now.2 = []
  · rw [(round_of_nil _ hnil).1] at hx
    exact absurd (List.mem_of_mem_take hx) hnot
  · obtain ⟨w', hsteps, -, heq⟩ := round_walk (s := s) slice hnil
    rw [heq] at hx
    rcases Walk.mem_of_steps hsteps hx with h | h
    · simpa [Walk.merged] using h
    · exact absurd h hnot

/-- In an unmarked list that is not full no order key of the shard is missing. -/
theorem exists_of_room (hkept : Kept s now.2) (hnil : now.2 ≠ []) (hunmarked : now.1.trimmed = false)
    (hroom : (round s now slice).2.length < s.reach) {x : Element α} (hx : x ∈ slice.elements) :
    ∃ y ∈ (round s now slice).2, y.orderKey = x.orderKey := by
  obtain ⟨w', hsteps, hstops, heq⟩ := round_walk (s := s) slice hnil
  have hcovers : w'.Bounded s ∧ w'.Covers s slice.elements :=
    Walk.kept _ Walk.Step.covers hsteps ⟨hkept.room, fun _ x hx => .inr hx⟩
  rw [heq] at hroom ⊢
  rcases hcovers.2 hroom x hx with h | h
  · exact h
  · rw [hunmarked] at hstops
    rw [Walk.length_merged] at hroom
    cases hstops with
    | done => cases h
    | full hfull => exact absurd hroom (Nat.not_lt_of_le (Nat.le_add_right_of_le hfull))
    | gap ht => cases ht

/-- A list that is neither full nor marked after the round of a trimmed shard, and does not go past
its tail, ends level with it on another collection. -/
theorem level_of_unguarded (hkept : Kept s now.2) (hslice : Ordered s.reverse slice.elements)
    (htail : slice.tailTrimmed) (hlast : slice.elements.getLast? = some last)
    (hwithin : Within s.reverse last.orderKey (round s now slice).2)
    (hopen : (round s now slice).1.trimmed = false)
    (hroom : (round s now slice).2.length < s.reach) :
    ∃ e, (round s now slice).2.getLast? = some e ∧ e.orderKey = last.orderKey ∧
      e.key ≠ last.key := by
  have hpos : 0 < s.reach := Nat.zero_lt_of_lt hroom
  have hnil : now.2 ≠ [] := by
    intro hnil
    obtain ⟨hmerged, htrimmed⟩ := round_of_nil (s := s) slice hnil
    rw [hmerged] at hroom
    rw [htrimmed hpos, htail, Bool.true_and, decide_eq_false_iff_not] at hopen
    exact hopen hroom
  have htrimmed := (round_of_ne_nil (s := s) slice hnil hpos).2
  rw [hlast, htail] at htrimmed
  simp only [hopen, hroom, decide_true, Bool.and_true, Bool.true_and] at htrimmed
  obtain ⟨hunmarked, hends⟩ := Bool.or_eq_false_iff.1 htrimmed.symm
  obtain ⟨y, hy, hkey⟩ :=
    exists_of_room hkept hnil hunmarked hroom (List.mem_of_getLast? hlast)
  obtain ⟨e, hend⟩ := Option.isSome_iff_exists.1 (List.getLast?_isSome.2 (List.ne_nil_of_mem hy))
  have hlevel : e.orderKey = last.orderKey := by
    have hback : ¬ Before s.reverse e.orderKey last.orderKey := by
      rw [← hkey]
      exact (hkept.round hslice).1.order.not_before_getLast hend y hy
    have hforth := hwithin e (List.mem_of_getLast? hend)
    exact Decidable.byContradiction fun hdiff =>
      (OrderKey.before_or_before s.reverse hdiff).elim hback hforth
  refine ⟨e, hend, hlevel, fun hsame => ?_⟩
  simp [endsWith, hend, hlevel, hsame] at hends

/-- If anything is merged at all, a round of a shard that has an element leaves one. -/
theorem round_ne_nil (hkept : Kept s now.2) (hslice : Ordered s.reverse slice.elements)
    (hlast : slice.elements.getLast? = some last) (hreach : 0 < s.reach) :
    (round s now slice).2 ≠ [] := by
  intro hempty
  have hnil : now.2 = [] := by simpa [hempty] using (hkept.round hslice).2
  have hmerged := (round_of_nil (s := s) slice hnil).1
  rw [hempty, eq_comm, List.take_eq_nil_iff] at hmerged
  rcases hmerged with hzero | hnone
  · exact absurd hzero (Nat.ne_of_gt hreach)
  · simp [hnone] at hlast

end Trimmed

/-- **What becomes of a trimmed tail.** However the rounds go on, the merged list does not step over
the gap behind it just when it does not go past the tail after the shard's own round and is then full
or marked, or nothing can lie past the tail at all. It goes past the tail only with elements that were
there before the shard came; and if it does not, but is neither full nor marked, it ends level with
the tail on another collection. -/
theorem stays_within_iff (s : Selection) (before : List (ShardSlice α)) (slice : ShardSlice α)
    (last : Element α) (hbefore : ∀ x ∈ before, Sorted s.reverse x.elements)
    (hslice : Sorted s.reverse slice.elements) (htail : slice.tailTrimmed)
    (hlast : slice.elements.getLast? = some last) :
    let now := rounds s (before ++ [slice])
    ((∀ after : List (ShardSlice α), (∀ x ∈ after, Sorted s.reverse x.elements) →
        Within s.reverse last.orderKey (rounds s (before ++ slice :: after)).2) ↔
      Within s.reverse last.orderKey now.2 ∧ (now.1.trimmed ∨ s.reach ≤ now.2.length ∨
        ∀ k, ¬ Before s.reverse last.orderKey k)) ∧
    (∀ x ∈ now.2, Before s.reverse last.orderKey x.orderKey → x ∈ (rounds s before).2) ∧
    (Within s.reverse last.orderKey now.2 → now.1.trimmed = false → now.2.length < s.reach →
      ∃ e, now.2.getLast? = some e ∧ e.orderKey = last.orderKey ∧ e.key ≠ last.key) := by
  intro now
  have hkept : Kept s (rounds s before).2 := kept_rounds fun x hx => (hbefore x hx).ordered
  have hnow : now = round s (rounds s before) slice := rounds_append s before [slice]
  obtain ⟨hkeptNow, hlonger⟩ := hkept.round hslice.ordered
  rw [← hnow] at hkeptNow hlonger
  have hgoes : ∀ after, rounds s (before ++ slice :: after) = after.foldl (round s) now := by
    intro after
    rw [← List.singleton_append, ← List.append_assoc, rounds_append]
  refine ⟨⟨fun hstays => ⟨hstays [] (by simp), ?_⟩, ?_⟩, fun x hx hpast => ?_, ?_⟩
  · -- an element past the tail would be taken up in the next round
    refine Classical.byContradiction fun hnot => ?_
    simp only [not_or, not_forall, not_not, Bool.not_eq_true, Nat.not_le] at hnot
    obtain ⟨hopen, hroom, k, hk⟩ := hnot
    have hwithin : Within s.reverse last.orderKey now.2 := hstays [] (by simp)
    have hmem := @mem_round_of_unguarded _ s now { last with orderKey := k } hopen hroom
      fun y hy => ?_
    · have := hstays [{ elements := [{ last with orderKey := k }] }] (by simp [Sorted])
      rw [hgoes] at this
      exact this _ hmem hk
    · exact Decidable.byContradiction fun hnot' =>
        hwithin y hy (hk.trans_not hnot')
  · rintro ⟨hwithin, hclosed⟩ after hafter
    rw [hgoes]
    have hordered : ∀ x ∈ after, Ordered s.reverse x.elements := fun x hx => (hafter x hx).ordered
    by_cases hnone : ∀ k, ¬ Before s.reverse last.orderKey k
    · exact fun x _ => hnone x.orderKey
    · have hguarded : Guarded s last.orderKey now := by
        refine ⟨hwithin, ?_⟩
        rcases hclosed with hmarked | hfull | hnone'
        · rcases Nat.eq_zero_or_pos s.reach with hzero | hpos
          · exact .inl (hzero ▸ Nat.zero_le _)
          · exact .inr ⟨hmarked, hnow ▸ round_ne_nil hkept hslice.ordered hlast hpos⟩
        · exact .inl hfull
        · exact absurd hnone' hnone
      exact (hguarded.foldl hkeptNow hordered).within
  · rw [hnow] at hx
    exact mem_of_past hslice.ordered hlast hx hpast
  · rw [hnow]
    exact level_of_unguarded hkept hslice.ordered htail hlast

/-- The trimmed shard comes first: what comes after does not step over the gap behind 3. -/
theorem stays_within_of_first_tail :
    let s : Selection := { count := 10, offset := 0, reverse := false, unique := false }
    let trimmed : ShardSlice Nat :=
      { elements := [⟨"a", .number 1, 0⟩, ⟨"a", .number 3, 1⟩], tailTrimmed := true }
    let other : ShardSlice Nat :=
      { elements := [⟨"b", .number 2, 2⟩, ⟨"b", .number 3, 3⟩, ⟨"b", .number 8, 4⟩] }
    (Sorted s.reverse trimmed.elements ∧ Sorted s.reverse other.elements ∧ trimmed.tailTrimmed ∧
      trimmed.elements.getLast? = some ⟨"a", .number 3, 1⟩) ∧
    (rounds s [trimmed, other]).2 =
      [⟨"a", .number 1, 0⟩, ⟨"b", .number 2, 2⟩, ⟨"a", .number 3, 1⟩, ⟨"b", .number 3, 3⟩] ∧
    Within s.reverse (.number 3) (rounds s [trimmed, other]).2 := by
  intro s trimmed other
  have htrimmed : Sorted s.reverse trimmed.elements := by
    simp only [trimmed, s, Sorted]
    decide
  have hother : Sorted s.reverse other.elements := by
    simp only [other, s, Sorted]
    decide
  refine ⟨⟨htrimmed, hother, rfl, rfl⟩, by decide, ?_⟩
  refine (stays_within_iff s [] trimmed ⟨"a", .number 3, 1⟩ (by simp) htrimmed rfl rfl).1.2
    ⟨by decide, .inl (by decide)⟩ [other] (by simpa using hother)

/-- The same two shards the other way round: 8 is in the list already, past the tail at 3 and
whatever is missing behind it. -/
theorem stepped_over_of_late_tail :
    let s : Selection := { count := 10, offset := 0, reverse := false, unique := false }
    let trimmed : ShardSlice Nat :=
      { elements := [⟨"a", .number 1, 0⟩, ⟨"a", .number 3, 1⟩], tailTrimmed := true }
    let other : ShardSlice Nat :=
      { elements := [⟨"b", .number 2, 2⟩, ⟨"b", .number 3, 3⟩, ⟨"b", .number 8, 4⟩] }
    Sorted s.reverse trimmed.elements ∧ Sorted s.reverse other.elements ∧
    trimmed.elements.getLast? = some ⟨"a", .number 3, 1⟩ ∧
    ¬ Within s.reverse (.number 3) (rounds s [other, trimmed]).2 := by
  intro s trimmed other
  refine ⟨?_, ?_, rfl, ?_⟩
  · simp only [trimmed, s, Sorted]
    decide
  · simp only [other, s, Sorted]
    decide
  · decide

end Legacy

end ShardedCache.SortedGet

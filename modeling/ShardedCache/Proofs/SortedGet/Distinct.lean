import ShardedCache.Proofs.SortedGet.Order
import ShardedCache.SortedGet.Merge.Current

/-!
# One element for each order key

A list whose order keys ascend strictly is settled by the element that it holds for each order key
(`eq_of_ascending_of_firstWith`). `dropRepeats` keeps the first element for each order key of an
ordered list, and a distinct merge holds for each order key what the left side has, or else what
the right side has first. Neither side of a distinct merge shows past the cut
(`take_mergeDistinct_take`).
-/

namespace ShardedCache.SortedGet

open OrderKey (Before)

variable {α : Type} {reverse : Bool}

/-- Sorted in the direction of the query. -/
def Sorted (reverse : Bool) (l : List (Element α)) : Prop :=
  l.Pairwise fun a b => Element.le reverse a b

/-- No order key stands before one to its left. -/
def Ordered (reverse : Bool) (l : List (Element α)) : Prop :=
  l.Pairwise fun a b => ¬ Before reverse b.orderKey a.orderKey

/-- Ordered, with each order key at most once. -/
def Ascending (reverse : Bool) (l : List (Element α)) : Prop :=
  l.Pairwise fun a b => Before reverse a.orderKey b.orderKey

/-- The first element with an order key. -/
def firstWith (k : OrderKey) (l : List (Element α)) : Option (Element α) :=
  l.find? (·.orderKey == k)

theorem Sorted.ordered {l : List (Element α)} (h : Sorted reverse l) : Ordered reverse l :=
  List.Pairwise.imp Element.not_before_of_le h

theorem Ascending.sorted {l : List (Element α)} (h : Ascending reverse l) : Sorted reverse l :=
  List.Pairwise.imp Element.le_of_before h

theorem Ascending.ordered {l : List (Element α)} (h : Ascending reverse l) : Ordered reverse l :=
  h.sorted.ordered

/-- Sorted lists of the same pairs have them in the same order. -/
theorem Sorted.map_pair_eq {l₁ l₂ : List (Element α)} (h₁ : Sorted reverse l₁)
    (h₂ : Sorted reverse l₂) (h : (l₁.map Element.pair).Perm (l₂.map Element.pair)) :
    l₁.map Element.pair = l₂.map Element.pair :=
  List.Perm.eq_of_pairwise (fun _ _ _ _ => eq_of_pairLe) (List.pairwise_map.2 h₁)
    (List.pairwise_map.2 h₂) h

theorem Ordered.ascending {l : List (Element α)} (h : Ordered reverse l)
    (hnodup : (l.map (·.orderKey)).Nodup) : Ascending reverse l :=
  (List.Pairwise.and h (List.pairwise_map.1 hnodup)).imp fun ⟨hle, hne⟩ =>
    (OrderKey.before_or_before reverse hne).resolve_right hle

/-- Nothing in an ordered list comes past its last element. -/
theorem Ordered.not_before_getLast {l : List (Element α)} {last : Element α}
    (h : Ordered reverse l) (hlast : l.getLast? = some last) :
    ∀ e ∈ l, ¬ Before reverse last.orderKey e.orderKey := by
  obtain ⟨front, rfl⟩ := List.getLast?_eq_some_iff.1 hlast
  intro e he
  rcases List.mem_append.1 he with he | he
  · exact (List.pairwise_append.1 h).2.2 e he last (by simp)
  · rw [List.mem_singleton.1 he]
    exact Before.irrefl _ _

theorem Ascending.nodup {l : List (Element α)} (h : Ascending reverse l) :
    (l.map (·.orderKey)).Nodup :=
  List.pairwise_map.2 (h.imp Before.ne)

/-- In an ordered list, what shares an order key at all stands side by side. -/
theorem Ordered.hasAdjacentDuplicates_iff : ∀ {l : List (Element α)}, Ordered reverse l →
    (hasAdjacentDuplicates l ↔ ¬ (l.map (·.orderKey)).Nodup)
  | [], _ => by simp [hasAdjacentDuplicates]
  | [a], _ => by simp [hasAdjacentDuplicates]
  | a :: b :: rest, h => by
    have ih := Ordered.hasAdjacentDuplicates_iff h.of_cons
    have hcons : ((a :: b :: rest).map (·.orderKey)).Nodup ↔
      a.orderKey ∉ (b :: rest).map (·.orderKey) ∧ ((b :: rest).map (·.orderKey)).Nodup :=
      List.nodup_cons
    rw [hasAdjacentDuplicates, Bool.or_eq_true, beq_iff_eq, ih, hcons]
    by_cases hab : a.orderKey = b.orderKey
    · simp [hab]
    · have hbefore : ∀ e ∈ b :: rest, Before reverse a.orderKey e.orderKey := by
        have hb := (OrderKey.before_or_before reverse hab).resolve_right
          (List.rel_of_pairwise_cons h (by simp))
        intro e he
        rcases List.mem_cons.1 he with rfl | he
        · exact hb
        · exact hb.trans_not (List.rel_of_pairwise_cons h.of_cons he)
      have hfresh : a.orderKey ∉ (b :: rest).map (·.orderKey) := by
        intro hmem
        obtain ⟨e, he, hkey⟩ := List.mem_map.1 hmem
        exact (hbefore e he).ne hkey.symm
      simp only [hab, false_or, hfresh, not_false_eq_true, true_and]

/-! ## The first element with an order key -/

@[simp] theorem firstWith_nil (k : OrderKey) : firstWith k ([] : List (Element α)) = none := rfl

theorem firstWith_cons (k : OrderKey) (a : Element α) (l : List (Element α)) :
    firstWith k (a :: l) = if a.orderKey = k then some a else firstWith k l := by
  simp only [firstWith, List.find?_cons]
  split <;> simp_all

theorem firstWith_append (k : OrderKey) (l₁ l₂ : List (Element α)) :
    firstWith k (l₁ ++ l₂) = (firstWith k l₁).or (firstWith k l₂) := List.find?_append

theorem firstWith_eq_none {k : OrderKey} {l : List (Element α)} :
    firstWith k l = none ↔ ∀ a ∈ l, a.orderKey ≠ k := by
  simp [firstWith]

theorem orderKey_of_firstWith {k : OrderKey} {l : List (Element α)} {a : Element α}
    (h : firstWith k l = some a) : a.orderKey = k := by
  simpa using List.find?_some h

/-- An order key before the head of an ordered list does not occur in it. -/
theorem firstWith_of_before_head {k : OrderKey} {a : Element α} {l : List (Element α)}
    (h : Ordered reverse (a :: l)) (hk : Before reverse k a.orderKey) :
    firstWith k (a :: l) = none := by
  refine firstWith_eq_none.2 fun b hb => ?_
  rcases List.mem_cons.1 hb with rfl | hb
  · exact hk.ne.symm
  · exact (hk.trans_not (List.rel_of_pairwise_cons h hb)).ne.symm

theorem firstWith_tail_of_ascending {a : Element α} {l : List (Element α)}
    (h : Ascending reverse (a :: l)) : firstWith a.orderKey l = none :=
  firstWith_eq_none.2 fun _ hb => (List.rel_of_pairwise_cons h hb).ne.symm

theorem eq_of_ascending_of_firstWith : ∀ {l₁ l₂ : List (Element α)}, Ascending reverse l₁ →
    Ascending reverse l₂ → (∀ k, firstWith k l₁ = firstWith k l₂) → l₁ = l₂
  | [], [], _, _, _ => rfl
  | [], b :: l₂, _, _, h => by simpa [firstWith_cons] using h b.orderKey
  | a :: l₁, [], _, _, h => by simpa [firstWith_cons] using h a.orderKey
  | a :: l₁, b :: l₂, h₁, h₂, h => by
    have hkey : a.orderKey = b.orderKey := by
      refine Decidable.byContradiction fun hne => ?_
      rcases OrderKey.before_or_before reverse hne with hab | hba
      · have := h a.orderKey
        rw [firstWith_of_before_head h₂.ordered hab] at this
        simp [firstWith_cons] at this
      · have := h b.orderKey
        rw [firstWith_of_before_head h₁.ordered hba] at this
        simp [firstWith_cons] at this
    have heq : a = b := by simpa [firstWith_cons, hkey] using h a.orderKey
    subst heq
    refine congrArg _ (eq_of_ascending_of_firstWith h₁.of_cons h₂.of_cons fun k => ?_)
    by_cases hk : a.orderKey = k
    · rw [← hk, firstWith_tail_of_ascending h₁, firstWith_tail_of_ascending h₂]
    · simpa [firstWith_cons, hk] using h k

/-! ## Dropping repeats -/

namespace Current

/-- What is dropped shares its order key with `last` or with an element that is kept. -/
theorem firstWith_dropRepeats (k : OrderKey) : ∀ {last : Option OrderKey} {l : List (Element α)},
    Ordered reverse l → (∀ p ∈ last, ∀ a ∈ l, ¬ Before reverse a.orderKey p) →
    firstWith k (dropRepeats last l) = if last = some k then none else firstWith k l
  | last, [], _, _ => by simp [dropRepeats]
  | last, a :: l, h, hlast => by
    unfold dropRepeats
    by_cases ha : last = some a.orderKey
    · rw [if_pos ha, firstWith_dropRepeats k h.of_cons fun p hp b hb => hlast p hp b (by simp [hb]),
        firstWith_cons]
      split
      · rfl
      · next hk =>
        have hne : a.orderKey ≠ k := fun hak => hk (by rw [ha, hak])
        rw [if_neg hne]
    · have hhead : ∀ p ∈ some a.orderKey, ∀ b ∈ l, ¬ Before reverse b.orderKey p := by
        rintro p ⟨⟩ b hb
        exact List.rel_of_pairwise_cons h hb
      rw [if_neg ha, firstWith_cons, firstWith_dropRepeats k h.of_cons hhead, firstWith_cons]
      by_cases hk : a.orderKey = k
      · simp [hk, hk ▸ ha]
      · rw [if_neg hk, if_neg hk, if_neg (by simpa using hk)]
        split
        · next hlk =>
          -- `k` was seen before `a`, so nothing behind `a` has it
          refine firstWith_eq_none.2 fun b hb => ?_
          have hak := hlast k hlk a (by simp)
          have hka : Before reverse k a.orderKey :=
            (OrderKey.before_or_before reverse hk).resolve_left hak
          exact (hka.trans_not (List.rel_of_pairwise_cons h hb)).ne.symm
        · rfl

theorem ascending_dropRepeats : ∀ {last : Option OrderKey} {l : List (Element α)},
    Ordered reverse l → (∀ p ∈ last, ∀ a ∈ l, ¬ Before reverse a.orderKey p) →
    Ascending reverse (dropRepeats last l) ∧
      ∀ p ∈ last, ∀ a ∈ dropRepeats last l, Before reverse p a.orderKey
  | last, [], _, _ => by simp [dropRepeats, Ascending]
  | last, a :: l, h, hlast => by
    unfold dropRepeats
    by_cases ha : last = some a.orderKey
    · rw [if_pos ha]
      exact ascending_dropRepeats h.of_cons fun p hp b hb => hlast p hp b (by simp [hb])
    · have hhead : ∀ p ∈ some a.orderKey, ∀ b ∈ l, ¬ Before reverse b.orderKey p := by
        rintro p ⟨⟩ b hb
        exact List.rel_of_pairwise_cons h hb
      obtain ⟨hasc, hafter⟩ := ascending_dropRepeats h.of_cons hhead
      rw [if_neg ha]
      refine ⟨List.Pairwise.cons (fun b hb => hafter _ rfl b hb) hasc, fun p hp b hb => ?_⟩
      have hpa : Before reverse p a.orderKey := by
        have hne : p ≠ a.orderKey := fun hpa => ha (hpa ▸ hp)
        exact (OrderKey.before_or_before reverse hne).resolve_right (hlast p hp a (by simp))
      rcases List.mem_cons.1 hb with rfl | hb
      · exact hpa
      · exact hpa.trans (hafter _ rfl b hb)

theorem dropRepeats_none_ascending {l : List (Element α)} (h : Ordered reverse l) :
    Ascending reverse (dropRepeats none l) :=
  (ascending_dropRepeats h (by simp)).1

theorem firstWith_dropRepeats_none (k : OrderKey) {l : List (Element α)}
    (h : Ordered reverse l) : firstWith k (dropRepeats none l) = firstWith k l := by
  have := @firstWith_dropRepeats α reverse k none l h (by simp)
  simpa using this

theorem dropRepeats_of_ascending {l : List (Element α)} (h : Ascending reverse l) :
    dropRepeats none l = l :=
  eq_of_ascending_of_firstWith (dropRepeats_none_ascending h.ordered) h
    fun k => firstWith_dropRepeats_none k h.ordered

/-! ## Merging -/

theorem mem_mergeDistinct {e : Element α} {l r : List (Element α)}
    (h : e ∈ mergeDistinct reverse l r) : e ∈ l ∨ e ∈ r := by
  fun_induction mergeDistinct reverse l r with
  | case1 r => exact .inr h
  | case2 l => exact .inl h
  | case3 a l b r hkey ih =>
    rcases List.mem_cons.1 h with rfl | h
    · simp
    · rcases ih h with h | h <;> simp [h]
  | case4 a l b r hkey hle ih =>
    rcases List.mem_cons.1 h with rfl | h
    · simp
    · rcases ih h with h | h
      · simp [h]
      · exact .inr h
  | case5 a l b r hkey hle ih =>
    rcases List.mem_cons.1 h with rfl | h
    · simp
    · rcases ih h with h | h
      · exact .inl h
      · simp [h]

theorem ordered_mergeDistinct {l r : List (Element α)} (hl : Ordered reverse l)
    (hr : Ordered reverse r) : Ordered reverse (mergeDistinct reverse l r) := by
  fun_induction mergeDistinct reverse l r with
  | case1 r => exact hr
  | case2 l => exact hl
  | case3 a l b r hkey ih =>
    refine List.Pairwise.cons (fun e he => ?_) (ih hl.of_cons hr.of_cons)
    rcases mem_mergeDistinct he with he | he
    · exact List.rel_of_pairwise_cons hl he
    · rw [hkey]
      exact List.rel_of_pairwise_cons hr he
  | case4 a l b r hkey hle ih =>
    refine List.Pairwise.cons (fun e he => ?_) (ih hl.of_cons hr)
    rcases mem_mergeDistinct he with he | he
    · exact List.rel_of_pairwise_cons hl he
    · have hab := Element.before_of_le hle hkey
      rcases List.mem_cons.1 he with rfl | he
      · exact hab.asymm
      · exact (hab.trans_not (List.rel_of_pairwise_cons hr he)).asymm
  | case5 a l b r hkey hle ih =>
    refine List.Pairwise.cons (fun e he => ?_) (ih hl hr.of_cons)
    rcases mem_mergeDistinct he with he | he
    · have hba := Element.before_of_not_le hle hkey
      rcases List.mem_cons.1 he with rfl | he
      · exact hba.asymm
      · exact (hba.trans_not (List.rel_of_pairwise_cons hl he)).asymm
    · exact List.rel_of_pairwise_cons hr he

/-- The running result wins: the right side counts only where the left has nothing. -/
theorem firstWith_mergeDistinct (k : OrderKey) {l r : List (Element α)}
    (hl : Ordered reverse l) :
    firstWith k (mergeDistinct reverse l r) = (firstWith k l).or (firstWith k r) := by
  fun_induction mergeDistinct reverse l r with
  | case1 r => simp
  | case2 l => simp
  | case3 a l b r hkey ih =>
    rw [firstWith_cons, firstWith_cons, firstWith_cons, ih hl.of_cons, ← hkey]
    split <;> rfl
  | case4 a l b r hkey hle ih =>
    rw [firstWith_cons, firstWith_cons, ih hl.of_cons]
    split <;> rfl
  | case5 a l b r hkey hle ih =>
    rw [firstWith_cons, firstWith_cons (l := r), ih hl]
    split
    · next hb =>
      -- the order key of `b` stands before everything on the left
      rw [← hb, firstWith_of_before_head hl (Element.before_of_not_le hle hkey)]
      rfl
    · rfl

theorem ascending_mergeDistinct {l r : List (Element α)} (hl : Ascending reverse l)
    (hr : Ascending reverse r) : Ascending reverse (mergeDistinct reverse l r) := by
  fun_induction mergeDistinct reverse l r with
  | case1 r => exact hr
  | case2 l => exact hl
  | case3 a l b r hkey ih =>
    refine List.Pairwise.cons (fun e he => ?_) (ih hl.of_cons hr.of_cons)
    rcases mem_mergeDistinct he with he | he
    · exact List.rel_of_pairwise_cons hl he
    · rw [hkey]
      exact List.rel_of_pairwise_cons hr he
  | case4 a l b r hkey hle ih =>
    refine List.Pairwise.cons (fun e he => ?_) (ih hl.of_cons hr)
    rcases mem_mergeDistinct he with he | he
    · exact List.rel_of_pairwise_cons hl he
    · have hab := Element.before_of_le hle hkey
      rcases List.mem_cons.1 he with rfl | he
      · exact hab
      · exact hab.trans (List.rel_of_pairwise_cons hr he)
  | case5 a l b r hkey hle ih =>
    refine List.Pairwise.cons (fun e he => ?_) (ih hl hr.of_cons)
    rcases mem_mergeDistinct he with he | he
    · have hba := Element.before_of_not_le hle hkey
      rcases List.mem_cons.1 he with rfl | he
      · exact hba
      · exact hba.trans (List.rel_of_pairwise_cons hl he)
    · exact List.rel_of_pairwise_cons hr he

/-- Repeats within the shard may be dropped before the merge. -/
theorem dropRepeats_mergeDistinct {l r : List (Element α)} (hl : Ascending reverse l)
    (hr : Ordered reverse r) :
    dropRepeats none (mergeDistinct reverse l r) = mergeDistinct reverse l (dropRepeats none r) := by
  have hlr := ordered_mergeDistinct hl.ordered hr
  refine eq_of_ascending_of_firstWith (dropRepeats_none_ascending hlr)
    (ascending_mergeDistinct hl (dropRepeats_none_ascending hr)) fun k => ?_
  rw [firstWith_dropRepeats_none k hlr, firstWith_mergeDistinct k hl.ordered,
    firstWith_mergeDistinct k hl.ordered, firstWith_dropRepeats_none k hr]

/-- Every element that the result holds comes with at most one from each side. -/
theorem take_mergeDistinct_take : ∀ {n i j : Nat} (l r : List (Element α)), n ≤ i → n ≤ j →
    (mergeDistinct reverse (l.take i) (r.take j)).take n = (mergeDistinct reverse l r).take n
  | n, i, j, [], r, _, hj => by simp [mergeDistinct, List.take_take, Nat.min_eq_left hj]
  | 0, _, _, _, _, _, _ => by simp
  | n + 1, i + 1, j + 1, a :: l, [], hi, _ => by
    simp [mergeDistinct, List.take_take, Nat.min_eq_left (Nat.le_of_succ_le_succ hi)]
  | n + 1, i + 1, j + 1, a :: l, b :: r, hi, hj => by
    simp only [List.take_succ_cons, mergeDistinct]
    by_cases hkey : a.orderKey = b.orderKey
    · rw [if_pos hkey, if_pos hkey, List.take_succ_cons, List.take_succ_cons,
        take_mergeDistinct_take l r (Nat.le_of_succ_le_succ hi) (Nat.le_of_succ_le_succ hj)]
    · rw [if_neg hkey, if_neg hkey]
      by_cases hle : Element.le reverse a b
      · have ih := @take_mergeDistinct_take n i (j + 1) l (b :: r) (by omega) (by omega)
        rw [List.take_succ_cons] at ih
        rw [if_pos hle, if_pos hle, List.take_succ_cons, List.take_succ_cons, ih]
      · have ih := @take_mergeDistinct_take n (i + 1) j (a :: l) r (by omega) (by omega)
        rw [List.take_succ_cons] at ih
        rw [if_neg hle, if_neg hle, List.take_succ_cons, List.take_succ_cons, ih]
termination_by _ _ _ l r => l.length + r.length

theorem take_mergeDistinct_take_left (n : Nat) (l r : List (Element α)) :
    (mergeDistinct reverse (l.take n) r).take n = (mergeDistinct reverse l r).take n := by
  have := @take_mergeDistinct_take α reverse n n (max n r.length) l r (Nat.le_refl _)
    (Nat.le_max_left _ _)
  rwa [List.take_of_length_le (Nat.le_max_right _ _)] at this

theorem take_mergeDistinct_take_right (n : Nat) (l r : List (Element α)) :
    (mergeDistinct reverse l (r.take n)).take n = (mergeDistinct reverse l r).take n := by
  have := @take_mergeDistinct_take α reverse n (max n l.length) n l r (Nat.le_max_left _ _)
    (Nat.le_refl _)
  rwa [List.take_of_length_le (Nat.le_max_right _ _)] at this

end Current

end ShardedCache.SortedGet

/-!
# Stable sorting, merging and cutting

A sorted list is settled by what it holds of each class of level elements, in order
(`eq_of_sorted_of_level`). So merging a sorted list into a sorted one is the stable sort of the two
joined, and sorting commutes with every filter. A cap on the sides of a merge does not show below
the cap (`take_merge_take`), and neither do elements that stand past the cut
(`take_eq_of_filter_eq`).
-/

namespace ShardedCache.StableSort

variable {α : Type} {le : α → α → Bool}

/-- Neither of the two has to stand in front. -/
def level (le : α → α → Bool) (a b : α) : Bool := le a b && le b a

section
variable (total : ∀ a b, (le a b || le b a) = true)
include total

theorem level_self (a : α) : level le a a = true := by
  have := total a a
  simp_all [level]

theorem eq_of_sorted_of_level : ∀ {l₁ l₂ : List α}, l₁.Pairwise (le · ·) → l₂.Pairwise (le · ·) →
    (∀ a, l₁.filter (level le a) = l₂.filter (level le a)) → l₁ = l₂
  | [], [], _, _, _ => rfl
  | [], b :: l₂, _, _, h => by simpa [level_self total] using h b
  | a :: l₁, [], _, _, h => by simpa [level_self total] using h a
  | a :: l₁, b :: l₂, h₁, h₂, h => by
    -- the heads are level, since each occurs on the other side
    have ha : a ∈ (b :: l₂).filter (level le a) := by rw [← h a]; simp [level_self total]
    have hb : b ∈ (a :: l₁).filter (level le b) := by rw [h b]; simp [level_self total]
    have hba : le b a := by
      rcases List.mem_cons.1 (List.mem_filter.1 ha).1 with rfl | hm
      · have := total a a; simp_all
      · exact List.rel_of_pairwise_cons h₂ hm
    have hab : le a b := by
      rcases List.mem_cons.1 (List.mem_filter.1 hb).1 with rfl | hm
      · have := total b b; simp_all
      · exact List.rel_of_pairwise_cons h₁ hm
    have heq : a = b := by
      have := h a
      rw [List.filter_cons_of_pos (level_self total a),
        List.filter_cons_of_pos (by simp [level, hab, hba])] at this
      exact (List.cons.inj this).1
    subst heq
    have htail : ∀ x, l₁.filter (level le x) = l₂.filter (level le x) := by
      intro x
      have := h x
      by_cases hx : level le x a
      · simpa [hx] using this
      · simpa [hx] using this
    rw [eq_of_sorted_of_level h₁.of_cons h₂.of_cons htail]

end

section
variable (trans : ∀ a b c, le a b → le b c → le a c)
  (total : ∀ a b, (le a b || le b a) = true)
include trans total

theorem filter_level_mergeSort (l : List α) (a : α) :
    (l.mergeSort le).filter (level le a) = l.filter (level le a) := by
  -- a class of level elements is sorted already, so the sort keeps it in order
  have hclass : (l.filter (level le a)).Pairwise (le · ·) := by
    refine List.Pairwise.imp_of_mem ?_ (List.pairwise_of_forall (R := fun _ _ => True) (by simp))
    intro x y hx hy _
    have hx' := (List.mem_filter.1 hx).2
    have hy' := (List.mem_filter.1 hy).2
    simp only [level, Bool.and_eq_true] at hx' hy'
    exact trans x a y hx'.2 hy'.1
  have hsub := (List.sublist_mergeSort trans total hclass List.filter_sublist).filter (level le a)
  rw [List.filter_filter] at hsub
  simp only [Bool.and_self] at hsub
  exact (hsub.eq_of_length ((List.mergeSort_perm l le).filter _).length_eq.symm).symm

theorem filter_level_merge (a : α) : ∀ {l r : List α}, l.Pairwise (le · ·) →
    (l.merge r le).filter (level le a) = l.filter (level le a) ++ r.filter (level le a)
  | [], r, _ => by simp
  | x :: l, [], _ => by simp
  | x :: l, y :: r, h => by
    by_cases hxy : le x y
    · rw [List.cons_merge_cons_pos _ _ _ hxy, List.filter_cons, List.filter_cons,
        filter_level_merge a h.of_cons]
      split <;> simp
    · rw [List.cons_merge_cons_neg _ _ _ hxy, List.filter_cons,
        List.filter_cons (x := y), filter_level_merge a h]
      split
      · next hy =>
        -- everything on the left comes strictly after the class of `y`
        have hleft : (x :: l).filter (level le a) = [] := by
          refine List.filter_eq_nil_iff.2 fun z hz hlevel => hxy ?_
          simp only [level, Bool.and_eq_true] at hy hlevel
          have hxz : le x z := by
            rcases List.mem_cons.1 hz with rfl | hz
            · have := total z z; simp_all
            · exact List.rel_of_pairwise_cons h hz
          exact trans x z y hxz (trans z a y hlevel.2 hy.1)
        rw [hleft]
        rfl
      · rfl

/-- Merging a sorted list in is sorting it in behind what came before. -/
theorem merge_mergeSort (l : List α) {r : List α} (hr : r.Pairwise (le · ·)) :
    (l.mergeSort le).merge r le = (l ++ r).mergeSort le := by
  have hl := List.pairwise_mergeSort trans total l
  refine eq_of_sorted_of_level total (List.pairwise_merge trans total _ _ hl hr)
    (List.pairwise_mergeSort trans total _) fun a => ?_
  rw [filter_level_merge trans total a hl, filter_level_mergeSort trans total,
    filter_level_mergeSort trans total, List.filter_append]

theorem filter_mergeSort (p : α → Bool) (l : List α) :
    (l.mergeSort le).filter p = (l.filter p).mergeSort le := by
  refine eq_of_sorted_of_level total ((List.pairwise_mergeSort trans total l).filter p)
    (List.pairwise_mergeSort trans total _) fun a => ?_
  rw [List.filter_filter, filter_level_mergeSort trans total, List.filter_filter]
  simp only [Bool.and_comm (level le a _)]
  rw [← List.filter_filter, filter_level_mergeSort trans total, List.filter_filter]

/-- Where level elements are equal, the order does not matter. -/
theorem mergeSort_eq_of_perm {l₁ l₂ : List α}
    (antisymm : ∀ a ∈ l₁, ∀ b ∈ l₁, le a b → le b a → a = b) (h : l₁.Perm l₂) :
    l₁.mergeSort le = l₂.mergeSort le := by
  refine List.Perm.eq_of_pairwise (fun a b ha hb => ?_) (List.pairwise_mergeSort trans total l₁)
    (List.pairwise_mergeSort trans total l₂)
    ((List.mergeSort_perm l₁ le).trans (h.trans (List.mergeSort_perm l₂ le).symm))
  exact antisymm a (List.mem_mergeSort.1 ha) b (h.mem_iff.2 (List.mem_mergeSort.1 hb))

/-- Lists that hold the same of each class of level elements sort alike. -/
theorem mergeSort_congr {l₁ l₂ : List α}
    (h : ∀ a, l₁.filter (level le a) = l₂.filter (level le a)) :
    l₁.mergeSort le = l₂.mergeSort le := by
  refine eq_of_sorted_of_level total (List.pairwise_mergeSort trans total l₁)
    (List.pairwise_mergeSort trans total l₂) fun a => ?_
  rw [filter_level_mergeSort trans total, filter_level_mergeSort trans total, h a]

end

/-! ## Cutting -/

/-- What a side holds past `n` elements cannot be among the first `n` of the merge. -/
theorem take_merge_take : ∀ {n i j : Nat} (l r : List α), n ≤ i → n ≤ j →
    ((l.take i).merge (r.take j) le).take n = (l.merge r le).take n
  | n, i, j, [], r, _, hj => by simp [List.take_take, Nat.min_eq_left hj]
  | n, i, j, x :: l, [], hi, _ => by simp [List.take_take, Nat.min_eq_left hi]
  | 0, _, _, _ :: _, _ :: _, _, _ => by simp
  | n + 1, i + 1, j + 1, x :: l, y :: r, hi, hj => by
    simp only [List.take_succ_cons]
    by_cases hxy : le x y
    · have ih := @take_merge_take n i (j + 1) l (y :: r) (by omega) (by omega)
      rw [List.take_succ_cons] at ih
      rw [List.cons_merge_cons_pos _ _ _ hxy, List.cons_merge_cons_pos _ _ _ hxy,
        List.take_succ_cons, List.take_succ_cons, ih]
    · have ih := @take_merge_take n (i + 1) j (x :: l) r (by omega) (by omega)
      rw [List.take_succ_cons] at ih
      rw [List.cons_merge_cons_neg _ _ _ hxy, List.cons_merge_cons_neg _ _ _ hxy,
        List.take_succ_cons, List.take_succ_cons, ih]

theorem take_merge_take_left (n : Nat) (l r : List α) :
    ((l.take n).merge r le).take n = (l.merge r le).take n := by
  have := @take_merge_take α le n n (max n r.length) l r (Nat.le_refl _) (Nat.le_max_left _ _)
  rwa [List.take_of_length_le (Nat.le_max_right _ _)] at this

theorem take_merge_take_right (n : Nat) (l r : List α) :
    (l.merge (r.take n) le).take n = (l.merge r le).take n := by
  have := @take_merge_take α le n (max n l.length) n l r (Nat.le_max_left _ _) (Nat.le_refl _)
  rwa [List.take_of_length_le (Nat.le_max_right _ _)] at this

/-- In a sorted list, a filter that lets nothing through behind a refused element keeps a front. -/
theorem filter_append_filter_not {p : α → Bool} : ∀ {l : List α},
    l.Pairwise (fun a b => p b → p a) → l.filter p ++ l.filter (!p ·) = l
  | [], _ => rfl
  | a :: l, h => by
    have ih := filter_append_filter_not h.of_cons
    cases ha : p a with
    | true => simpa [ha] using ih
    | false =>
      have hnone : l.filter p = [] :=
        List.filter_eq_nil_iff.2 fun b hb hpb => by
          have := List.rel_of_pairwise_cons h hb hpb
          simp_all
      rw [hnone, List.nil_append] at ih
      simp [ha, hnone, ih]

/-- Two sorted lists that agree on what a front filter lets through agree up to any cut within
it. -/
theorem take_eq_of_filter_eq {p : α → Bool} {n : Nat} {l₁ l₂ : List α}
    (h₁ : l₁.Pairwise fun a b => p b → p a) (h₂ : l₂.Pairwise fun a b => p b → p a)
    (h : l₁.filter p = l₂.filter p) (hn : n ≤ (l₁.filter p).length) : l₁.take n = l₂.take n := by
  rw [← filter_append_filter_not h₁, ← filter_append_filter_not h₂, ← h,
    List.take_append_of_le_length hn, List.take_append_of_le_length hn]

/-- A filter that holds on the first `n` elements lets at least so many through. -/
theorem le_length_filter {p : α → Bool} {n : Nat} {l : List α} (hn : n ≤ l.length)
    (h : ∀ a ∈ l.take n, p a) : n ≤ (l.filter p).length := by
  have hfront : (l.take n).filter p = l.take n := List.filter_eq_self.2 h
  have hsub := ((List.take_sublist n l).filter p).length_le
  rw [hfront, List.length_take_of_le hn] at hsub
  exact hsub

end ShardedCache.StableSort

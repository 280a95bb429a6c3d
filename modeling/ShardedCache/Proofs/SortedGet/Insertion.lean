import Mathlib.Logic.Relation
import Mathlib.Tactic.Tauto
import ShardedCache.Proofs.SortedGet.Distinct
import ShardedCache.SortedGet.Merge.Legacy

/-!
# Walking along the merged list

`Legacy.insertAll` walks along the merged list and inserts as it goes. A `Walk` is where it stands,
`Walk.Step` is all that it can do there and `Walk.Stops` are the places where it leaves off, so what
every step keeps holds of the result (`insertAll_eq`). What is kept whatever the shard: the list gets
no shorter and stays within the reach (`Walk.Bounded`), its order keys stay in order
(`Walk.InOrder`), and as long as there is room nothing is left out (`Walk.Covers`).
-/

namespace ShardedCache.SortedGet

open OrderKey (Before)

variable {α : Type} {reverse : Bool}

namespace Element

theorem compare_eq_lt_iff {a b : Element α} : compare reverse a b = .lt ↔ ¬ le reverse b a := by
  unfold le compare
  rw [compareKeys_swap reverse (b.orderKey, b.key)]
  cases compareKeys reverse (a.orderKey, a.key) (b.orderKey, b.key) <;> simp

end Element

namespace Legacy

theorem sharesKey_eq_true {side : List (Element α)} {e : Element α} :
    sharesKey side e = true ↔ ∃ a rest, side = a :: rest ∧ a.orderKey = e.orderKey := by
  cases side <;> simp [sharesKey]

/-- A place in the merged list, and what is still to be inserted. -/
structure Walk (α : Type) where
  passed : List (Element α)
  ahead : List (Element α)
  shard : List (Element α)

namespace Walk

/-- The merged list, with the place forgotten. -/
def merged (w : Walk α) : List (Element α) := w.passed.reverse ++ w.ahead

theorem length_merged (w : Walk α) : w.merged.length = w.passed.length + w.ahead.length := by
  simp [merged]

theorem mem_merged {w : Walk α} {x : Element α} : x ∈ w.merged ↔ x ∈ w.passed ∨ x ∈ w.ahead := by
  simp [merged]

/-- The place is right for `e`: nothing ahead comes strictly before it, there is room for it, and it
does not open a gap behind a trimmed tail. -/
structure Here (s : Selection) (trimmed : Bool) (passed ahead : List (Element α)) (e : Element α) :
    Prop where
  inFront : ∀ a ∈ ahead.head?, Element.le s.reverse e a
  room : passed.length < s.reach
  contiguous : ahead = [] → trimmed → passed ≠ [] → sharesKey passed e

/-- What the walk can do with the next element of the shard. -/
inductive Step (s : Selection) (trimmed : Bool) : Walk α → Walk α → Prop where
  | pass {passed ahead shard : List (Element α)} {a e : Element α}
    (before : ¬ Element.le s.reverse e a) :
    Step s trimmed ⟨passed, a :: ahead, e :: shard⟩ ⟨a :: passed, ahead, e :: shard⟩
  /-- The order key was met just behind. -/
  | skip {passed ahead shard : List (Element α)} {e : Element α} (here : Here s trimmed passed ahead e)
    (unique : s.unique) (behind : sharesKey passed e) :
    Step s trimmed ⟨passed, ahead, e :: shard⟩ ⟨passed, ahead, shard⟩
  /-- The order key is met just ahead. -/
  | meet {passed ahead shard : List (Element α)} {a e : Element α}
    (here : Here s trimmed passed (a :: ahead) e) (unique : s.unique) (fresh : ¬ sharesKey passed e)
    (level : a.orderKey = e.orderKey) :
    Step s trimmed ⟨passed, a :: ahead, e :: shard⟩ ⟨a :: passed, ahead, shard⟩
  | insert {passed ahead shard : List (Element α)} {e : Element α}
    (here : Here s trimmed passed ahead e)
    (fresh : s.unique → ¬ sharesKey passed e ∧ ¬ sharesKey ahead e) :
    Step s trimmed ⟨passed, ahead, e :: shard⟩
      ⟨e :: passed, ahead.take (s.reach - passed.length - 1), shard⟩

/-- Where the walk leaves off. -/
inductive Stops (s : Selection) (trimmed : Bool) : Walk α → Prop where
  | done {passed ahead : List (Element α)} : Stops s trimmed ⟨passed, ahead, []⟩
  | full {passed ahead shard : List (Element α)} (h : s.reach ≤ passed.length) :
    Stops s trimmed ⟨passed, ahead, shard⟩
  | gap {passed shard : List (Element α)} (h : trimmed) : Stops s trimmed ⟨passed, [], shard⟩

/-- Where it does not leave off it goes on, and the rest of the way gives the same list. -/
theorem stops_or_step (s : Selection) (trimmed : Bool) (w : Walk α) :
    (Stops s trimmed w ∧ insertAll s trimmed w.passed w.ahead w.shard = w.merged) ∨
      ∃ w', Step s trimmed w w' ∧ insertAll s trimmed w.passed w.ahead w.shard =
        insertAll s trimmed w'.passed w'.ahead w'.shard := by
  obtain ⟨passed, ahead, shard⟩ := w
  cases shard with
  | nil => exact .inl ⟨.done, by rw [insertAll]; rfl⟩
  | cons e shard =>
    by_cases hpass : ∃ a rest, ahead = a :: rest ∧ ¬ Element.le s.reverse e a
    · obtain ⟨a, rest, rfl, hlt⟩ := hpass
      refine .inr ⟨_, .pass hlt, ?_⟩
      have hcompare := Element.compare_eq_lt_iff.2 hlt
      simp only [insertAll, advance, hcompare, ↓reduceIte]
    have hfront : ∀ a ∈ ahead.head?, Element.le s.reverse e a := by
      intro a ha
      refine Decidable.byContradiction fun hlt => hpass ⟨a, ahead.tail, ?_, hlt⟩
      cases ahead <;> simp_all
    have hadvance : advance s.reverse e passed ahead = (passed, ahead) := by
      cases ahead with
      | nil => rfl
      | cons a rest =>
        have hle := hfront a rfl
        simp [advance, Element.compare_eq_lt_iff, hle]
    simp only [insertAll, hadvance]
    split
    · next hfull => exact .inl ⟨.full hfull, rfl⟩
    next hroom =>
    split
    · next hgap =>
      simp only [Bool.and_eq_true, List.isEmpty_iff] at hgap
      obtain ⟨⟨⟨rfl, ht⟩, -⟩, -⟩ := hgap
      exact .inl ⟨.gap ht, rfl⟩
    next hopen =>
    have hhere : Here s trimmed passed ahead e := by
      refine ⟨hfront, Nat.lt_of_not_le hroom, fun hnil ht hne => ?_⟩
      simp_all
    split
    · next hbehind =>
      rw [Bool.and_eq_true] at hbehind
      exact .inr ⟨_, .skip hhere hbehind.1 hbehind.2, rfl⟩
    next hbehind =>
    have hfresh : s.unique → ¬ sharesKey passed e := fun hu h => hbehind (by simp [hu, h])
    split
    · next a rest hahead =>
      rw [Bool.and_eq_true] at hahead
      refine .inr ⟨_, .meet hhere hahead.1 (hfresh hahead.1) ?_, rfl⟩
      simpa [sharesKey] using hahead.2
    · next hahead =>
      refine .inr ⟨_, .insert hhere fun hu => ⟨hfresh hu, fun h => ?_⟩, rfl⟩
      obtain ⟨a, rest, rfl, hkey⟩ := sharesKey_eq_true.1 h
      exact hahead a rest (by simp [hu, sharesKey, hkey]) rfl

/-- What is left to do. -/
def left (w : Walk α) : Nat := w.ahead.length + 2 * w.shard.length

theorem Step.left_lt {s : Selection} {trimmed : Bool} {w w' : Walk α} (h : Step s trimmed w w') :
    w'.left < w.left := by
  cases h <;> simp only [left, List.length_cons, List.length_take] <;> omega

/-- **Inserting is walking**: the result is the list at the place where the walk leaves off. -/
theorem insertAll_eq (s : Selection) (trimmed : Bool) (w : Walk α) :
    ∃ w', Relation.ReflTransGen (Step s trimmed) w w' ∧ Stops s trimmed w' ∧
      insertAll s trimmed w.passed w.ahead w.shard = w'.merged := by
  induction hn : w.left using Nat.strongRecOn generalizing w with
  | ind n ih =>
    rcases stops_or_step s trimmed w with ⟨hstops, heq⟩ | ⟨w', hstep, heq⟩
    · exact ⟨w, .refl, hstops, heq⟩
    · obtain ⟨w'', hsteps, hstops, heq'⟩ := ih w'.left (hn ▸ hstep.left_lt) w' rfl
      exact ⟨w'', .head hstep hsteps, hstops, heq.trans heq'⟩

variable {s : Selection} {trimmed : Bool} {w w' : Walk α}

/-- What every step keeps, the walk keeps. -/
theorem kept (inv : Walk α → Prop) (hstep : ∀ {w w'}, Step s trimmed w w' → inv w → inv w')
    (h : Relation.ReflTransGen (Step s trimmed) w w') (hw : inv w) : inv w' := by
  induction h with
  | refl => exact hw
  | tail _ hlast ih => exact hstep hlast ih

/-! ## Room -/

/-- No more than matters is kept. -/
def Bounded (s : Selection) (w : Walk α) : Prop := w.merged.length ≤ s.reach

theorem Step.bounded (h : Step s trimmed w w') (hw : w.Bounded s) :
    w'.Bounded s ∧ w.merged.length ≤ w'.merged.length := by
  unfold Bounded at hw ⊢
  rw [length_merged] at hw ⊢
  rw [length_merged]
  cases h with
  | pass before => simp only [List.length_cons] at hw ⊢; omega
  | skip here => exact ⟨hw, Nat.le_refl _⟩
  | meet here => simp only [List.length_cons] at hw ⊢; omega
  | insert here =>
    have := here.room
    simp only [List.length_cons, List.length_take] at hw ⊢
    omega

theorem steps_bounded (h : Relation.ReflTransGen (Step s trimmed) w w') (hw : w.Bounded s) :
    w'.Bounded s ∧ w.merged.length ≤ w'.merged.length :=
  kept (fun w' => w'.Bounded s ∧ w.merged.length ≤ w'.merged.length)
    (fun hstep hw => (hstep.bounded hw.1).imp_right (Nat.le_trans hw.2)) h ⟨hw, Nat.le_refl _⟩

/-! ## Order -/

/-- The list is in order, and what has been passed does not come after what is to be inserted. -/
structure InOrder (reverse : Bool) (w : Walk α) : Prop where
  merged : Ordered reverse w.merged
  shard : Ordered reverse w.shard
  behind : ∀ p ∈ w.passed, ∀ e ∈ w.shard, ¬ Before reverse e.orderKey p.orderKey

/-- An element that fits between what is behind and what is ahead may be inserted. -/
theorem pairwise_insert {r : Element α → Element α → Prop} {passed ahead : List (Element α)}
    {e : Element α} (h : (passed.reverse ++ ahead).Pairwise r) (hbehind : ∀ p ∈ passed, r p e)
    (hfront : ∀ a ∈ ahead, r e a) (n : Nat) :
    ((e :: passed).reverse ++ ahead.take n).Pairwise r := by
  obtain ⟨hpassed, hahead, hacross⟩ := List.pairwise_append.1 h
  rw [List.reverse_cons, List.append_assoc, List.singleton_append]
  refine List.pairwise_append.2 ⟨hpassed, List.pairwise_cons.2 ⟨?_, ?_⟩, fun p hp a ha => ?_⟩
  · exact fun a ha => hfront a (List.mem_of_mem_take ha)
  · exact hahead.sublist (List.take_sublist _ _)
  · rcases List.mem_cons.1 ha with rfl | ha
    · exact hbehind p (List.mem_reverse.1 hp)
    · exact hacross p hp a (List.mem_of_mem_take ha)

section InOrder

variable {passed ahead shard : List (Element α)} {e : Element α}

theorem InOrder.not_before_of_inFront (h : InOrder reverse ⟨passed, ahead, e :: shard⟩)
    (inFront : ∀ a ∈ ahead.head?, Element.le reverse e a) :
    ∀ a ∈ ahead, ¬ Before reverse a.orderKey e.orderKey := by
  intro a ha
  have hahead := (List.pairwise_append.1 h.merged).2.1
  cases ahead with
  | nil => cases ha
  | cons b rest =>
    have hbe := Element.not_before_of_le (inFront b rfl)
    rcases List.mem_cons.1 ha with rfl | ha
    · exact hbe
    · exact OrderKey.not_before_trans hbe (List.rel_of_pairwise_cons hahead ha)

/-- Where the next one ahead has another order key, all of them come strictly after `e`. -/
theorem InOrder.before_of_inFront (h : InOrder reverse ⟨passed, ahead, e :: shard⟩)
    (inFront : ∀ a ∈ ahead.head?, Element.le reverse e a) (fresh : ¬ sharesKey ahead e) :
    ∀ a ∈ ahead, Before reverse e.orderKey a.orderKey := by
  intro a ha
  have hahead := (List.pairwise_append.1 h.merged).2.1
  cases ahead with
  | nil => cases ha
  | cons b rest =>
    have hkey : b.orderKey ≠ e.orderKey := by simpa [sharesKey] using fresh
    have heb := Element.before_of_le (inFront b rfl) hkey.symm
    rcases List.mem_cons.1 ha with rfl | ha
    · exact heb
    · exact heb.trans_not (List.rel_of_pairwise_cons hahead ha)

/-- Where the one just behind has another order key, all behind come strictly before `e`. -/
theorem InOrder.before_of_behind (h : InOrder reverse ⟨passed, ahead, e :: shard⟩)
    (fresh : ¬ sharesKey passed e) : ∀ p ∈ passed, Before reverse p.orderKey e.orderKey := by
  intro p hp
  have hpassed := (List.pairwise_append.1 h.merged).1
  cases passed with
  | nil => cases hp
  | cons q rest =>
    have hkey : q.orderKey ≠ e.orderKey := by simpa [sharesKey] using fresh
    have hqe := (OrderKey.before_or_before reverse hkey).resolve_right (h.behind q (by simp) e (by simp))
    rcases List.mem_cons.1 hp with rfl | hp
    · exact hqe
    · rw [List.reverse_cons] at hpassed
      have hpq := (List.pairwise_append.1 hpassed).2.2 p (List.mem_reverse.2 hp) q (by simp)
      exact OrderKey.Before.not_trans hpq hqe

end InOrder

theorem Step.inOrder (h : Step s trimmed w w') (hw : w.InOrder s.reverse) :
    w'.InOrder s.reverse := by
  cases h with
  | @pass passed ahead shard a e before =>
    refine ⟨?_, hw.shard, fun p hp e' he' => ?_⟩
    · have := hw.merged
      simpa [Walk.merged] using this
    · rcases List.mem_cons.1 hp with rfl | hp
      · have hae : ¬ Before s.reverse e.orderKey p.orderKey := fun h =>
          before (Element.le_of_before h)
        rcases List.mem_cons.1 he' with rfl | he'
        · exact hae
        · exact OrderKey.not_before_trans hae (List.rel_of_pairwise_cons hw.shard he')
      · exact hw.behind p hp e' he'
  | skip here =>
    exact ⟨hw.merged, hw.shard.of_cons, fun p hp e he => hw.behind p hp e (List.mem_cons_of_mem _ he)⟩
  | @meet passed ahead shard a e here hu fresh level =>
    refine ⟨?_, hw.shard.of_cons, fun p hp e' he' => ?_⟩
    · have := hw.merged
      simpa [Walk.merged] using this
    · rcases List.mem_cons.1 hp with rfl | hp
      · rw [level]
        exact List.rel_of_pairwise_cons hw.shard he'
      · exact hw.behind p hp e' (List.mem_cons_of_mem _ he')
  | @insert passed ahead shard e here fresh =>
    have hfront := hw.not_before_of_inFront here.inFront
    refine ⟨?_, hw.shard.of_cons, fun p hp e' he' => ?_⟩
    · exact pairwise_insert hw.merged (fun p hp => hw.behind p hp e List.mem_cons_self) hfront _
    · rcases List.mem_cons.1 hp with rfl | hp
      · exact List.rel_of_pairwise_cons hw.shard he'
      · exact hw.behind p hp e' (List.mem_cons_of_mem _ he')

/-! ## Nothing is left out while there is room -/

/-- As long as there is room, the order keys of the list and of the shard are in the list, or still
to come. -/
def Covers (s : Selection) (all : List (Element α)) (w : Walk α) : Prop :=
  w.merged.length < s.reach →
    ∀ x ∈ all, (∃ y ∈ w.merged, y.orderKey = x.orderKey) ∨ x ∈ w.shard

theorem Step.covers {all : List (Element α)} (h : Step s trimmed w w')
    (hw : w.Bounded s ∧ w.Covers s all) : w'.Bounded s ∧ w'.Covers s all := by
  obtain ⟨hbounded, hlonger⟩ := h.bounded hw.1
  refine ⟨hbounded, fun hroom x hx => ?_⟩
  have hbefore := hw.2 (Nat.lt_of_le_of_lt hlonger hroom) x hx
  cases h with
  | pass before =>
    refine hbefore.imp_left fun ⟨y, hy, hkey⟩ => ⟨y, ?_, hkey⟩
    simpa [Walk.merged] using hy
  | @skip passed ahead shard e here hu behind =>
    rcases hbefore with h | h
    · exact .inl h
    rcases List.mem_cons.1 h with rfl | h
    · obtain ⟨a, rest, rfl, hkey⟩ := sharesKey_eq_true.1 behind
      exact .inl ⟨a, by simp [Walk.merged], hkey⟩
    · exact .inr h
  | @meet passed ahead shard a e here hu fresh level =>
    rcases hbefore with ⟨y, hy, hkey⟩ | h
    · exact .inl ⟨y, by simpa [Walk.merged] using hy, hkey⟩
    rcases List.mem_cons.1 h with rfl | h
    · exact .inl ⟨a, by simp [Walk.merged], level⟩
    · exact .inr h
  | @insert passed ahead shard e here fresh =>
    -- where there is room afterwards, nothing has been cut off
    have hkept : ahead.take (s.reach - passed.length - 1) = ahead := by
      refine List.take_of_length_le ?_
      rw [length_merged] at hroom
      simp only [List.length_cons, List.length_take] at hroom
      omega
    rw [hkept] at hroom ⊢
    rcases hbefore with ⟨y, hy, hkey⟩ | h
    · refine .inl ⟨y, ?_, hkey⟩
      rw [mem_merged] at hy ⊢
      exact hy.imp_left (List.mem_cons_of_mem e)
    rcases List.mem_cons.1 h with rfl | h
    · exact .inl ⟨x, by simp [Walk.merged], rfl⟩
    · exact .inr h

/-! ## Nothing comes from elsewhere -/

theorem Step.mem (h : Step s trimmed w w') {x : Element α} (hx : x ∈ w'.merged ∨ x ∈ w'.shard) :
    x ∈ w.merged ∨ x ∈ w.shard := by
  rw [mem_merged] at hx ⊢
  cases h with
  | pass before =>
    simp only [List.mem_cons] at hx ⊢
    tauto
  | skip here =>
    simp only [List.mem_cons] at hx ⊢
    tauto
  | meet here =>
    simp only [List.mem_cons] at hx ⊢
    tauto
  | insert here =>
    have hmem : ∀ {n} {l : List (Element α)}, x ∈ l.take n → x ∈ l := List.mem_of_mem_take
    simp only [List.mem_cons] at hx ⊢
    grind

theorem mem_of_steps (h : Relation.ReflTransGen (Step s trimmed) w w') {x : Element α}
    (hx : x ∈ w'.merged) : x ∈ w.merged ∨ x ∈ w.shard := by
  refine kept (fun w' => ∀ x, x ∈ w'.merged ∨ x ∈ w'.shard → x ∈ w.merged ∨ x ∈ w.shard)
    (fun hstep hw x hx => hw x (hstep.mem hx)) h (fun _ => id) x (.inl hx)

end Walk

end Legacy

end ShardedCache.SortedGet

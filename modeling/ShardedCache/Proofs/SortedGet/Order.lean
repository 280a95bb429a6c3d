import ShardedCache.SortedGet.Selection

/-!
# The order of a sorted multi-get

Order keys are linearly ordered, and so are the pairs of an order key and a collection; a reverse
query turns both orders round. `Before` is the strict order of order keys in the direction of the
query. Elements are compared by their pair, so `Element.le` is a total preorder: elements of one
collection with one order key stand level, whatever their values.
-/

namespace ShardedCache

namespace OrderKey

theorem compare_eq (a b : OrderKey) : compare a b = cmp a b := by
  cases a <;> rfl

instance : Std.OrientedOrd OrderKey where
  eq_swap {a b} := by
    cases a <;> cases b <;> simp only [compare_eq, cmp, Ordering.swap_lt, Ordering.swap_gt]
    · exact Std.OrientedOrd.eq_swap
    · exact Std.OrientedOrd.eq_swap

instance : Std.TransOrd OrderKey where
  isLE_trans {a b c} := by
    cases a <;> cases b <;> cases c <;>
      simp only [compare_eq, cmp, Ordering.isLE_lt, Ordering.isLE_gt, Bool.false_eq_true,
        false_implies, implies_true]
    · exact Std.TransOrd.isLE_trans
    · exact Std.TransOrd.isLE_trans

instance : Std.LawfulEqOrd OrderKey where
  compare_self {a} := by cases a <;> exact Std.ReflOrd.compare_self
  eq_of_compare {a b} h := by cases a <;> cases b <;> simp_all [compare_eq, cmp]

/-- Compares order keys in the direction of the query. -/
def compareIn (reverse : Bool) (a b : OrderKey) : Ordering :=
  if reverse then (compare a b).swap else compare a b

/-- One order key stands strictly before another in the direction of the query. -/
def Before (reverse : Bool) (a b : OrderKey) : Prop := compareIn reverse a b = .lt

instance (reverse : Bool) (a b : OrderKey) : Decidable (Before reverse a b) :=
  inferInstanceAs (Decidable (_ = _))

theorem compareIn_swap (reverse : Bool) (a b : OrderKey) :
    compareIn reverse a b = (compareIn reverse b a).swap := by
  unfold compareIn
  split <;> rw [Std.OrientedOrd.eq_swap]

theorem compareIn_isLE_trans (reverse : Bool) (a b c : OrderKey)
    (hab : (compareIn reverse a b).isLE) (hbc : (compareIn reverse b c).isLE) :
    (compareIn reverse a c).isLE := by
  unfold compareIn at hab hbc ⊢
  split at hab
  · simp_all only [↓reduceIte, Ordering.isLE_swap]
    exact Std.TransOrd.isGE_trans hab hbc
  · simp_all only [Bool.not_eq_true, Bool.false_eq_true, ↓reduceIte]
    exact Std.TransOrd.isLE_trans hab hbc

theorem compareIn_isLE_total (reverse : Bool) (a b : OrderKey) :
    ((compareIn reverse a b).isLE || (compareIn reverse b a).isLE) = true := by
  rw [compareIn_swap reverse b a]
  cases compareIn reverse a b <;> rfl

theorem compareIn_self (reverse : Bool) (a : OrderKey) : compareIn reverse a a = .eq := by
  cases reverse <;> simp [compareIn]

theorem eq_of_compareIn {reverse : Bool} {a b : OrderKey} (h : compareIn reverse a b = .eq) :
    a = b := by
  cases reverse <;> simpa [compareIn] using h

instance (reverse : Bool) : Std.TransCmp (compareIn reverse) where
  eq_swap := compareIn_swap reverse _ _
  isLE_trans := compareIn_isLE_trans reverse _ _ _

instance (reverse : Bool) : Std.LawfulEqCmp (compareIn reverse) where
  compare_self := compareIn_self reverse _
  eq_of_compare := eq_of_compareIn

theorem Before.irrefl (reverse : Bool) (a : OrderKey) : ¬ Before reverse a a := by
  simp [Before, compareIn_self]

theorem Before.ne {reverse : Bool} {a b : OrderKey} (h : Before reverse a b) : a ≠ b := by
  rintro rfl
  exact Before.irrefl reverse a h

theorem Before.trans {reverse : Bool} {a b c : OrderKey} (hab : Before reverse a b)
    (hbc : Before reverse b c) : Before reverse a c :=
  Std.TransCmp.lt_trans hab hbc

theorem Before.asymm {reverse : Bool} {a b : OrderKey} (h : Before reverse a b) :
    ¬ Before reverse b a :=
  fun h' => Before.irrefl reverse a (h.trans h')

/-- Of two different order keys one stands before the other. -/
theorem before_or_before (reverse : Bool) {a b : OrderKey} (h : a ≠ b) :
    Before reverse a b ∨ Before reverse b a := by
  cases hc : compareIn reverse a b with
  | lt => exact .inl hc
  | eq => exact absurd (eq_of_compareIn hc) h
  | gt => exact .inr (Std.OrientedCmp.gt_iff_lt.1 hc)

theorem isLE_iff_not_before {reverse : Bool} {a b : OrderKey} :
    (compareIn reverse a b).isLE ↔ ¬ Before reverse b a := by
  rw [Before, compareIn_swap reverse b a]
  cases compareIn reverse a b <;> simp

theorem Before.trans_not {reverse : Bool} {a b c : OrderKey} (hab : Before reverse a b)
    (hcb : ¬ Before reverse c b) : Before reverse a c :=
  Std.TransCmp.lt_of_lt_of_isLE hab (isLE_iff_not_before.2 hcb)

theorem Before.not_trans {reverse : Bool} {a b c : OrderKey} (hba : ¬ Before reverse b a)
    (hbc : Before reverse b c) : Before reverse a c :=
  Std.TransCmp.lt_of_isLE_of_lt (isLE_iff_not_before.2 hba) hbc

theorem not_before_trans {reverse : Bool} {a b c : OrderKey} (hba : ¬ Before reverse b a)
    (hcb : ¬ Before reverse c b) : ¬ Before reverse c a :=
  fun h => hcb (h.trans_not hba)

end OrderKey

namespace SortedGet

open OrderKey (compareIn Before)

theorem compareKeys_eq (reverse : Bool) (a b : OrderKey × String) :
    compareKeys reverse a b = (compareIn reverse a.1 b.1).then
      (if reverse then (compare a.2 b.2).swap else compare a.2 b.2) := by
  cases reverse <;> simp [compareKeys, compareIn, Ordering.swap_then]

/-- The forward order of pairs. -/
def pairOrder : OrderKey × String → OrderKey × String → Ordering :=
  compareLex (compareOn (·.1)) (compareOn (·.2))

instance : Std.TransCmp pairOrder := inferInstanceAs (Std.TransCmp (compareLex _ _))

theorem compareKeys_swap (reverse : Bool) (a b : OrderKey × String) :
    compareKeys reverse a b = (compareKeys reverse b a).swap := by
  have h : pairOrder a b = (pairOrder b a).swap := Std.OrientedCmp.eq_swap
  cases reverse
  · exact h
  · exact congrArg Ordering.swap h

theorem compareKeys_isLE_trans {reverse : Bool} {a b c : OrderKey × String}
    (hab : (compareKeys reverse a b).isLE) (hbc : (compareKeys reverse b c).isLE) :
    (compareKeys reverse a c).isLE := by
  cases reverse
  · exact @Std.TransCmp.isLE_trans _ pairOrder _ a b c hab hbc
  · simp only [compareKeys, ↓reduceIte, Ordering.isLE_swap] at hab hbc ⊢
    exact @Std.TransCmp.isGE_trans _ pairOrder _ a b c hab hbc

instance (reverse : Bool) : Std.TransCmp (compareKeys reverse) where
  eq_swap := compareKeys_swap reverse _ _
  isLE_trans := compareKeys_isLE_trans

theorem eq_of_compareKeys {reverse : Bool} {a b : OrderKey × String}
    (h : compareKeys reverse a b = .eq) : a = b := by
  rw [compareKeys_eq, Ordering.then_eq_eq] at h
  refine Prod.ext (OrderKey.eq_of_compareIn h.1) ?_
  cases reverse <;> simpa using h.2

/-- Whether the pair `a` may stand in front of `b`. -/
def pairLe (reverse : Bool) (a b : OrderKey × String) : Bool := (compareKeys reverse a b).isLE

theorem pairLe_trans (reverse : Bool) (a b c : OrderKey × String) (hab : pairLe reverse a b)
    (hbc : pairLe reverse b c) : pairLe reverse a c :=
  compareKeys_isLE_trans hab hbc

theorem pairLe_total (reverse : Bool) (a b : OrderKey × String) :
    (pairLe reverse a b || pairLe reverse b a) = true := by
  unfold pairLe
  rw [compareKeys_swap reverse b]
  cases compareKeys reverse a b <;> rfl

theorem eq_of_pairLe {reverse : Bool} {a b : OrderKey × String} (hab : pairLe reverse a b)
    (hba : pairLe reverse b a) : a = b :=
  eq_of_compareKeys (Std.OrientedCmp.isLE_antisymm hab hba)

namespace Element

variable {α : Type} {reverse : Bool} {a b : Element α}

/-- What elements are ordered by. -/
def pair (e : Element α) : OrderKey × String := (e.orderKey, e.key)

theorem le_trans (reverse : Bool) (a b c : Element α) (hab : le reverse a b)
    (hbc : le reverse b c) : le reverse a c :=
  pairLe_trans reverse a.pair b.pair c.pair hab hbc

theorem le_total (reverse : Bool) (a b : Element α) : (le reverse a b || le reverse b a) :=
  pairLe_total reverse a.pair b.pair

/-- An element that may stand in front of another has no later order key. -/
theorem not_before_of_le (h : le reverse a b) : ¬ Before reverse b.orderKey a.orderKey := by
  rw [← OrderKey.isLE_iff_not_before]
  unfold le compare at h
  rw [compareKeys_eq, Ordering.isLE_then_iff_and] at h
  exact h.1

theorem le_of_before (h : Before reverse a.orderKey b.orderKey) : le reverse a b := by
  unfold le compare
  rw [compareKeys_eq, Ordering.isLE_then_iff_and, h]
  simp

theorem before_of_not_le (h : ¬ le reverse a b) (hne : a.orderKey ≠ b.orderKey) :
    Before reverse b.orderKey a.orderKey := by
  rcases OrderKey.before_or_before reverse hne with h' | h'
  · exact absurd (le_of_before h') h
  · exact h'

theorem before_of_le (h : le reverse a b) (hne : a.orderKey ≠ b.orderKey) :
    Before reverse a.orderKey b.orderKey := by
  rcases OrderKey.before_or_before reverse hne with h' | h'
  · exact h'
  · exact absurd h' (not_before_of_le h)

/-- Elements that stand level are of one collection. -/
theorem key_eq_of_level (h : (le reverse a b && le reverse b a) = true) : a.key = b.key := by
  rw [Bool.and_eq_true] at h
  exact congrArg Prod.snd (eq_of_pairLe h.1 h.2)

end Element

end SortedGet

end ShardedCache

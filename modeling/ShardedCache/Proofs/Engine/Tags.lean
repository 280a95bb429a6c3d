import ShardedCache.Proofs.Engine.Making

/-!
# Tags

Tags are given out by a counter that skips zero, so they go round after `2 ^ 32 - 1` operations: the
tag of each operation follows from its position (`Engine.Counted`), and no two of fewer operations
have the same (`Counted.tagsDistinct`).
-/

namespace ShardedCache

namespace Engine

/-- There are `2 ^ 32 - 1` tags. -/
def tagCount : Nat := 4294967295

/-- How far round the counter is. -/
def turn (e : Engine) : Nat := if e.nextTag = 0 then 0 else e.nextTag.toNat - 1

theorem turn_lt (e : Engine) : e.turn < tagCount := by
  have hlt := e.nextTag.toNat_lt
  unfold turn tagCount
  split <;> omega

theorem turn_of_nextTag {e e' : Engine} (h : e'.nextTag = e.nextTag) : e'.turn = e.turn := by
  rw [turn, h, ← turn]

/-- The next tag is where the counter is, and the counter goes on by one. -/
theorem freshTag_spec (e : Engine) :
    e.freshTag.2.toNat = e.turn + 1 ∧ e.freshTag.1.turn = (e.turn + 1) % tagCount := by
  have hlt := e.nextTag.toNat_lt
  by_cases hzero : e.nextTag = 0
  · have hturn : e.turn = 0 := if_pos hzero
    have hfresh : e.freshTag = ({ e with nextTag := 2 }, 1) := by simp [freshTag, hzero]
    rw [hturn, hfresh]
    exact ⟨rfl, rfl⟩
  · have hpos : e.nextTag.toNat ≠ 0 := fun h => hzero (UInt32.toNat_inj.1 h)
    have hturn : e.turn = e.nextTag.toNat - 1 := if_neg hzero
    have hfresh : e.freshTag = ({ e with nextTag := e.nextTag + 1 }, e.nextTag) := by
      simp [freshTag, hzero]
    rw [hturn, hfresh]
    refine ⟨by dsimp only; omega, ?_⟩
    have hnext : (e.nextTag + 1).toNat = (e.nextTag.toNat + 1) % 2 ^ 32 := UInt32.toNat_add _ _
    unfold turn tagCount
    dsimp only
    split
    · next hwrapped =>
      rw [hwrapped] at hnext
      change 0 = _ at hnext
      omega
    · next hmore =>
      have hpos' : (e.nextTag + 1).toNat ≠ 0 := fun h => hmore (UInt32.toNat_inj.1 h)
      omega

/-- Each operation has the tag that its position says, as the counter was at `first` before them. -/
def CountedFrom (first : Nat) (e : Engine) : Prop :=
  (∀ id n, e.nature? id = some n → n.tag.toNat = (first + id) % tagCount + 1) ∧
    e.turn = (first + e.size) % tagCount

theorem countedFrom_of_nil {e : Engine} (h : e.operations = []) : CountedFrom e.turn e := by
  refine ⟨fun id n hn => ?_, ?_⟩
  · simp [nature?, get?, h] at hn
  · rw [size, h]
    exact (Nat.mod_eq_of_lt e.turn_lt).symm

theorem CountedFrom.congr {first : Nat} {e e' : Engine} (h : CountedFrom first e)
    (hnature : ∀ id, e'.nature? id = e.nature? id) (hsize : e'.size = e.size)
    (hcounter : e'.nextTag = e.nextTag) : CountedFrom first e' := by
  obtain ⟨htag, hturn⟩ := h
  refine ⟨fun id n hn => htag id n ((hnature id).symm.trans hn), ?_⟩
  rw [turn_of_nextTag hcounter, hturn, hsize]

theorem CountedFrom.add {first : Nat} {e : Engine} (h : CountedFrom first e) (work : Work)
    (idempotent : Bool) (callback : Callback) :
    CountedFrom first (e.add work idempotent callback).1 := by
  obtain ⟨htag, hturn⟩ := h
  obtain ⟨hfresh, hnext⟩ := e.freshTag_spec
  refine ⟨fun id n hn => ?_, ?_⟩
  · rw [nature?, get?_add] at hn
    split at hn
    · next hid =>
      cases hn
      rw [hid, ← hturn]
      exact hfresh
    · exact htag id n hn
  · have hcounter : (e.add work idempotent callback).1.nextTag = e.freshTag.1.nextTag := rfl
    rw [turn_of_nextTag hcounter, hnext, hturn, size_add, Nat.mod_add_mod, Nat.add_assoc]

/-- Each operation has the tag that its position says. -/
def Counted (e : Engine) : Prop :=
  ∃ first, (∀ id n, e.nature? id = some n → n.tag.toNat = (first + id) % tagCount + 1) ∧
    e.turn = (first + e.size) % tagCount

theorem counted_of_nil {e : Engine} (h : e.operations = []) : e.Counted :=
  ⟨e.turn, countedFrom_of_nil h⟩

theorem Counted.congr {e e' : Engine} (h : e.Counted) (hnature : ∀ id, e'.nature? id = e.nature? id)
    (hsize : e'.size = e.size) (hcounter : e'.nextTag = e.nextTag) : e'.Counted := by
  obtain ⟨first, hfirst⟩ := h
  exact ⟨first, CountedFrom.congr hfirst hnature hsize hcounter⟩

theorem Counted.add {e : Engine} (h : e.Counted) (work : Work) (idempotent : Bool)
    (callback : Callback) : (e.add work idempotent callback).1.Counted := by
  obtain ⟨first, hfirst⟩ := h
  exact ⟨first, CountedFrom.add hfirst work idempotent callback⟩

/-! ## Distinct tags -/

/-- No two operations have the same tag. -/
def TagsDistinct (e : Engine) : Prop :=
  ∀ ⦃i j n n'⦄, e.nature? i = some n → e.nature? j = some n' → n.tag = n'.tag → i = j

theorem TagsDistinct.congr {e e' : Engine} (h : e.TagsDistinct)
    (hnature : ∀ id, e'.nature? id = e.nature? id) : e'.TagsDistinct := by
  intro i j n n' hi hj htag
  rw [hnature] at hi hj
  exact h hi hj htag

theorem Counted.tagsDistinct {e : Engine} (h : e.Counted) (hfew : e.size ≤ tagCount) :
    e.TagsDistinct := by
  intro i j n n' hi hj htag
  obtain ⟨first, htags, -⟩ := h
  have hmod : (first + i) % tagCount = (first + j) % tagCount := by
    have hsame := congrArg UInt32.toNat htag
    rw [htags i n hi, htags j n' hj] at hsame
    exact Nat.succ.inj hsame
  have hlt := lt_size_of_nature? hi
  have hlt' := lt_size_of_nature? hj
  unfold tagCount at hmod hfew
  omega

theorem tagsDistinct_of_nodup {e : Engine} (h : (e.operations.map (·.tag)).Nodup) :
    e.TagsDistinct := by
  intro i j n n' hi hj htag
  obtain ⟨op, hop, rfl⟩ := Option.map_eq_some_iff.1 hi
  obtain ⟨op', hop', rfl⟩ := Option.map_eq_some_iff.1 hj
  have hi : i < (e.operations.map (·.tag)).length := by
    rw [List.length_map]
    exact lt_size_of_get? hop
  refine (List.getElem?_inj hi h).1 ?_
  rw [List.getElem?_map, List.getElem?_map, show e.operations[i]? = some op from hop,
    show e.operations[j]? = some op' from hop']
  exact congrArg some htag

end Engine

end ShardedCache

import ShardedCache.Proofs.Engine.Outcome

/-!
# What making operations does to lives

A new operation starts with a life of its own, and the others are as before, except that the
members of a new batch get a listener.
-/

namespace ShardedCache

namespace Engine

/-- The number that the next operation gets. -/
def size (e : Engine) : Nat := e.operations.length

theorem get?_eq_none_iff {e : Engine} {id : Nat} : e.get? id = none ↔ e.size ≤ id :=
  List.getElem?_eq_none_iff

theorem get?_of_lt_size {e : Engine} {id : Nat} (h : id < e.size) : ∃ op, e.get? id = some op :=
  ⟨_, List.getElem?_eq_getElem h⟩

theorem life?_of_lt_size {e : Engine} {id : Nat} (h : id < e.size) : ∃ l, e.life? id = some l := by
  obtain ⟨op, hop⟩ := get?_of_lt_size h
  exact ⟨_, life?_of_get? hop⟩

theorem lt_size_of_get? {e : Engine} {id : Nat} {op : Operation} (h : e.get? id = some op) :
    id < e.size := (List.getElem?_eq_some_iff.1 h).1

theorem lt_size_of_nature? {e : Engine} {id : Nat} {n : Nature} (h : e.nature? id = some n) :
    id < e.size := by
  obtain ⟨op, hop, -⟩ := Option.map_eq_some_iff.1 h
  exact lt_size_of_get? hop

theorem lt_size_of_isSingle {e : Engine} {id : Nat} (h : e.IsSingle id) : id < e.size := by
  obtain ⟨n, c, hn, -⟩ := h
  exact lt_size_of_nature? hn

theorem Becomes.size_eq {e e' : Engine} {g : Nat → Life → Life} (h : e.Becomes g e') :
    e'.size = e.size := by
  have hiff : ∀ id, e'.size ≤ id ↔ e.size ≤ id := fun id => by
    rw [← get?_eq_none_iff, ← get?_eq_none_iff, h.get?_eq_none]
  exact Nat.le_antisymm ((hiff _).2 (Nat.le_refl _)) ((hiff _).1 (Nat.le_refl _))

theorem add_snd (e : Engine) (work : Work) (idempotent : Bool) (callback : Callback) :
    (e.add work idempotent callback).2 = e.size := rfl

theorem size_add (e : Engine) (work : Work) (idempotent : Bool) (callback : Callback) :
    (e.add work idempotent callback).1.size = e.size + 1 := List.length_append

theorem heardOf_add (e : Engine) (work : Work) (idempotent : Bool) (callback : Callback) (id : Nat) :
    (e.add work idempotent callback).1.heardOf id = e.heardOf id := rfl

theorem get?_add (e : Engine) (work : Work) (idempotent : Bool) (callback : Callback) (id : Nat) :
    (e.add work idempotent callback).1.get? id =
      if id = e.size then some { tag := e.freshTag.2, work, idempotent, callback } else e.get? id := by
  change (e.operations ++ [{ tag := e.freshTag.2, work, idempotent, callback }])[id]? = _
  by_cases h : id = e.size
  · rw [if_pos h, h, size, List.getElem?_concat_length]
  · rw [if_neg h]
    rcases Nat.lt_or_gt_of_ne h with hlt | hgt
    · exact List.getElem?_append_left hlt
    · rw [get?_eq_none_iff.2 (Nat.le_of_lt hgt)]
      simp only [size] at hgt
      simp only [List.getElem?_eq_none_iff, List.length_append, List.length_singleton]
      omega

theorem life?_add (e : Engine) (work : Work) (idempotent : Bool) (callback : Callback) {id : Nat}
    (h : id ≠ e.size) : (e.add work idempotent callback).1.life? id = e.life? id := by
  rw [life?, life?, get?_add, if_neg h, heardOf_add]

theorem life?_add_size (e : Engine) (work : Work) (idempotent : Bool) (callback : Callback) :
    (e.add work idempotent callback).1.life? e.size =
      some ⟨{ tag := e.freshTag.2, work, idempotent, callback },
        (e.heardOf e.size).1, (e.heardOf e.size).2⟩ := by
  rw [life?, get?_add, if_pos rfl, heardOf_add, Option.map_some]

/-! ## Joining a batch -/

theorem becomes_listen (e : Engine) (id : Nat) (listener : Callback) :
    e.Becomes (among [id] (·.listen listener)) (e.listen id listener).1 := by
  unfold listen
  split
  · next op hop =>
    split
    · next hsome =>
      refine becomes_self fun l hl => ?_
      simp only [Life.listen, operation_eq hop hl, hsome, ↓reduceIte]
    · next hnone =>
      refine becomes_among_congr (becomes_modify e id _) fun l hl => ?_
      simp only [Life.listen, operation_eq hop hl, hnone, Bool.false_eq_true, ↓reduceIte]
  · next hnone => exact becomes_none hnone _

theorem becomes_join (multiplexer : Callback) (e : Engine) (member : Nat) :
    e.Becomes (among [member] (·.listen multiplexer)) (join multiplexer e member) := by
  have hlisten := becomes_listen e member multiplexer
  unfold join
  split
  · next e' heq =>
    rw [heq] at hlisten
    exact hlisten
  · next e' heq =>
    rw [heq] at hlisten
    refine ⟨fun id => ?_, fun id hnone => ?_, hlisten.counter⟩
    · rw [← hlisten.lives id]
      simp [life?, get?, heardOf, Reports.heard_conclude]
    · rw [← hlisten.silent id hnone]
      simp [heardOf, Reports.heard_conclude]

/-- The engine in which the members have joined a batch that is about to be made. -/
def joined (e : Engine) (members : List Nat) (aggregate : Callback) : Engine :=
  let (reports, multiplexer) := e.reports.addMultiplexer members.length
  { e with reports }.each members (join (.multiplex multiplexer aggregate))

theorem batch_eq (e : Engine) (family : BatchFamily) (members : List Nat) (aggregate : Callback) :
    ∃ multiplexer idempotent, e.batch family members aggregate =
      (e.joined members aggregate).add (.batch { family, members, multiplexer }) idempotent .silent :=
  ⟨_, _, rfl⟩

/-- The members listen for a new multiplexer. -/
theorem becomes_listening {e : Engine} {members : List Nat} (aggregate : Callback)
    (h : ∀ m ∈ members, e.IsSingle m) :
    e.Becomes (among members (·.listen (.multiplex e.reports.multiplexers.length aggregate)))
      (e.joined members aggregate) := by
  have hcounted : e.Becomes (fun _ l => l)
      { e with reports := (e.reports.addMultiplexer members.length).1 } :=
    becomes_of_eq (Becomes.refl e) _ rfl rfl rfl
  exact hcounted.trans (becomes_each (Life.nature_listen _) (Life.listen_listen _)
    (fun e m _ => becomes_join _ e m) h)

theorem becomes_joined {e : Engine} {members : List Nat} (aggregate : Callback)
    (h : ∀ m ∈ members, e.IsSingle m) :
    ∃ listener, e.Becomes (among members (·.listen listener)) (e.joined members aggregate) :=
  ⟨_, becomes_listening aggregate h⟩

section Batch

variable {e : Engine} {members : List Nat} (family : BatchFamily) (aggregate : Callback)
  (h : ∀ m ∈ members, e.IsSingle m)

include h

theorem batch_snd : (e.batch family members aggregate).2 = e.size := by
  obtain ⟨_, _, hbatch⟩ := batch_eq e family members aggregate
  obtain ⟨_, hjoined⟩ := becomes_joined aggregate h
  rw [hbatch, add_snd, hjoined.size_eq]

theorem get?_batch : ∃ tag multiplexer idempotent,
    (e.batch family members aggregate).1.get? e.size =
      some { tag, work := .batch { family, members, multiplexer }, idempotent, callback := .silent } := by
  obtain ⟨multiplexer, idempotent, hbatch⟩ := batch_eq e family members aggregate
  obtain ⟨_, hjoined⟩ := becomes_joined aggregate h
  refine ⟨(e.joined members aggregate).freshTag.2, multiplexer, idempotent, ?_⟩
  rw [hbatch, get?_add, if_pos hjoined.size_eq.symm]

end Batch

end Engine

end ShardedCache

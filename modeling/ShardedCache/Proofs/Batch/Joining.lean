import ShardedCache.Proofs.Batch.Seating

/-!
# A new batch

When a batch is made of operations, those that have ended report to its multiplexer at once
(`Engine.relay_batch`), and from then on only the others may, each through its listener
(`Engine.mayTell_batch`).
-/

namespace ShardedCache

open Wire (Status)

namespace Engine

theorem status?_eq (e : Engine) (id : Nat) :
    e.status? id = (e.life? id).bind (·.operation.status) := by
  rw [status?, get?_eq, Option.bind_map]
  rfl

theorem status?_of_get? {e : Engine} {id : Nat} {op : Operation} (hop : e.get? id = some op) :
    e.status? id = op.status := by
  rw [status?, hop, Option.bind_some]

theorem Becomes.status?_eq {e e' : Engine} {g : Nat → Life → Life} (h : e.Becomes g e') {id : Nat}
    (hg : ∀ l : Life, (g id l).operation.status = l.operation.status) :
    e'.status? id = e.status? id := by
  rw [Engine.status?_eq, Engine.status?_eq, h.lives id, Option.bind_map]
  congr 1
  funext l
  exact hg l

theorem Life.status_listen (listener : Callback) (l : Life) :
    (l.listen listener).operation.status = l.operation.status := by
  unfold Life.listen
  split <;> rfl

theorem status_among {g : Life → Life} (hg : ∀ l, (g l).operation.status = l.operation.status)
    (ids : List Nat) (id : Nat) (l : Life) :
    (among ids g id l).operation.status = l.operation.status := by
  unfold among
  split
  · exact hg l
  · rfl

/-! ## Joining -/

/-- What a member that has ended tells the multiplexer that it joins. -/
def earlyReports (e : Engine) (multiplexer : Callback) (member : Nat) : List Delivery :=
  (e.status? member).toList.flatMap fun s =>
    [⟨.finishedEarly member, multiplexer, .status s⟩,
      ⟨.finishedEarly member, multiplexer, .finished⟩]

section Join

variable {e : Engine} {n : Nat} {aggregate : Callback}

theorem join_of_get? {m : Nat} {op : Operation} (hop : e.get? m = some op) (listener : Callback) :
    join listener e m =
      match op.status with
      | none => e.enlist m listener
      | some s => { e with reports := e.reports.conclude (.finishedEarly m) listener s } := by
  unfold join
  cases hs : op.status with
  | none => rw [listen_of_none hop hs]
  | some s => simp [listen, hop, hs]

theorem relay_join (haggregate : aggregate.Below n) {m : Nat} (hm : m < e.size) :
    (join (.multiplex n aggregate) e m).reports.relay n aggregate =
      (e.earlyReports (.multiplex n aggregate) m).foldl (Relay.hear aggregate)
        (e.reports.relay n aggregate) := by
  obtain ⟨op, hop⟩ := get?_of_lt_size hm
  rw [join_of_get? hop, earlyReports, status?_of_get? hop]
  cases op.status with
  | none => rfl
  | some s =>
    have hteller : Teller.finishedEarly m ≠ .multiplexer n := nofun
    dsimp only
    rw [Reports.conclude, Reports.relay_tell haggregate hteller,
      Reports.relay_tell haggregate hteller]
    rfl

/-- The members that have ended report in turn. -/
theorem relay_joinEach (haggregate : aggregate.Below n) : ∀ (members : List Nat) {e : Engine},
    (∀ m ∈ members, m < e.size) →
      (e.each members (join (.multiplex n aggregate))).reports.relay n aggregate =
        (members.flatMap (e.earlyReports (.multiplex n aggregate))).foldl (Relay.hear aggregate)
          (e.reports.relay n aggregate)
  | [], _, _ => rfl
  | m :: members, e, h => by
    have hjoin := becomes_join (.multiplex n aggregate) e m
    have hstatus : ∀ j, (join (.multiplex n aggregate) e m).status? j = e.status? j := fun j =>
      hjoin.status?_eq (status_among (Life.status_listen _) _ j)
    have hreports : (join (.multiplex n aggregate) e m).earlyReports (.multiplex n aggregate) =
        e.earlyReports (.multiplex n aggregate) := by
      funext j
      rw [earlyReports, hstatus, ← earlyReports]
    have hrest := relay_joinEach haggregate members (e := join (.multiplex n aggregate) e m)
      fun j hj => hjoin.size_eq ▸ h j (List.mem_cons_of_mem m hj)
    rw [hreports, relay_join haggregate (h m List.mem_cons_self), ← List.foldl_append] at hrest
    exact hrest

end Join

/-! ## The batch -/

section Batch

variable {e : Engine} {members : List Nat} (family : BatchFamily) (aggregate : Callback)

theorem batch_eq_add (e : Engine) (members : List Nat) : ∃ idempotent,
    e.batch family members aggregate = (e.joined members aggregate).add
      (.batch ⟨family, members, e.reports.multiplexers.length⟩) idempotent .silent :=
  ⟨_, rfl⟩

variable (hsingle : ∀ m ∈ members, e.IsSingle m)

include hsingle

theorem get?_batch_self : ∃ op, (e.batch family members aggregate).1.get? e.size = some op ∧
    op.work = .batch ⟨family, members, e.reports.multiplexers.length⟩ ∧ op.callback = .silent ∧
    op.listener = none := by
  obtain ⟨idempotent, hbatch⟩ := batch_eq_add family aggregate e members
  rw [hbatch, get?_add, if_pos (becomes_listening aggregate hsingle).size_eq.symm]
  exact ⟨_, rfl, rfl, rfl, rfl⟩

/-- Operations that were there before may have got a listener. -/
theorem life?_batch {id : Nat} (hid : id < e.size) :
    (e.batch family members aggregate).1.life? id = (e.life? id).map
      (among members (·.listen (.multiplex e.reports.multiplexers.length aggregate)) id) := by
  obtain ⟨idempotent, hbatch⟩ := batch_eq_add family aggregate e members
  have hjoined := becomes_listening aggregate hsingle
  rw [hbatch, life?_add _ _ _ _ (by rw [hjoined.size_eq]; exact Nat.ne_of_lt hid), hjoined.lives id]

theorem get?_batch_of_get? {id : Nat} {op : Operation} (hop : e.get? id = some op) :
    (e.batch family members aggregate).1.get? id =
      if id ∈ members ∧ op.status = none then
        some { op with listener := some (.multiplex e.reports.multiplexers.length aggregate) }
      else some op := by
  have hlife := life?_batch family aggregate hsingle (lt_size_of_get? hop)
  rw [life?_of_get? hop, Option.map_some] at hlife
  rw [get?_of_life? hlife]
  by_cases hmem : id ∈ members
  · rw [among_of_mem hmem]
    cases hs : op.status <;> simp [Life.listen, Life.mapOperation, hs, hmem]
  · rw [among_of_not_mem hmem, if_neg fun h => hmem h.1]

theorem size_batch : (e.batch family members aggregate).1.size = e.size + 1 := by
  obtain ⟨idempotent, hbatch⟩ := batch_eq_add family aggregate e members
  rw [hbatch, size_add, (becomes_listening aggregate hsingle).size_eq]

variable {aggregate} (he : e.Wired e.reports.multiplexers.length)
  (haggregate : aggregate.Below e.reports.multiplexers.length)

include he haggregate

/-- The multiplexer of a new batch has heard the members that had ended. -/
theorem relay_batch :
    (e.batch family members aggregate).1.reports.relay e.reports.multiplexers.length aggregate =
      (members.flatMap (e.earlyReports (.multiplex e.reports.multiplexers.length aggregate))).foldl
        (Relay.hear aggregate) (Relay.fresh members.length) := by
  rw [← he.reports.relay_addMultiplexer members.length aggregate]
  exact relay_joinEach haggregate members
    (e := { e with reports := (e.reports.addMultiplexer members.length).1 })
      fun m hm => lt_size_of_isSingle (hsingle m hm)

omit haggregate in
/-- From then on the other members may tell it, through their listeners, and nobody else. -/
theorem mayTell_batch {t : Teller} {receiver : Callback}
    (h : (e.batch family members aggregate).1.MayTell t receiver) :
    t ≠ .multiplexer e.reports.multiplexers.length ∧
      (receiver.Below e.reports.multiplexers.length ∨
        receiver = .multiplex e.reports.multiplexers.length aggregate ∧
          ∃ m ∈ members, e.status? m = none ∧ t = .listener m) := by
  obtain ⟨id, op, hop, hnone, hwho⟩ := h
  refine ⟨by rcases hwho with ⟨rfl, -⟩ | ⟨rfl, -⟩ <;> exact nofun, ?_⟩
  have hlt : id < e.size + 1 := by
    rw [← size_batch family aggregate hsingle]
    exact lt_size_of_get? hop
  rcases Nat.lt_succ_iff_lt_or_eq.1 hlt with hid | rfl
  · obtain ⟨before, hbefore⟩ := get?_of_lt_size hid
    have hafter := get?_batch_of_get? family aggregate hsingle hbefore
    rw [hop] at hafter
    split at hafter
    · next hjoined =>
      cases hafter
      rcases hwho with ⟨-, rfl⟩ | ⟨rfl, hr⟩
      · exact .inl (show before.callback.Below _ from he.callbacks hbefore)
      · cases hr
        exact .inr ⟨rfl, id, hjoined.1, (status?_of_get? hbefore).trans hjoined.2, rfl⟩
    · cases hafter
      rcases hwho with ⟨-, rfl⟩ | ⟨-, hr⟩
      · exact .inl (he.callbacks hbefore)
      · exact .inl (he.listeners hbefore hr)
  · obtain ⟨op', hop', -, hcallback, hlistener⟩ :=
      get?_batch_self family aggregate hsingle
    rw [hop] at hop'
    cases hop'
    rcases hwho with ⟨-, rfl⟩ | ⟨-, hr⟩
    · rw [hcallback]
      exact .inl trivial
    · rw [hlistener] at hr
      cases hr

end Batch

end Engine

end ShardedCache

import Mathlib.Data.List.Nodup
import ShardedCache.Proofs.Engine.Moves

/-!
# What a future waits for

The operations of a future are joined to its latch in one of two ways (`Wiring`), and nobody else is.
So the latch is open just when all of them have ended (`Engine.Awaits.isOpen_iff`), and this remains so
through whatever moves do not lead to the latch (`Engine.Awaits.moves`).
-/

namespace ShardedCache

open Wire (Status)

/-- How operations are joined to a latch. -/
inductive Wiring where
  /-- Each counts it down. -/
  | direct
  /-- Each tells a multiplexer, which counts it down when all have finished. -/
  | gathered (multiplexer : Nat)

namespace Wiring

/-- The callback of an operation that is joined to the latch. -/
def Joins (w : Wiring) (o : Outline) (latch : Nat) (c : Callback) : Prop :=
  match w with
  | direct => c.latch? o = some latch
  | gathered m => ∃ aggregate, c = .multiplex m aggregate ∧ aggregate.latch? o = some latch

/-- Nothing that concerns the latch comes from anyone but the operations. -/
def Admits (w : Wiring) (o : Outline) (latch : Nat) (ops : List Nat) (t : Teller) (c : Callback) :
    Prop :=
  match w with
  | direct => c.latch? o = some latch → ∃ id ∈ ops, t = .operation id
  | gathered m => (c.latch? o = some latch ↔ t = .multiplexer m) ∧
      (c.multiplexer? = some m → ∃ id ∈ ops, t = .operation id)

/-- The latch, made for `n` operations, has been counted down for those that have finished. -/
def Counted (w : Wiring) (latch n : Nat) (r : Reports) : Prop :=
  match w with
  | direct => r.Tallied latch n
  | gathered m => r.Tallied latch 1 ∧ r.Metered m n 0

/-- The latch is there, and the multiplexer. -/
structure Within (w : Wiring) (latch : Nat) (o : Outline) : Prop where
  latch : latch < o.latches
  multiplexer : ∀ m, w = gathered m → m < o.multiplexers

variable {w : Wiring} {o o' : Outline} {latch n : Nat} {ops ops' : List Nat} {t : Teller} {c : Callback}

theorem Within.grows (h : w.Within latch o) (hgrows : o.Grows o') : w.Within latch o' :=
  ⟨Nat.lt_of_lt_of_le h.latch hgrows.latches, fun m hm =>
    Nat.lt_of_lt_of_le (h.multiplexer m hm) hgrows.multiplexers⟩

theorem Joins.grows (h : w.Joins o latch c) (hknown : c.Known o) (hgrows : o.Grows o') :
    w.Joins o' latch c := by
  cases w with
  | direct => exact (hknown.latch?_eq hgrows).trans h
  | gathered m =>
    obtain ⟨aggregate, rfl, hlatch⟩ := h
    exact ⟨aggregate, rfl, (hknown.2.latch?_eq hgrows).trans hlatch⟩

theorem Admits.grows (h : w.Admits o latch ops t c) (hknown : c.Known o) (hgrows : o.Grows o') :
    w.Admits o' latch ops t c := by
  cases w with
  | direct => exact fun hlatch => h ((hknown.latch?_eq hgrows).symm.trans hlatch)
  | gathered m => exact ⟨by rw [hknown.latch?_eq hgrows]; exact h.1, h.2⟩

theorem Admits.mono (h : w.Admits o latch ops t c) (hops : ops ⊆ ops') :
    w.Admits o latch ops' t c := by
  have hlater : (∃ id ∈ ops, t = .operation id) → ∃ id ∈ ops', t = .operation id :=
    fun ⟨id, hid, ht⟩ => ⟨id, hops hid, ht⟩
  cases w with
  | direct => exact fun hlatch => hlater (h hlatch)
  | gathered m => exact ⟨h.1, fun hm => hlater (h.2 hm)⟩

/-- An operation that is joined to the latch is one of those that may be. -/
theorem Joins.spreads (h : w.Joins o latch c) {id : Nat} (hid : id ∈ ops) :
    c.Spreads (w.Admits o latch ops) (.operation id) := by
  cases w with
  | direct =>
    cases c with
    | multiplex m aggregate => cases h
    | _ => exact fun _ => ⟨id, hid, rfl⟩
  | gathered m =>
    obtain ⟨aggregate, rfl, hlatch⟩ := h
    refine ⟨⟨by simp [Callback.latch?], fun _ => ⟨id, hid, rfl⟩⟩, ?_⟩
    cases aggregate with
    | completion k => exact ⟨by simp [hlatch], fun hm => by cases hm⟩
    | shard keys answer l => exact ⟨by simp [hlatch], fun hm => by cases hm⟩
    | _ => cases hlatch

/-- What has come since does not concern the latch. -/
theorem spreads_of_beyond {since : Outline} (hsince : w.Within latch since) (hc : c.Beyond since o)
    (ht : ∀ m, w = gathered m → t ≠ .multiplexer m) : c.Spreads (w.Admits o latch ops) t := by
  have hadmits : ∀ {t : Teller} {c : Callback}, c.Beyond since o →
      (∀ m, w = gathered m → t ≠ .multiplexer m) → w.Admits o latch ops t c := fun {t c} hc ht => by
    have hlatch : c.latch? o ≠ some latch := fun h =>
      absurd (hc.latch_le h) (Nat.not_le_of_lt hsince.latch)
    cases w with
    | direct => exact fun h => absurd h hlatch
    | gathered m =>
      refine ⟨⟨fun h => absurd h hlatch, fun h => absurd h (ht m rfl)⟩, fun hm => ?_⟩
      cases c with
      | multiplex id aggregate =>
        cases hm
        exact absurd hc.1 (Nat.not_le_of_lt (hsince.multiplexer m rfl))
      | _ => cases hm
  induction c generalizing t with
  | multiplex id aggregate ih =>
    refine ⟨hadmits hc ht, ih hc.2 fun m hm hid => ?_⟩
    cases hid
    exact absurd hc.1 (Nat.not_le_of_lt (hsince.multiplexer id hm))
  | _ => exact hadmits hc ht

end Wiring

/-! ## Counting -/

namespace Reports

variable {r r' : Reports} {latch n m : Nat}

theorem Tallied.extend (h : r.Tallied latch n) (hextends : r.Extends r')
    (hknown : r.Observes r.outline.Covers) (hlatch : latch < r.outline.latches) :
    r'.Tallied latch n := by
  obtain ⟨more, hmore⟩ := hextends.latches
  have hcount : r'.latchCount latch = r.latchCount latch := by
    simp only [latchCount, List.getD_eq_getElem?_getD, ← hmore, List.getElem?_append_left hlatch]
  have hfinishes : r'.finishes (·.counts r'.outline latch) = r.finishes (·.counts r.outline latch) :=
    finishes_congr hextends.journal fun d hd => by
      rw [Delivery.counts, Delivery.counts, (hknown d hd).2.latch?_eq hextends.grows]
  rw [Tallied, hcount, hfinishes]
  exact h

theorem Metered.extend (h : r.Metered m n 0) (hextends : r.Extends r')
    (hm : m < r.outline.multiplexers) : r'.Metered m n 0 := by
  obtain ⟨more, hmore⟩ := hextends.multiplexers
  refine h.congr hextends.journal ?_
  rw [← hmore, List.getElem?_append_left hm]

end Reports

namespace Engine

variable {e e' : Engine} {ops : List Nat}

theorem Steady.finishes_operation (he : e.Steady) {id : Nat} {op : Operation}
    (hop : e.get? id = some op) :
    e.reports.finishes (·.teller == .operation id) = if e.isTerminal id then 1 else 0 := by
  have hlife := he.lives (life?_of_get? hop)
  have hcount : e.reports.finishes (·.teller == .operation id) =
      (e.reports.heard (.operation id)).count .finished := by
    rw [Reports.heard, List.count, List.countP_map, List.countP_filter, List.countP_reverse]
    refine List.countP_congr fun d _ => ?_
    simp
  have hended : e.isTerminal id = op.status.isSome := by
    rw [isTerminal_eq, life?_of_get? hop]
    exact hlife.ended
  have htold : Told op.status (e.reports.heard (.operation id)) := hlife.told
  rw [hcount, hended]
  generalize op.status = status, e.reports.heard (.operation id) = heard at htold
  cases htold <;> rfl

/-- Of those that nobody else stands beside, as many have finished as have ended. -/
theorem Steady.finishes_eq (he : e.Steady) (hnodup : ops.Nodup) {p : Callback → Bool}
    (hfrom : ∀ d ∈ e.reports.journal, p d.receiver → ∃ id ∈ ops, d.teller = .operation id)
    (hto : ∀ id ∈ ops, ∃ op, e.get? id = some op ∧ p op.callback) :
    e.reports.finishes (fun d => p d.receiver) = ops.countP e.isTerminal := by
  have hreceiver : e.reports.finishes (fun d => p d.receiver) =
      e.reports.finishes fun d => ops.any (d.teller == .operation ·) := by
    refine Reports.finishes_congr rfl fun d hd => ?_
    rw [Bool.eq_iff_iff]
    simp only [List.any_eq_true, beq_iff_eq]
    refine ⟨hfrom d hd, fun ⟨id, hid, ht⟩ => ?_⟩
    obtain ⟨op, hop, hp⟩ := hto id hid
    have haddressed := he.addressed d hd
    rw [Addressed, ht] at haddressed
    obtain ⟨op', hop', hr⟩ := haddressed
    cases hop.symm.trans hop'
    rwa [hr]
  rw [hreceiver]
  clear hreceiver hfrom
  induction ops with
  | nil => exact Reports.finishes_eq_zero fun d _ => rfl
  | cons id ops ih =>
    obtain ⟨hnotin, hnodup⟩ := List.nodup_cons.1 hnodup
    obtain ⟨op, hop, -⟩ := hto id List.mem_cons_self
    have hsplit : e.reports.finishes (fun d => (id :: ops).any (d.teller == .operation ·)) =
        e.reports.finishes (·.teller == .operation id) +
          e.reports.finishes fun d => ops.any (d.teller == .operation ·) := by
      simp only [List.any_cons]
      refine Reports.finishes_or fun d _ hd => List.any_eq_false.2 fun j hj hdj => hnotin ?_
      cases (beq_iff_eq.1 hd).symm.trans (beq_iff_eq.1 hdj)
      exact hj
    rw [hsplit, he.finishes_operation hop, ih hnodup fun j hj => hto j (List.mem_cons_of_mem id hj),
      List.countP_cons, Nat.add_comm]

/-! ## Futures -/

/-- The latch was made for `n` operations, of which these have been made, and no others are joined to
it. -/
structure Awaits (w : Wiring) (latch n : Nat) (ops : List Nat) (e : Engine) : Prop where
  within : w.Within latch e.reports.outline
  nodup : ops.Nodup
  joined : ∀ id ∈ ops, ∃ op, e.get? id = some op ∧ op.callback.Known e.reports.outline ∧
    w.Joins e.reports.outline latch op.callback
  admits : e.Abides (w.Admits e.reports.outline latch ops)
  counted : w.Counted latch n e.reports

variable {w : Wiring} {latch n : Nat} {since : Outline}

theorem Move.tallied (hmove : e.Move since e') (he : e.Proper) (h : e.reports.Tallied latch n)
    (hlatch : latch < e.reports.outline.latches) : e'.reports.Tallied latch n := by
  cases hmove with
  | evolve hevolves _ => exact h.of_says hevolves.reports
  | add work idempotent _ _ _ => exact h
  | listen id _ _ => exact (reports_listen e id _).symm ▸ h
  | conclude member _ _ status => exact (h.tell _ _ _).tell _ _ _
  | extend hextends _ => exact h.extend hextends he.known.journal hlatch

theorem Move.metered (hmove : e.Move since e') {m : Nat} (h : e.reports.Metered m n 0)
    (hm : m < e.reports.outline.multiplexers) : e'.reports.Metered m n 0 := by
  cases hmove with
  | evolve hevolves _ =>
    refine h.of_says hevolves.reports fun {t c} ht hmultiplexer => ?_
    obtain ⟨_, _, -, -, ⟨ht, -⟩ | ⟨ht, -⟩⟩ := ht <;> cases ht.symm.trans hmultiplexer
  | add work idempotent _ _ _ => exact h
  | listen id _ _ => exact (reports_listen e id _).symm ▸ h
  | conclude member _ _ status =>
    exact Reports.Metered.tell 0 _ _ _ (Reports.Metered.tell 0 _ _ _ h)
  | extend hextends _ => exact h.extend hextends hm

namespace Awaits

theorem move (h : e.Awaits w latch n ops) (he : e.Proper) (hmove : e.Move since e')
    (hsince : w.Within latch since) : e'.Awaits w latch n ops where
  within := h.within.grows hmove.grows
  nodup := h.nodup
  joined id hid := by
    obtain ⟨op, hop, hknown, hjoins⟩ := h.joined id hid
    obtain ⟨l', hl', hfollows⟩ := (hmove.goes he.orderly.sound).follows id _ (life?_of_get? hop)
    have hcallback : l'.operation.callback = op.callback := congrArg Nature.callback hfollows.nature
    refine ⟨l'.operation, get?_of_life? hl', ?_, ?_⟩
    · rw [hcallback]
      exact hknown.grows hmove.grows
    · rw [hcallback]
      exact hjoins.grows hknown hmove.grows
  admits := by
    have hboth := hmove.abides (h.admits.and he.known) fun t ht c hknown hbeyond =>
      (Wiring.spreads_of_beyond hsince hbeyond fun m _ => ht m).and
        (hknown.spreads (Teller.below_of_ne ht _))
    exact hboth.mono fun t c hc => hc.1.grows hc.2.2 hmove.grows
  counted := by
    have hwithin := h.within
    have hcounted := h.counted
    cases w with
    | direct => exact hmove.tallied he hcounted hwithin.latch
    | gathered m =>
      exact ⟨hmove.tallied he hcounted.1 hwithin.latch,
        hmove.metered hcounted.2 (hwithin.multiplexer m rfl)⟩

theorem moves (h : e.Awaits w latch n ops) (he : e.Proper) (hmoves : e.Moves since e')
    (hsince : w.Within latch since) : e'.Awaits w latch n ops := by
  induction hmoves with
  | refl => exact h
  | tail hmoves hmove ih => exact ih.move (he.moves hmoves) hmove hsince

/-- One more operation is joined to the latch. -/
theorem add (h : e.Awaits w latch n ops) (work : Work) (idempotent : Bool) {callback : Callback}
    (hknown : callback.Known e.reports.outline)
    (hjoins : w.Joins e.reports.outline latch callback) :
    (e.add work idempotent callback).1.Awaits w latch n (ops ++ [e.size]) where
  within := h.within
  nodup := by
    have hnew : e.size ∉ ops := fun hid => by
      obtain ⟨op, hop, -⟩ := h.joined _ hid
      exact Nat.lt_irrefl _ (lt_size_of_get? hop)
    exact List.nodup_append.2 ⟨h.nodup, List.nodup_singleton _, by
      rintro id hid _ hsize rfl
      exact hnew (List.mem_singleton.1 hsize ▸ hid)⟩
  joined id hid := by
    rcases List.mem_append.1 hid with hid | hid
    · obtain ⟨op, hop, hjoined⟩ := h.joined id hid
      refine ⟨op, ?_, hjoined⟩
      rw [get?_add, if_neg (Nat.ne_of_lt (lt_size_of_get? hop)), hop]
    · refine ⟨{ tag := e.freshTag.2, work, idempotent, callback }, ?_, hknown, hjoins⟩
      rw [List.mem_singleton.1 hid, get?_add, if_pos rfl]
  admits := (h.admits.mono fun t c hc => hc.mono (List.subset_append_left _ _)).add work idempotent
    (hjoins.spreads (List.mem_append_right _ (List.mem_singleton_self _)))
  counted := h.counted

/-- **A latch is open just when the operations that it was made for have ended.** -/
theorem isOpen_iff (h : e.Awaits w latch ops.length ops) (he : e.Steady) :
    e.reports.isOpen latch ↔ ∀ id ∈ ops, e.isTerminal id := by
  have hall : ops.length ≤ ops.countP e.isTerminal ↔ ∀ id ∈ ops, e.isTerminal id := by
    rw [← List.countP_eq_length]
    have := List.countP_le_length (p := e.isTerminal) (l := ops)
    omega
  rw [← hall, Reports.isOpen, beq_iff_eq]
  obtain ⟨-, hnodup, hjoined, hadmits, hcounted⟩ := h
  cases w with
  | direct =>
    have hfinishes := he.finishes_eq hnodup
      (p := fun c => c.latch? e.reports.outline == some latch)
      (fun d hd hp => hadmits.journal d hd (beq_iff_eq.1 hp))
      (fun id hid => by
        obtain ⟨op, hop, -, hjoins⟩ := hjoined id hid
        exact ⟨op, hop, beq_iff_eq.2 hjoins⟩)
    have hcount : e.reports.latchCount latch = ops.length - e.reports.finishes
      (·.counts e.reports.outline latch) := hcounted
    rw [hcount, show e.reports.finishes (·.counts e.reports.outline latch) = _ from hfinishes]
    omega
  | gathered m =>
    have hfinishes := he.finishes_eq hnodup (p := fun c => c.multiplexer? == some m)
      (fun d hd hp => (hadmits.journal d hd).2 (beq_iff_eq.1 hp))
      (fun id hid => by
        obtain ⟨op, hop, -, aggregate, hcallback, -⟩ := hjoined id hid
        exact ⟨op, hop, by simp [hcallback, Callback.multiplexer?]⟩)
    -- the latch hears from the multiplexer only
    have hsaid : e.reports.finishes (·.counts e.reports.outline latch) =
        e.reports.finishes (·.isFrom m) := Reports.finishes_congr rfl fun d hd => by
      rw [Bool.eq_iff_iff, Delivery.counts, Delivery.isFrom, beq_iff_eq, beq_iff_eq]
      exact (hadmits.journal d hd).1
    have hcount : e.reports.latchCount latch = 1 - e.reports.finishes
      (·.counts e.reports.outline latch) := hcounted.1
    have honce := hcounted.2.said
    rw [show e.reports.finishes (·.isTo m) = _ from hfinishes] at honce
    rw [hcount, hsaid]
    split_ifs at honce <;> omega

end Awaits

/-! ## New latches -/

/-- Nobody is joined to a new latch. -/
theorem awaits_addLatch (he : e.Proper) (n : Nat) :
    Awaits .direct e.reports.latches.length n [] { e with reports := (e.reports.addLatch n).1 } := by
  have hgrows := (e.reports.extends_addLatch n).grows
  have hnobody : ∀ t c, e.reports.outline.Covers t c →
      c.latch? (e.reports.addLatch n).1.outline ≠ some e.reports.latches.length :=
    fun t c hcovers hlatch => by
      rw [hcovers.2.latch?_eq hgrows] at hlatch
      exact Nat.lt_irrefl _ (hcovers.2.latch_lt he.latches hlatch)
  have hknown : Abides e.reports.outline.Covers { e with reports := (e.reports.addLatch n).1 } :=
    he.known.congr rfl rfl
  refine ⟨⟨?_, fun m hm => (by cases hm)⟩, List.nodup_nil, fun id hid => (by cases hid), ?_, ?_⟩
  · simp [Reports.outline, Reports.addLatch]
  · exact hknown.mono fun t c hcovers hlatch => absurd hlatch (hnobody t c hcovers)
  · have hnone : (e.reports.addLatch n).1.finishes
        (·.counts (e.reports.addLatch n).1.outline e.reports.latches.length) = 0 :=
      Reports.finishes_eq_zero fun d hd =>
        beq_eq_false_iff_ne.2 (hnobody _ _ (he.known.journal d hd))
    change (e.reports.addLatch n).1.latchCount _ = n - _
    rw [hnone]
    simp [Reports.latchCount, Reports.addLatch]

/-- Nobody is joined to a new multiplexer. -/
theorem Awaits.gather (h : e.Awaits .direct latch 1 []) (he : e.Proper) (hn : 0 < n) :
    Awaits (.gathered e.reports.multiplexers.length) latch n []
      { e with reports := (e.reports.addMultiplexer n).1 } := by
  have hextends := e.reports.extends_addMultiplexer n
  have hself : ∀ {t c}, e.reports.outline.Covers t c →
      t ≠ .multiplexer e.reports.multiplexers.length ∧
        c.multiplexer? ≠ some e.reports.multiplexers.length := fun {t c} hcovers => by
    refine ⟨fun ht => ?_, fun hc => ?_⟩
    · have hbelow := hcovers.1
      rw [ht] at hbelow
      exact Nat.lt_irrefl _ hbelow
    · cases c with
      | multiplex id aggregate =>
        cases hc
        exact Nat.lt_irrefl _ hcovers.2.1
      | _ => cases hc
  have hsame : Abides (fun t c => Wiring.direct.Admits e.reports.outline latch [] t c ∧
      e.reports.outline.Covers t c) { e with reports := (e.reports.addMultiplexer n).1 } :=
    (h.admits.and he.known).congr rfl rfl
  refine ⟨⟨h.within.latch, fun m hm => ?_⟩, List.nodup_nil, fun id hid => (by cases hid), ?_, ?_⟩
  · cases hm
    simp [Reports.outline, Reports.addMultiplexer]
  · refine hsame.mono fun t c hc => ⟨⟨fun hlatch => ?_, fun ht => ?_⟩,
      fun hm => absurd hm (hself hc.2).2⟩
    · rw [hc.2.2.latch?_eq hextends.grows] at hlatch
      obtain ⟨id, hid, -⟩ := hc.1 hlatch
      cases hid
    · exact absurd ht (hself hc.2).1
  · have hto : (e.reports.addMultiplexer n).1.finishes (·.isTo e.reports.multiplexers.length) = 0 :=
      Reports.finishes_eq_zero fun d hd =>
        beq_eq_false_iff_ne.2 (hself (he.known.journal d hd)).2
    have hfrom : (e.reports.addMultiplexer n).1.finishes (·.isFrom e.reports.multiplexers.length) = 0 :=
      Reports.finishes_eq_zero fun d hd =>
        beq_eq_false_iff_ne.2 (hself (he.known.journal d hd)).1
    have hcounted : e.reports.Tallied latch 1 := h.counted
    refine ⟨hcounted.extend hextends he.known.journal h.within.latch, ?_, ?_⟩
    · rw [hto]
      simp [Reports.addMultiplexer]
    · rw [hto, hfrom, if_neg (Nat.not_le_of_lt hn)]

end Engine

end ShardedCache

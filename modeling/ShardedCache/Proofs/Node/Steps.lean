import ShardedCache.Node.Queue
import ShardedCache.Proofs.Engine.Sound

/-!
# Packing and processing, step by step

`Queue.pack` and `Queue.process` are loops. Here each of their rounds is a rule of a relation, with
the conditions under which it is taken, so that what every round keeps the whole loop keeps
(`pack_induction`, `process_induction`).
-/

namespace ShardedCache

open Wire (Frame FrameFault)

namespace Queue

/-! ## Regrouping -/

/-- How many bytes of the requests of some operations have not been written. -/
def load (e : Engine) : List Nat → Nat
  | [] => 0
  | id :: ids => (e.remaining id).2 + load e ids

/-- The first `n` of some operations make the longest run that goes into one batch with `count`
operations of `bytes` bytes before them. -/
structure LongestRun (s : QueueSettings) (e : Engine) (family : BatchFamily) (count bytes : Nat)
    (ids : List Nat) (n : Nat) : Prop where
  le_length : n ≤ ids.length
  fits : ∀ id ∈ ids.take n, Queue.fits e family id
  keys_le : n ≠ 0 → count + n ≤ s.maxBatchKeys
  bytes_le : n ≠ 0 → 2 ≤ count + n → bytes + load e (ids.take n) ≤ s.maxBatchBytes
  stops : ∀ id, ids[n]? = some id → Queue.fits e family id → s.maxBatchKeys ≤ count + n ∨
    0 < count + n ∧ s.maxBatchBytes < bytes + load e (ids.take n) + (e.remaining id).2

section LongestRun

variable {s : QueueSettings} {e : Engine} {family : BatchFamily} {count bytes : Nat}

theorem longestRun_zero {ids : List Nat} (h : ∀ id, ids[0]? = some id → fits e family id →
    s.maxBatchKeys ≤ count ∨ 0 < count ∧ s.maxBatchBytes < bytes + (e.remaining id).2) :
    LongestRun s e family count bytes ids 0 where
  le_length := Nat.zero_le _
  fits := by simp
  keys_le h := absurd rfl h
  bytes_le h := absurd rfl h
  stops := h

/-- One more operation in front of a run. -/
theorem LongestRun.cons {id n : Nat} {ids : List Nat} (hfits : Queue.fits e family id)
    (hkeys : count < s.maxBatchKeys)
    (hbytes : 0 < count → bytes + (e.remaining id).2 ≤ s.maxBatchBytes)
    (h : LongestRun s e family (count + 1) (bytes + (e.remaining id).2) ids n) :
    LongestRun s e family count bytes (id :: ids) (n + 1) := by
  have hload : load e ((id :: ids).take (n + 1)) = (e.remaining id).2 + load e (ids.take n) := rfl
  refine ⟨Nat.succ_le_succ h.le_length, fun m hm => ?_, fun _ => ?_, fun _ htwo => ?_,
    fun m hm hnext => ?_⟩
  · rw [List.take_succ_cons, List.mem_cons] at hm
    rcases hm with rfl | hm
    · exact hfits
    · exact h.fits m hm
  · by_cases hn : n = 0
    · omega
    · have := h.keys_le hn
      omega
  · rw [hload]
    by_cases hn : n = 0
    · subst hn
      have := hbytes (by omega)
      simpa [load] using this
    · have := h.bytes_le hn (by omega)
      omega
  · rw [hload]
    have := h.stops m hm hnext
    omega

end LongestRun

/-- A scan goes on for as long as the run does. -/
theorem runLength_spec (s : QueueSettings) (e : Engine) (family : BatchFamily) :
    ∀ (ids : List Nat) (count bytes : Nat), ∃ n,
      runLength s e family count bytes ids = count + n ∧ LongestRun s e family count bytes ids n
  | [], count, bytes => ⟨0, rfl, longestRun_zero fun _ hid => by cases hid⟩
  | id :: rest, count, bytes => by
    unfold runLength
    split
    · next hstop =>
      refine ⟨0, rfl, longestRun_zero fun m hm hfits => ?_⟩
      cases hm
      simp only [Bool.or_eq_true, decide_eq_true_eq, Bool.not_eq_true'] at hstop
      rcases hstop with hkeys | hnot
      · exact .inl hkeys
      · rw [hfits] at hnot
        cases hnot
    · next hgo =>
      simp only [Bool.or_eq_true, decide_eq_true_eq, Bool.not_eq_true', not_or, Nat.not_le,
        Bool.not_eq_false] at hgo
      dsimp only
      split
      · next hfull =>
        refine ⟨0, rfl, longestRun_zero fun m hm _ => .inr ?_⟩
        cases hm
        simpa using hfull
      · next hroom =>
        obtain ⟨n, heq, hrun⟩ :=
          runLength_spec s e family rest (count + 1) (bytes + (e.remaining id).2)
        refine ⟨n + 1, by rw [heq]; omega, hrun.cons hgo.2 hgo.1 fun hcount => ?_⟩
        simp only [Bool.and_eq_true, decide_eq_true_eq, not_and, Nat.not_lt] at hroom
        exact hroom hcount

theorem isSingle_of_fits {e : Engine} {family : BatchFamily} {id : Nat} (h : fits e family id) :
    e.IsSingle id := by
  obtain ⟨op, hop, hfits⟩ := (Option.any_eq_true _ _).1 h
  simp only [Bool.and_eq_true, beq_iff_eq] at hfits
  cases hwork : op.work with
  | single c => exact Engine.isSingle_of_get? hop hwork
  | batch b =>
    rw [hwork] at hfits
    cases hfits.2

/-- What regrouping makes: an engine with one more operation, a batch of the run at the head. -/
structure Regrouped (q : Queue) (e : Engine) (family : BatchFamily) (n : Nat) (e' : Engine) :
    Prop where
  two_le : 2 ≤ n
  le_length : n ≤ q.writeQueue.length
  fits : ∀ id ∈ q.writeQueue.take n, fits e family id
  operations : e'.operations = ((e.batch family (q.writeQueue.take n) .silent).1.modify e.size
    ({ · with node := some q.node })).operations
  journal : e'.reports.journal = (e.batch family (q.writeQueue.take n) .silent).1.reports.journal
  counter : e'.nextTag = (e.batch family (q.writeQueue.take n) .silent).1.nextTag

/-- The first two operations of a queue do not go into one batch. -/
def Apart (q : Queue) (e : Engine) : Prop :=
  ∀ family first second later, q.writeQueue = first :: second :: later → fits e family first →
    fits e family second → q.settings.maxBatchKeys < 2 ∨
      q.settings.maxBatchBytes < (e.remaining first).2 + (e.remaining second).2

theorem family?_of_fits {e : Engine} {family : BatchFamily} {id : Nat} (h : fits e family id) :
    (e.get? id).bind (·.work.family?) = some family := by
  obtain ⟨op, hop, hfits⟩ := (Option.any_eq_true _ _).1 h
  simp only [Bool.and_eq_true, beq_iff_eq] at hfits
  rw [hop, Option.bind_some, hfits.2]

/-- Either the queue stays as it is, for want of two operations that go together, or a batch takes the
place of the longest run at its head. -/
theorem optimize_spec (q : Queue) (e : Engine) :
    (q.optimize e = (q, e) ∧ q.Apart e) ∨
      ∃ family n e', Regrouped q e family n e' ∧
        LongestRun q.settings e family 0 0 q.writeQueue n ∧
        q.optimize e = ({ q with writeQueue := e.size :: q.writeQueue.drop n }, e') := by
  have hhead : ∀ {family first later}, q.writeQueue = first :: later → fits e family first →
      (q.writeQueue.head?.bind e.get?).bind (·.work.family?) = some family := fun hq hfirst => by
    rw [hq, List.head?_cons, Option.bind_some, family?_of_fits hfirst]
  unfold optimize
  split
  · next hnone =>
    refine .inl ⟨rfl, fun family first second later hq hfirst _ => ?_⟩
    rw [hhead hq hfirst] at hnone
    cases hnone
  · next family hsome =>
    obtain ⟨n, heq, hrun⟩ := runLength_spec q.settings e family q.writeQueue 0 0
    rw [Nat.zero_add] at heq
    rw [heq]
    dsimp only
    split
    · next hcount =>
      refine .inl ⟨rfl, fun family' first second later hq hfirst hsecond => ?_⟩
      cases (hhead hq hfirst).symm.trans hsome
      rw [hq] at hrun
      match n, hcount, hrun with
      | 0, _, hrun =>
        have := hrun.stops first rfl hfirst
        omega
      | 1, _, hrun =>
        have := hrun.stops second rfl hsecond
        simp only [List.take_succ_cons, List.take_zero, load] at this
        omega
    · next hcount =>
      have hid : (e.batch family (q.writeQueue.take n) .silent).2 = e.size :=
        Engine.batch_snd family .silent fun m hm => isSingle_of_fits (hrun.fits m hm)
      rw [hid]
      refine .inr ⟨family, n, _, ?_, hrun, rfl⟩
      exact ⟨by omega, hrun.le_length, hrun.fits, rfl, rfl, rfl⟩

theorem optimize_cases (q : Queue) (e : Engine) :
    q.optimize e = (q, e) ∨ ∃ family n e', Regrouped q e family n e' ∧
      q.optimize e = ({ q with writeQueue := e.size :: q.writeQueue.drop n }, e') := by
  rcases optimize_spec q e with ⟨h, -⟩ | ⟨family, n, e', hregrouped, -, h⟩
  · exact .inl h
  · exact .inr ⟨family, n, e', hregrouped, h⟩

theorem Regrouped.isSingle {q : Queue} {e e' : Engine} {family : BatchFamily} {n : Nat}
    (h : Regrouped q e family n e') {id : Nat} (hid : id ∈ q.writeQueue.take n) : e.IsSingle id :=
  isSingle_of_fits (h.fits id hid)

theorem Regrouped.get?_size {q : Queue} {e e' : Engine} {family : BatchFamily} {n : Nat}
    (h : Regrouped q e family n e') : ∃ tag multiplexer idempotent, e'.get? e.size =
      some { tag, work := .batch { family, members := q.writeQueue.take n, multiplexer }, idempotent,
             callback := .silent, node := some q.node } := by
  obtain ⟨tag, multiplexer, idempotent, hget⟩ :=
    Engine.get?_batch family .silent fun _ hm => h.isSingle hm
  refine ⟨tag, multiplexer, idempotent, ?_⟩
  rw [Engine.get?] at hget
  rw [Engine.get?, h.operations]
  simp [Engine.modify, hget]

theorem Regrouped.get?_of_lt {q : Queue} {e e' : Engine} {family : BatchFamily} {n : Nat}
    (h : Regrouped q e family n e') {id : Nat} (hid : id < e.size) :
    e'.get? id = (e.batch family (q.writeQueue.take n) .silent).1.get? id := by
  rw [Engine.get?, h.operations]
  simp [Engine.modify, Engine.get?, Nat.ne_of_gt hid]

theorem Regrouped.goes {q : Queue} {e e' : Engine} {family : BatchFamily} {n : Nat}
    (h : Regrouped q e family n e') (he : e.Sound) : e.Goes e' := by
  have hbatch := Engine.goes_batch he family .silent fun _ hm => h.isSingle hm
  exact (hbatch.trans (Engine.goes_assign hbatch.sound e.size (some q.node))).congr h.operations
    h.journal h.counter

/-! ## Packing -/

/-- The head of the write queue is there to be written: it has begun, or it is not cancelled. -/
def IsDue (e : Engine) (id : Nat) : Prop := isStarted e id = true ∨ e.isCancelled id = false

/-- One round of `pack`. -/
inductive Packing : Queue → Engine → Queue → Engine → Prop where
  /-- A cancelled operation that has not begun is dropped. -/
  | drop {q : Queue} {e : Engine} {id : Nat} {rest : List Nat} (hq : q.writeQueue = id :: rest)
    (hstarted : isStarted e id = false) (hcancelled : e.isCancelled id = true) :
    Packing q e { q with writeQueue := rest } e
  | regroup {q : Queue} {e : Engine} {id : Nat} {rest : List Nat} (hq : q.writeQueue = id :: rest)
    (hdue : IsDue e id) : Packing q e (q.regroup e id).1 (q.regroup e id).2
  /-- The buffer is full before the request has been written. -/
  | fill {q : Queue} {e : Engine} {id : Nat} {rest : List Nat} (hq : q.writeQueue = id :: rest)
    (hdue : IsDue e id) (hroom : q.writeBuffer.length < q.settings.writeBufferSize)
    (hleft : (e.fill id (q.settings.writeBufferSize - q.writeBuffer.length)).1.unwritten id ≠ []) :
    Packing q e
      { q with
        writeBuffer :=
          q.writeBuffer ++ (e.fill id (q.settings.writeBufferSize - q.writeBuffer.length)).2 }
      (e.fill id (q.settings.writeBufferSize - q.writeBuffer.length)).1
  /-- The rest of the request is written, and its operation goes on to wait for the response. -/
  | handOn {q : Queue} {e : Engine} {id : Nat} {rest : List Nat} (hq : q.writeQueue = id :: rest)
    (hdue : IsDue e id) (hroom : q.writeBuffer.length < q.settings.writeBufferSize)
    (hleft : (e.fill id (q.settings.writeBufferSize - q.writeBuffer.length)).1.unwritten id = []) :
    Packing q e
      { q with
        writeQueue := rest, readQueue := q.readQueue ++ [id]
        writeBuffer :=
          q.writeBuffer ++ (e.fill id (q.settings.writeBufferSize - q.writeBuffer.length)).2 }
      ((e.fill id (q.settings.writeBufferSize - q.writeBuffer.length)).1.finishWriting id)

theorem regroup_cases (q : Queue) (e : Engine) (id : Nat) :
    q.regroup e id = (q, e) ∨ (q.settings.optimize = true ∧ isStarted e id = false) ∧
      q.regroup e id = q.optimize e := by
  unfold regroup
  split
  · next h =>
    simp only [Bool.and_eq_true, Bool.not_eq_true'] at h
    exact .inr ⟨h, rfl⟩
  · exact .inl rfl

theorem regroup_eq (q : Queue) (e : Engine) (id : Nat) :
    (q.regroup e id).1 = { q with writeQueue := (q.regroup e id).1.writeQueue } := by
  rcases regroup_cases q e id with h | ⟨-, h⟩
  · rw [h]
  · rw [h]
    rcases optimize_cases q e with h | ⟨_, _, _, -, h⟩ <;> rw [h]

/-- A new batch is there to be written, as its first member was. -/
theorem isDue_regroup {q : Queue} {e : Engine} {id head : Nat} {rest rest' : List Nat}
    (hq : q.writeQueue = id :: rest) (hdue : IsDue e id)
    (hr : (q.regroup e id).1.writeQueue = head :: rest') : IsDue (q.regroup e id).2 head := by
  rcases regroup_cases q e id with h | ⟨-, h⟩
  · rw [h] at hr ⊢
    rw [hq] at hr
    cases hr
    exact hdue
  · rw [h] at hr ⊢
    rcases optimize_cases q e with h | ⟨family, n, e', hregrouped, h⟩
    · rw [h] at hr ⊢
      rw [hq] at hr
      cases hr
      exact hdue
    · rw [h] at hr ⊢
      cases hr
      obtain ⟨_, _, _, hnew⟩ := hregrouped.get?_size
      refine .inr ?_
      rw [Engine.isCancelled, hnew]
      rfl

theorem isDue_of_not {e : Engine} {id : Nat} (h : ¬(!isStarted e id && e.isCancelled id) = true) :
    IsDue e id := by
  cases hs : isStarted e id with
  | true => exact .inl hs
  | false => exact .inr (by simpa [hs] using h)

/-- Regrouping leaves something to be written. -/
theorem regroup_ne_nil {q : Queue} {e : Engine} {id : Nat} {rest : List Nat}
    (hq : q.writeQueue = id :: rest) : (q.regroup e id).1.writeQueue ≠ [] := by
  rcases regroup_cases q e id with h | ⟨-, h⟩
  · rw [h, hq]
    exact List.cons_ne_nil id rest
  · rw [h]
    rcases optimize_cases q e with h | ⟨_, _, _, -, h⟩ <;> rw [h]
    · rw [hq]
      exact List.cons_ne_nil id rest
    · exact List.cons_ne_nil _ _

theorem pack_of_nil {q : Queue} (hq : q.writeQueue = []) (e : Engine) : q.pack e = (q, e) := by
  unfold pack
  split
  · split
    · rfl
    · next h => rw [hq] at h; cases h
  · rfl

theorem pack_of_drop {q : Queue} {e : Engine} {id : Nat} {rest : List Nat}
    (hroom : q.writeBuffer.length < q.settings.writeBufferSize) (hq : q.writeQueue = id :: rest)
    (hskip : (!isStarted e id && e.isCancelled id) = true) :
    q.pack e = pack { q with writeQueue := rest } e := by
  rw [pack, if_pos hroom]
  split
  · next h => rw [hq] at h; cases h
  · next h =>
    rw [hq] at h
    cases h
    rw [if_pos hskip]

theorem pack_of_write {q : Queue} {e : Engine} {id head : Nat} {rest rest' : List Nat}
    (hroom : q.writeBuffer.length < q.settings.writeBufferSize) (hq : q.writeQueue = id :: rest)
    (hskip : ¬(!isStarted e id && e.isCancelled id) = true)
    (hr : (q.regroup e id).1.writeQueue = head :: rest') {filled : Engine} {copied : Bytes}
    (hfill : (q.regroup e id).2.fill head (q.settings.writeBufferSize - q.writeBuffer.length) =
      (filled, copied)) :
    q.pack e =
      if (filled.unwritten head).isEmpty then
        pack { (q.regroup e id).1 with
          writeQueue := rest', writeBuffer := q.writeBuffer ++ copied
          readQueue := (q.regroup e id).1.readQueue ++ [head] } (filled.finishWriting head)
      else ({ (q.regroup e id).1 with writeBuffer := q.writeBuffer ++ copied }, filled) := by
  rw [pack, if_pos hroom]
  split
  · next h => rw [hq] at h; cases h
  · next h =>
    rw [hq] at h
    cases h
    rw [if_neg hskip]
    dsimp only
    split
    · next h => rw [hr] at h; cases h
    · next h =>
      rw [hr] at h
      cases h
      rw [hfill]

/-- Packing goes by rounds that drop the head, or regroup it and then write it. `P` is what holds
between two rounds, `R` what holds between regrouping and writing. -/
theorem pack_rounds {P R : Queue → Engine → Prop}
    (hdrop : ∀ {q e id rest}, q.writeQueue = id :: rest → isStarted e id = false →
      e.isCancelled id = true → P q e → P { q with writeQueue := rest } e)
    (hregroup : ∀ {q e id rest}, q.writeQueue = id :: rest → IsDue e id → P q e →
      R (q.regroup e id).1 (q.regroup e id).2)
    (hfill : ∀ {q e id rest}, q.writeQueue = id :: rest → IsDue e id →
      q.writeBuffer.length < q.settings.writeBufferSize →
      (e.fill id (q.settings.writeBufferSize - q.writeBuffer.length)).1.unwritten id ≠ [] → R q e →
      P { q with
          writeBuffer :=
            q.writeBuffer ++ (e.fill id (q.settings.writeBufferSize - q.writeBuffer.length)).2 }
        (e.fill id (q.settings.writeBufferSize - q.writeBuffer.length)).1)
    (hhandOn : ∀ {q e id rest}, q.writeQueue = id :: rest → IsDue e id →
      q.writeBuffer.length < q.settings.writeBufferSize →
      (e.fill id (q.settings.writeBufferSize - q.writeBuffer.length)).1.unwritten id = [] → R q e →
      P { q with
          writeQueue := rest, readQueue := q.readQueue ++ [id]
          writeBuffer :=
            q.writeBuffer ++ (e.fill id (q.settings.writeBufferSize - q.writeBuffer.length)).2 }
        ((e.fill id (q.settings.writeBufferSize - q.writeBuffer.length)).1.finishWriting id)) :
    ∀ (q : Queue) (e : Engine), P q e → P (q.pack e).1 (q.pack e).2 := by
  intro q e
  fun_induction pack q e with
  | case1 q e _ _ => exact id
  | case2 q e _ id rest hq hskip ih =>
    intro h
    simp only [Bool.and_eq_true, Bool.not_eq_true'] at hskip
    exact ih (hdrop hq hskip.1 hskip.2 h)
  | case3 q e _ id rest hq _ regrouped hr => exact absurd hr (regroup_ne_nil hq)
  | case4 q e hroom id rest hq hdue regrouped head rest' hr room filled copied heq q' hleft ih =>
    intro h
    have hdue := isDue_of_not hdue
    have hbuffer : regrouped.1.writeBuffer = q.writeBuffer := by rw [regroup_eq q e id]
    have hsettings : regrouped.1.settings = q.settings := by rw [regroup_eq q e id]
    have heq' : regrouped.2.fill head (regrouped.1.settings.writeBufferSize -
        regrouped.1.writeBuffer.length) = (filled, copied) := by
      rw [hbuffer, hsettings]
      exact heq
    have hround := hhandOn hr (isDue_regroup hq hdue hr) (by rw [hbuffer, hsettings]; exact hroom)
      (by rw [heq']; exact List.isEmpty_iff.1 hleft) (hregroup hq hdue h)
    rw [heq', hbuffer] at hround
    exact ih hround
  | case5 q e hroom id rest hq hdue regrouped head rest' hr room filled copied heq q' hleft =>
    intro h
    have hdue := isDue_of_not hdue
    have hbuffer : regrouped.1.writeBuffer = q.writeBuffer := by rw [regroup_eq q e id]
    have hsettings : regrouped.1.settings = q.settings := by rw [regroup_eq q e id]
    have heq' : regrouped.2.fill head (regrouped.1.settings.writeBufferSize -
        regrouped.1.writeBuffer.length) = (filled, copied) := by
      rw [hbuffer, hsettings]
      exact heq
    have hround := hfill hr (isDue_regroup hq hdue hr) (by rw [hbuffer, hsettings]; exact hroom)
      (by rw [heq']; exact fun h => hleft (List.isEmpty_iff.2 h)) (hregroup hq hdue h)
    rw [heq', hbuffer] at hround
    exact hround
  | case6 q e _ => exact id

/-- What every round keeps, packing keeps. -/
theorem pack_induction {P : Queue → Engine → Prop}
    (hstep : ∀ {q e q' e'}, Packing q e q' e' → P q e → P q' e') :
    ∀ (q : Queue) (e : Engine), P q e → P (q.pack e).1 (q.pack e).2 :=
  pack_rounds (R := P)
    (fun hq hstarted hcancelled => hstep (.drop hq hstarted hcancelled))
    (fun hq hdue => hstep (.regroup hq hdue))
    (fun hq hdue hroom hleft => hstep (.fill hq hdue hroom hleft))
    (fun hq hdue hroom hleft => hstep (.handOn hq hdue hroom hleft))

/-- A round is made of whole steps of the engine. -/
theorem goes_packing {q q' : Queue} {e e' : Engine} (hstep : Packing q e q' e') (he : e.Sound) :
    e.Goes e' ∧ q'.settings = q.settings ∧ q'.readBuffer = q.readBuffer := by
  cases hstep with
  | drop hq hstarted hcancelled => exact ⟨Engine.Goes.refl he, rfl, rfl⟩
  | @regroup id rest hq hdue =>
    refine ⟨?_, by rw [regroup_eq q e id], by rw [regroup_eq q e id]⟩
    rcases regroup_cases q e id with h | ⟨-, h⟩
    · rw [h]
      exact Engine.Goes.refl he
    · rw [h]
      rcases optimize_cases q e with h | ⟨_, _, _, hregrouped, h⟩
      · rw [h]
        exact Engine.Goes.refl he
      · rw [h]
        exact hregrouped.goes he
  | fill hq hdue hroom hleft => exact ⟨Engine.goes_fill he _ _, rfl, rfl⟩
  | handOn hq hdue hroom hleft =>
    have hfill := Engine.goes_fill he
    exact ⟨(hfill _ _).trans (Engine.goes_finishWriting (hfill _ _).sound _), rfl, rfl⟩

theorem goes_pack (q : Queue) {e : Engine} (he : e.Sound) :
    e.Goes (q.pack e).2 ∧ (q.pack e).1.settings = q.settings ∧
      (q.pack e).1.readBuffer = q.readBuffer := by
  refine pack_induction (P := fun q' e' => e.Goes e' ∧ q'.settings = q.settings ∧
    q'.readBuffer = q.readBuffer) (fun hstep ⟨hgoes, hsettings, hbuffer⟩ => ?_) q e
      ⟨Engine.Goes.refl he, rfl, rfl⟩
  obtain ⟨hnext, hsettings', hbuffer'⟩ := goes_packing hstep hgoes.sound
  exact ⟨hgoes.trans hnext, hsettings'.trans hsettings, hbuffer'.trans hbuffer⟩

/-! ## Processing -/

/-- One round of `process`. -/
inductive Processing : Queue → Engine → Queue → Engine → Prop where
  /-- A frame that nobody waits for. -/
  | stray {q : Queue} {e : Engine} {f : Frame} {rest : Bytes}
    (hparse : Frame.parse Wire.responseMagic q.readBuffer = .frame f rest) (hq : q.readQueue = []) :
    Processing q e { q with readBuffer := rest } e
  /-- A frame that more frames will follow. -/
  | pending {q : Queue} {e : Engine} {f : Frame} {rest : Bytes} {id : Nat} {waiting : List Nat}
    (hparse : Frame.parse Wire.responseMagic q.readBuffer = .frame f rest)
    (hq : q.readQueue = id :: waiting) (hreceive : (e.receive id f).2 = .pending) :
    Processing q e { q with readBuffer := rest } (e.receive id f).1
  /-- The last frame for an operation. -/
  | last {q : Queue} {e : Engine} {f : Frame} {rest : Bytes} {id : Nat} {waiting : List Nat}
    (hparse : Frame.parse Wire.responseMagic q.readBuffer = .frame f rest)
    (hq : q.readQueue = id :: waiting) (hreceive : (e.receive id f).2 ≠ .pending) :
    Processing q e { q with readBuffer := rest, readQueue := waiting } (e.receive id f).1
  /-- Bytes that make no frame, which nobody waits for. -/
  | strayFault {q : Queue} {e : Engine} {fault : FrameFault} {rest : Bytes}
    (hparse : Frame.parse Wire.responseMagic q.readBuffer = .fault fault rest)
    (hq : q.readQueue = []) : Processing q e { q with readBuffer := rest } e
  /-- Bytes that make no frame are charged to the operation that waits. -/
  | fault {q : Queue} {e : Engine} {fault : FrameFault} {rest : Bytes} {id : Nat}
    {waiting : List Nat} (hparse : Frame.parse Wire.responseMagic q.readBuffer = .fault fault rest)
    (hq : q.readQueue = id :: waiting) :
    Processing q e { q with readBuffer := rest, readQueue := waiting }
      (e.fail id ⟨.general, fault.reason⟩)

/-- What every round keeps, processing keeps. -/
theorem process_induction {P : Queue → Engine → Prop}
    (hstep : ∀ {q e q' e'}, Processing q e q' e' → P q e → P q' e') :
    ∀ (q : Queue) (e : Engine), P q e → P (q.process e).1 (q.process e).2.1 := by
  have hfault : ∀ {q : Queue} {e e' : Engine} {fault : FrameFault} {rest : Bytes},
      Frame.parse Wire.responseMagic q.readBuffer = .fault fault rest → P q e →
        (q.readQueue = [] → e' = e) →
        (∀ id waiting, q.readQueue = id :: waiting → e' = e.fail id ⟨.general, fault.reason⟩) →
        P { q with readBuffer := rest, readQueue := q.readQueue.tail } e' := by
    intro q e e' fault rest hparse h hnone hsome
    cases hq : q.readQueue with
    | nil =>
      have := hstep (.strayFault hparse hq) h
      rw [hnone hq]
      rwa [hq] at this
    | cons id waiting =>
      rw [hsome id waiting hq]
      exact hstep (.fault hparse hq) h
  intro q e
  fun_induction process q e with
  | case1 q e hparse => exact id
  | case2 q e f rest hparse q' hq => exact hstep (.stray hparse hq)
  | case3 q e f rest hparse q' id waiting hq e' hreceive ih =>
    intro h
    have := hstep (.pending hparse hq (by rw [hreceive])) h
    rw [hreceive] at this
    exact ih this
  | case4 q e f rest hparse q' id waiting hq e' hreceive ih =>
    intro h
    have := hstep (.last hparse hq (by simp [hreceive])) h
    rw [hreceive] at this
    exact ih this
  | case5 q e f rest hparse q' id waiting hq e' hreceive =>
    intro h
    have := hstep (.last hparse hq (by simp [hreceive])) h
    rw [hreceive] at this
    exact this
  | case6 q e fault rest hparse e' q' hc ih =>
    exact fun h => ih (hfault hparse h (fun hq => by simp [e', hq]) fun _ _ hq => by simp [e', hq])
  | case7 q e fault rest hparse e' q' hc =>
    exact fun h => hfault hparse h (fun hq => by simp [e', hq]) fun _ _ hq => by simp [e', hq]

theorem goes_processing {q q' : Queue} {e e' : Engine} (hstep : Processing q e q' e')
    (he : e.Sound) : e.Goes e' ∧ q'.settings = q.settings := by
  cases hstep with
  | stray hparse hq => exact ⟨Engine.Goes.refl he, rfl⟩
  | pending hparse hq hreceive => exact ⟨(Engine.goes_receive he _ _).1, rfl⟩
  | last hparse hq hreceive => exact ⟨(Engine.goes_receive he _ _).1, rfl⟩
  | strayFault hparse hq => exact ⟨Engine.Goes.refl he, rfl⟩
  | fault hparse hq => exact ⟨(Engine.goes_fail he _ _).1, rfl⟩

theorem goes_process (q : Queue) {e : Engine} (he : e.Sound) :
    e.Goes (q.process e).2.1 ∧ (q.process e).1.settings = q.settings := by
  refine process_induction (P := fun q' e' => e.Goes e' ∧ q'.settings = q.settings)
    (fun hstep ⟨hgoes, hsettings⟩ => ?_) q e ⟨Engine.Goes.refl he, rfl⟩
  obtain ⟨hnext, hsettings'⟩ := goes_processing hstep hgoes.sound
  exact ⟨hgoes.trans hnext, hsettings'.trans hsettings⟩

end Queue

end ShardedCache

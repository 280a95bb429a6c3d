import ShardedCache.Proofs.Engine.Life

/-!
# What an engine does to lives

One lemma for each function of the engine that ends operations, in terms of lives. Batches hold
operations for single commands only (`Engine.Flat`), so what happens to a batch reaches its members
and no further.
-/

namespace ShardedCache

open Wire (Status Frame)

namespace Engine

/-! ## Several operations -/

/-- What stays as it is for all of an operation's life. -/
def nature? (e : Engine) (id : Nat) : Option Nature := (e.get? id).map (·.nature)

/-- An operation for one command. -/
def IsSingle (e : Engine) (id : Nat) : Prop := ∃ n c, e.nature? id = some n ∧ n.work = .single c

/-- The members of a batch are older than it, and none of them is a batch. -/
def Flat (e : Engine) : Prop := ∀ id, ∀ m ∈ e.members id, m < id ∧ e.IsSingle m

theorem members_eq_nature? (e : Engine) (id : Nat) :
    e.members id = ((e.nature? id).map (·.work.members)).getD [] := by
  rw [members, nature?, Option.map_map]
  rfl

theorem nature?_of_get? {e : Engine} {id : Nat} {op : Operation} (hop : e.get? id = some op) :
    e.nature? id = some op.nature := by
  rw [nature?, hop, Option.map_some]

theorem isSingle_of_get? {e : Engine} {id : Nat} {op : Operation} {c : Command}
    (hop : e.get? id = some op) (hc : op.work = .single c) : e.IsSingle id :=
  ⟨op.nature, c, nature?_of_get? hop, hc⟩

theorem members_of_isSingle {e : Engine} {id : Nat} (h : e.IsSingle id) : e.members id = [] := by
  obtain ⟨n, c, hn, hc⟩ := h
  rw [members_eq_nature?, hn, Option.map_some, Option.getD_some, hc]
  rfl

theorem members_of_batch {e : Engine} {id : Nat} {op : Operation} {b : Batch}
    (hop : e.get? id = some op) (hb : op.work = .batch b) : e.members id = b.members := by
  rw [members, hop, Option.map_some, Option.getD_some, Operation.members, hb]
  rfl

theorem Becomes.nature?_eq {e e' : Engine} {g : Nat → Life → Life} (h : e.Becomes g e')
    (hg : ∀ id, Life.KeepsNature (g id)) (id : Nat) : e'.nature? id = e.nature? id := by
  rw [nature?, nature?, get?_eq, get?_eq, h.lives id, Option.map_map, Option.map_map, Option.map_map]
  congr 1
  funext l
  exact hg id l

theorem Becomes.members_eq {e e' : Engine} {g : Nat → Life → Life} (h : e.Becomes g e')
    (hg : ∀ id, Life.KeepsNature (g id)) (id : Nat) : e'.members id = e.members id := by
  rw [members_eq_nature?, h.nature?_eq hg, ← members_eq_nature?]

theorem Becomes.isSingle_iff {e e' : Engine} {g : Nat → Life → Life} (h : e.Becomes g e')
    (hg : ∀ id, Life.KeepsNature (g id)) (id : Nat) : e'.IsSingle id ↔ e.IsSingle id := by
  rw [IsSingle, h.nature?_eq hg, ← IsSingle]

theorem Becomes.flat {e e' : Engine} {g : Nat → Life → Life} (h : e.Becomes g e')
    (hg : ∀ id, Life.KeepsNature (g id)) (hflat : e.Flat) : e'.Flat := fun id m hm => by
  rw [h.members_eq hg] at hm
  exact ⟨(hflat id m hm).1, (h.isSingle_iff hg m).2 (hflat id m hm).2⟩

theorem keepsNature_among {g : Life → Life} (hg : Life.KeepsNature g) (ids : List Nat) (id : Nat) :
    Life.KeepsNature (among ids g id) := by
  intro l
  unfold among
  split
  · exact hg l
  · rfl

theorem among_among (ids : List Nat) (g g' : Life → Life) (id : Nat) (l : Life) :
    among ids g' id (among ids g id l) = among ids (fun l => g' (g l)) id l := by
  unfold among
  split <;> rfl

/-- Applying a change to each of several operations in turn applies it to all of them; to one that
is named twice it does nothing more. -/
theorem becomes_each {f : Engine → Nat → Engine} {g : Life → Life} (hkeeps : Life.KeepsNature g)
    (hidem : ∀ l, g (g l) = g l)
    (hf : ∀ (e : Engine) m, e.IsSingle m → e.Becomes (among [m] g) (f e m)) :
    ∀ {ids : List Nat} {e : Engine}, (∀ m ∈ ids, e.IsSingle m) →
      e.Becomes (among ids g) (e.each ids f)
  | [], e, _ => (Becomes.refl e).congr fun _ _ _ => by simp [among]
  | m :: ids, e, h => by
    have hfirst := hf e m (h m (by simp))
    have hrest : ∀ m' ∈ ids, (f e m).IsSingle m' := fun m' hm' => by
      exact (hfirst.isSingle_iff (keepsNature_among hkeeps _) m').2 (h m' (by simp [hm']))
    refine (hfirst.trans (becomes_each hkeeps hidem hf hrest)).congr fun j l _ => ?_
    by_cases hj : j ∈ ids
    · rw [among_of_mem hj, among_of_mem (List.mem_cons_of_mem m hj)]
      by_cases hjm : j = m
      · rw [hjm, among_of_mem (List.mem_singleton_self m), hidem]
      · rw [among_of_not_mem (by simpa using hjm)]
    · rw [among_of_not_mem hj]
      by_cases hjm : j = m
      · rw [hjm, among_of_mem (List.mem_singleton_self m), among_of_mem List.mem_cons_self]
      · rw [among_of_not_mem (by simpa using hjm), among_of_not_mem (by simp [hjm, hj])]

/-! ## Reporting -/

theorem becomes_deliver (e : Engine) (id : Nat) (status : Status) :
    e.Becomes (among [id] (·.report status)) (e.deliver id status) := by
  unfold deliver
  split
  · next hnone => exact becomes_none hnone _
  · next op hop =>
    split
    · next hsome =>
      refine becomes_self fun l hl => ?_
      simp [Life.report, operation_eq hop hl, hsome]
    · next hnone =>
      refine becomes_among_singleton (life?_of_get? hop) ?_ (fun j hj => ?_) rfl
      · have hget : e.operations[id]? = some op := hop
        cases hlistener : op.listener <;>
          simp [life?, get?, modify, Life.report, hnone, hlistener, Reports.heard_conclude, heardOf,
            hget]
      · cases op.listener <;>
          simp [heardOf, get?, modify, Ne.symm hj, Reports.heard_conclude]

theorem becomes_deliverPayload (e : Engine) (id : Nat) (payload : Payload) :
    e.Becomes (among [id] (·.hand payload)) (e.deliverPayload id payload) := by
  unfold deliverPayload
  split
  · next op hop =>
    split
    · next hsome =>
      refine becomes_self fun l hl => ?_
      simp [Life.hand, operation_eq hop hl, hsome]
    · next hnone =>
      refine becomes_among_singleton (life?_of_get? hop) ?_ (fun j hj => ?_) rfl
      · have hget : e.operations[id]? = some op := hop
        simp [life?, get?, Life.hand, hnone, Reports.heard_tell, heardOf, hget]
      · simp [heardOf, get?, Ne.symm hj, Reports.heard_tell]
  · next hnone => exact becomes_none hnone _

/-! ## Ending -/

theorem becomes_complete (e : Engine) (id : Nat) (status : Status) :
    e.Becomes (among [id] (·.complete status)) (e.complete id status) := by
  cases hop : e.get? id with
  | none =>
    have : e.complete id status = e := by simp [complete, hop]
    rw [this]
    exact becomes_none hop _
  | some op =>
    by_cases hmay : op.phase.mayBecome .complete
    · have hdone : e.complete id status =
          { e.modify id ({ · with phase := .complete }) with
            metrics := e.metrics.recordCompletion op.kind status }.deliver id status := by
        simp [complete, advance, hop, hmay, modify]
      have hphase := becomes_of_eq (becomes_modify e id ({ · with phase := .complete }))
        { e.modify id ({ · with phase := .complete }) with
          metrics := e.metrics.recordCompletion op.kind status } rfl rfl rfl
      rw [hdone]
      refine becomes_among_congr ((hphase.trans (becomes_deliver _ id status)).congr
        fun j l _ => among_among _ _ _ j l) fun l hl => ?_
      have hopen := Phase.isTerminal_of_mayBecome hmay
      simp [Life.complete, Life.isTerminal, Operation.isTerminal, operation_eq hop hl, hopen]
    · have hsame : e.complete id status = e := by simp [complete, advance, hop, hmay]
      rw [hsame]
      refine becomes_self fun l hl => ?_
      rw [Phase.mayBecome_of_isTerminal rfl] at hmay
      simp only [Life.complete, Life.isTerminal, Operation.isTerminal, operation_eq hop hl]
      simp_all

theorem becomes_failTo_single (depth : Nat) {e : Engine} {id : Nat} (h : e.members id = [])
    (error : ProtocolError) :
    e.Becomes (among [id] (·.fail error)) (failTo (depth + 1) e id error) := by
  have hstep : failTo (depth + 1) e id error =
      (e.modify id ({ · with error := some error })).complete id (failureStatus error) := by
    simp [failTo, h, each]
  rw [hstep]
  exact ((becomes_modify e id _).trans (becomes_complete _ id _)).congr fun j l _ =>
    among_among _ _ _ j l

/-- A batch that fails takes along the members that have not ended. -/
theorem becomes_fail {e : Engine} (hflat : e.Flat) (id : Nat) (error : ProtocolError) :
    e.Becomes (fun j l => among [id] (·.fail error) j (among (e.members id) (·.failOpen error) j l))
      (e.fail id error) := by
  by_cases hnone : e.members id = []
  · refine (becomes_failTo_single id hnone error).congr fun j l _ => ?_
    rw [hnone, among_of_not_mem (List.not_mem_nil) _]
  · obtain ⟨m, hm⟩ := List.exists_mem_of_ne_nil _ hnone
    obtain ⟨depth, rfl⟩ := Nat.exists_eq_succ_of_ne_zero (Nat.ne_zero_of_lt (hflat id m hm).1)
    have hmembers := @becomes_each
      (fun e m => if e.isTerminal m then e else failTo (depth + 1) e m error) (·.failOpen error)
      (Life.nature_failOpen error)
      (fun l => Life.failOpen_of_isTerminal (Life.isTerminal_failOpen error l) error)
      (fun e m hm => by
        split
        · next hend =>
          refine becomes_self fun l hl => Life.failOpen_of_isTerminal ?_ error
          simpa [isTerminal_eq, hl] using hend
        · next hopen =>
          refine becomes_among_congr
            (becomes_failTo_single depth (members_of_isSingle hm) error) fun l hl => ?_
          have : ¬ l.isTerminal := by simpa [isTerminal_eq, hl] using hopen
          rw [Life.failOpen, if_neg this])
      (e.members (depth + 1)) e fun m hm => (hflat _ m hm).2
    have hself := (becomes_modify (e.each (e.members (depth + 1)) fun e m =>
        if e.isTerminal m then e else failTo (depth + 1) e m error) (depth + 1)
      ({ · with error := some error })).trans (becomes_complete _ (depth + 1) (failureStatus error))
    refine (hmembers.trans hself).congr fun j l _ => ?_
    exact among_among _ _ _ j _

theorem mayBecome_of_get? {e : Engine} {id : Nat} {op : Operation} (hop : e.get? id = some op)
    (next : Phase) (hnext : next.isTerminal) : op.phase.mayBecome next = !e.isTerminal id := by
  rw [Phase.mayBecome_of_isTerminal hnext, isTerminal, hop]
  rfl

theorem cancelTo_of_isTerminal {e : Engine} {id : Nat} (h : e.isTerminal id) (depth : Nat)
    (cause : String) : cancelTo depth e id cause = e := by
  cases depth with
  | zero => rfl
  | succ depth =>
    cases hop : e.get? id with
    | none => simp [cancelTo, advance, hop]
    | some op =>
      have hmay := mayBecome_of_get? hop .cancelled rfl
      simp [cancelTo, advance, hop, hmay, h]

/-- The first step of a cancellation. -/
def mark (e : Engine) (id : Nat) (cause : String) : Engine :=
  (e.modify id ({ · with phase := .cancelled })).modify id ({ · with cancelCause := some cause })

theorem becomes_mark (e : Engine) (id : Nat) (cause : String) :
    e.Becomes (among [id] (·.mapOperation fun op =>
      { op with phase := .cancelled, cancelCause := some cause })) (e.mark id cause) :=
  ((becomes_modify e id _).trans (becomes_modify _ id _)).congr fun j l _ => among_among _ _ _ j l

theorem nature?_mark (e : Engine) (id : Nat) (cause : String) (j : Nat) :
    (e.mark id cause).nature? j = e.nature? j :=
  (becomes_mark e id cause).nature?_eq (keepsNature_among (by intro l; rfl) _) j

/-- An operation that has not ended is marked first, then its members are cancelled, then the
outcome is reported. -/
theorem cancelTo_of_open {e : Engine} {id : Nat} (h : e.isTerminal id = false) (depth : Nat)
    (cause : String) :
    let after := (e.mark id cause).each (e.members id) fun e m => cancelTo depth e m cause
    cancelTo (depth + 1) e id cause =
      { after with metrics := after.metrics.recordCancellation }.deliver id (.cancelled cause) := by
  cases hop : e.get? id with
  | none => simp [isTerminal, hop] at h
  | some op =>
    have hmay := mayBecome_of_get? hop .cancelled rfl
    have hmembers : (e.mark id cause).members id = e.members id := by
      rw [members_eq_nature?, nature?_mark, ← members_eq_nature?]
    rw [mark] at hmembers
    simp [cancelTo, advance, hop, hmay, h, hmembers, mark]

theorem becomes_cancelTo_of_members {depth : Nat} {e : Engine} {id : Nat} {cause : String}
    (hself : id ∉ e.members id)
    (hmembers : (e.mark id cause).Becomes (among (e.members id) (·.cancel cause))
      ((e.mark id cause).each (e.members id) fun e m => cancelTo depth e m cause)) :
    e.Becomes (if e.isTerminal id then fun _ l => l else among (id :: e.members id) (·.cancel cause))
      (cancelTo (depth + 1) e id cause) := by
  split
  · next hend =>
    rw [cancelTo_of_isTerminal hend]
    exact Becomes.refl e
  · next hopen =>
    rw [cancelTo_of_open (by simpa using hopen)]
    have hcounted := becomes_of_eq ((becomes_mark e id cause).trans hmembers)
      { (e.mark id cause).each (e.members id) fun e m => cancelTo depth e m cause with
        metrics := ((e.mark id cause).each (e.members id) fun e m =>
          cancelTo depth e m cause).metrics.recordCancellation } rfl rfl rfl
    refine (hcounted.trans (becomes_deliver _ id _)).congr fun j l hl => ?_
    by_cases hj : j = id
    · subst hj
      have hlife : ¬ l.isTerminal := by simpa [isTerminal_eq, hl] using hopen
      rw [among_of_mem (List.mem_singleton_self j), among_of_mem (List.mem_singleton_self j),
        among_of_not_mem hself, among_of_mem List.mem_cons_self, Life.cancel, if_neg hlife]
    · have hsingle : j ∉ [id] := by simpa using hj
      rw [among_of_not_mem hsingle, among_of_not_mem hsingle]
      unfold among
      simp [hj]

theorem becomes_cancelTo_single (depth : Nat) {e : Engine} {id : Nat} (h : e.members id = [])
    (cause : String) :
    e.Becomes (among [id] (·.cancel cause)) (cancelTo (depth + 1) e id cause) := by
  refine (becomes_cancelTo_of_members (by simp [h]) ?_).congr fun j l hl => ?_
  · rw [h]
    exact (Becomes.refl _).congr fun _ _ _ => by simp [among]
  · split
    · next hend =>
      refine (ite_eq_right_iff.2 fun hj => ?_).symm
      rw [List.mem_singleton.1 hj] at hl
      exact Life.cancel_of_isTerminal (by simpa [isTerminal_eq, hl] using hend) cause
    · rw [h]

/-- A batch that is cancelled takes its members along. -/
theorem becomes_cancel {e : Engine} (hflat : e.Flat) (id : Nat) (cause : String) :
    e.Becomes (if e.isTerminal id then fun _ l => l else among (id :: e.members id) (·.cancel cause))
      (e.cancel id cause).1 := by
  have hself : id ∉ e.members id := fun h => Nat.lt_irrefl id (hflat id id h).1
  refine becomes_cancelTo_of_members hself ?_
  cases id with
  | zero =>
    have hnone : e.members 0 = [] :=
      List.eq_nil_iff_forall_not_mem.2 fun m hm => Nat.not_lt_zero m (hflat 0 m hm).1
    rw [hnone]
    exact (Becomes.refl _).congr fun _ _ _ => by simp [among]
  | succ depth =>
    refine becomes_each (Life.nature_cancel cause)
      (fun l => Life.cancel_of_isTerminal (Life.isTerminal_cancel cause l) cause)
      (fun e m hm => becomes_cancelTo_single depth (members_of_isSingle hm) cause) fun m hm => ?_
    rw [IsSingle, nature?_mark]
    exact (hflat _ m hm).2

/-! ## Responses -/

theorem becomes_settleMembers {e : Engine} (b : Batch) (h : ∀ m ∈ b.members, e.IsSingle m) :
    e.Becomes (among b.members (·.complete b.silentStatus)) (e.settleMembers b) := by
  refine becomes_each (Life.nature_complete _)
    (fun l => Life.complete_of_isTerminal (Life.isTerminal_complete _ l) _) (fun e m _ => ?_) h
  split
  · next hend =>
    refine becomes_self fun l hl => Life.complete_of_isTerminal ?_ _
    simpa [isTerminal_eq, hl] using hend
  · exact becomes_complete e m _

theorem becomes_refuse {e : Engine} (hflat : e.Flat) (id : Nat) (status : UInt16)
    (error : ProtocolError) :
    e.Becomes (fun j l => among [id] (·.fail error) j (among (e.members id) (·.failOpen error) j l))
      (e.refuse id status error).1 := by
  unfold refuse
  split
  · have hlog : e.Becomes (fun _ l => l) (e.logRejection id error.message) := by
      unfold logRejection
      split
      · exact becomes_of_eq (Becomes.refl e) _ rfl rfl rfl
      · exact Becomes.refl e
    have hkeeps : ∀ j : Nat, Life.KeepsNature fun l => l := fun _ _ => rfl
    have := hlog.trans (becomes_fail (hlog.flat hkeeps hflat) id error)
    rwa [hlog.members_eq hkeeps] at this
  · exact becomes_fail hflat id error

/-- What a response frame makes of the queue that its operation heads. -/
def frameOutcome (c : Command) (tag : UInt32) (f : Frame) : FrameOutcome :=
  match c.interpret tag f with
  | .error error =>
    if error.origin = .client ∧ Wire.isConnectionFatal f.status then .fatal else .done
  | .ok _ => .done

theorem refuse_snd (e : Engine) (id : Nat) (status : UInt16) (error : ProtocolError) :
    (e.refuse id status error).2 =
      if error.origin = .client ∧ Wire.isConnectionFatal status then .fatal else .done := by
  unfold refuse
  split <;> rfl

theorem isConnectionFatal_of_frameOutcome {c : Command} {tag : UInt32} {f : Frame}
    (h : frameOutcome c tag f = .fatal) : Wire.isConnectionFatal f.status := by
  unfold frameOutcome at h
  split at h
  · split at h
    · next hfatal => exact hfatal.2
    · cases h
  · cases h

theorem frameOutcome_eq_done {c : Command} {tag : UInt32} {f : Frame}
    (h : frameOutcome c tag f ≠ .fatal) : frameOutcome c tag f = .done := by
  unfold frameOutcome at h ⊢
  split at h
  · split at h
    · exact absurd rfl h
    · next hnot => exact if_neg hnot
  · rfl

theorem receiveTo_single (depth : Nat) {e : Engine} (hflat : e.Flat) {id : Nat} {op : Operation}
    {c : Command} (hop : e.get? id = some op) (hc : op.work = .single c) (f : Frame) :
    e.Becomes (among [id] (·.answer c f)) (receiveTo (depth + 1) e id f).1 ∧
      (receiveTo (depth + 1) e id f).2 = frameOutcome c op.tag f := by
  have hnone : e.members id = [] := by
    rw [members, hop, Option.map_some, Option.getD_some, Operation.members, hc]
    rfl
  cases hreply : c.interpret op.tag f with
  | error error =>
    have hstep : receiveTo (depth + 1) e id f = e.refuse id f.status error := by
      simp [receiveTo, hop, hc, hreply]
    rw [hstep, refuse_snd, frameOutcome, hreply]
    refine ⟨(becomes_refuse hflat id f.status error).congr fun j l hl => ?_, rfl⟩
    rw [hnone, among_of_not_mem List.not_mem_nil]
    unfold among
    split
    · next hj =>
      rw [List.mem_singleton.1 hj] at hl
      simp only [Life.answer, operation_eq hop hl, hreply]
    · rfl
  | ok reply =>
    rw [frameOutcome, hreply]
    cases hpayload : reply.payload with
    | none =>
      have hstep : receiveTo (depth + 1) e id f = (e.complete id reply.status, .done) := by
        simp [receiveTo, hop, hc, hreply, hpayload]
      rw [hstep]
      refine ⟨becomes_among_congr (becomes_complete e id reply.status) fun l hl => ?_, rfl⟩
      simp only [Life.answer, operation_eq hop hl, hreply, hpayload]
    | some payload =>
      have hstep : receiveTo (depth + 1) e id f =
          ((e.deliverPayload id payload).complete id reply.status, .done) := by
        simp [receiveTo, hop, hc, hreply, hpayload]
      rw [hstep]
      refine ⟨becomes_among_congr (((becomes_deliverPayload e id payload).trans
        (becomes_complete _ id reply.status)).congr fun j l _ => among_among _ _ _ j l)
          fun l hl => ?_, rfl⟩
      simp only [Life.answer, operation_eq hop hl, hreply, hpayload]

/-- The answer to the last request of a batch settles the members that kept silent. -/
theorem receiveTo_sentinel (depth : Nat) {e : Engine} (hflat : e.Flat) {id : Nat} {op : Operation}
    {b : Batch} (hop : e.get? id = some op) (hb : op.work = .batch b) {f : Frame}
    (htag : f.tag = op.tag) :
    e.Becomes (fun j l => among [id] (·.complete .success) j
        (among b.members (·.complete b.silentStatus) j l)) (receiveTo (depth + 1) e id f).1 ∧
      (receiveTo (depth + 1) e id f).2 = .done := by
  have hmembers := members_of_batch hop hb
  have hstep : receiveTo (depth + 1) e id f =
      ((e.settleMembers b).complete id .success, .done) := by
    simp [receiveTo, hop, hb, htag]
  rw [hstep]
  exact ⟨(becomes_settleMembers b fun m hm => (hflat id m (hmembers ▸ hm)).2).trans
    (becomes_complete _ id .success), rfl⟩

theorem mem_of_memberByTag? {e : Engine} {b : Batch} {tag : UInt32} {m : Nat}
    (h : e.memberByTag? b tag = some m) : m ∈ b.members :=
  List.mem_reverse.1 (List.mem_of_find?_eq_some h)

/-- A response to a member is the member's. Only one that wants the connection dropped ends the
whole batch. -/
theorem receiveTo_member (depth : Nat) {e : Engine} (hflat : e.Flat) {id m : Nat}
    {op member : Operation} {b : Batch} {c : Command} (hop : e.get? id = some op)
    (hb : op.work = .batch b) {f : Frame} (htag : f.tag ≠ op.tag)
    (hm : e.memberByTag? b f.tag = some m) (hmember : e.get? m = some member)
    (hc : member.work = .single c) :
    (frameOutcome c member.tag f ≠ .fatal →
      e.Becomes (among [m] (·.answer c f)) (receiveTo (depth + 2) e id f).1 ∧
        (receiveTo (depth + 2) e id f).2 = .pending) ∧
    (frameOutcome c member.tag f = .fatal →
      (∃ error, e.Becomes (fun j l => among [id] (·.fail error) j
        (among b.members (·.failOpen error) j (among [m] (·.answer c f) j l)))
          (receiveTo (depth + 2) e id f).1) ∧
        (receiveTo (depth + 2) e id f).2 = .fatal) := by
  obtain ⟨hanswer, houtcome⟩ := receiveTo_single depth hflat hmember hc f
  have hkeeps : ∀ j, Life.KeepsNature (among [m] (·.answer c f) j) :=
    keepsNature_among (by simp [Life.KeepsNature]) _
  have hmembers := members_of_batch hop hb
  cases hr : receiveTo (depth + 1) e m f with
  | mk after outcome =>
    rw [hr] at hanswer houtcome
    have hstep : receiveTo (depth + 2) e id f =
        if outcome = .fatal then
          after.refuse id f.status ⟨.client, after.text m ++ " rejected by server"⟩
        else (after, .pending) := by
      rw [receiveTo, hop]
      simp only [hb, htag, hm, hr, ↓reduceIte]
      cases outcome <;> rfl
    rw [hstep, ← houtcome]
    refine ⟨fun hne => ?_, fun heq => ?_⟩
    · rw [if_neg hne]
      exact ⟨hanswer, rfl⟩
    · rw [if_pos heq]
      have hrefuse := becomes_refuse (hanswer.flat hkeeps hflat) id f.status
        ⟨.client, after.text m ++ " rejected by server"⟩
      rw [hanswer.members_eq hkeeps, hmembers] at hrefuse
      refine ⟨⟨_, hanswer.trans hrefuse⟩, ?_⟩
      rw [refuse_snd, if_pos ⟨rfl, isConnectionFatal_of_frameOutcome (houtcome.symm.trans heq)⟩]

/-- What a frame that is handed to `id` does to lives. -/
inductive Reception (e : Engine) (id : Nat) (f : Frame) : (Nat → Life → Life) → FrameOutcome → Prop where
  /-- Nobody is meant. -/
  | idle : Reception e id f (fun _ l => l) .pending
  | single {op : Operation} {c : Command} (hop : e.get? id = some op) (hc : op.work = .single c) :
    Reception e id f (among [id] (·.answer c f)) (frameOutcome c op.tag f)
  | sentinel {op : Operation} {b : Batch} (hop : e.get? id = some op) (hb : op.work = .batch b)
    (htag : f.tag = op.tag) :
    Reception e id f (fun j l => among [id] (·.complete .success) j
      (among b.members (·.complete b.silentStatus) j l)) .done
  | member {op member : Operation} {b : Batch} {c : Command} {m : Nat} (hop : e.get? id = some op)
    (hb : op.work = .batch b) (hm : m ∈ b.members) (hmember : e.get? m = some member)
    (hc : member.work = .single c) : Reception e id f (among [m] (·.answer c f)) .pending
  /-- The server wants the connection dropped. -/
  | fatal {op member : Operation} {b : Batch} {c : Command} {m : Nat} (hop : e.get? id = some op)
    (hb : op.work = .batch b) (hm : m ∈ b.members) (hmember : e.get? m = some member)
    (hc : member.work = .single c) (error : ProtocolError) :
    Reception e id f (fun j l => among [id] (·.fail error) j
      (among b.members (·.failOpen error) j (among [m] (·.answer c f) j l))) .fatal

theorem becomes_receive {e : Engine} (hflat : e.Flat) (id : Nat) (f : Frame) :
    ∃ g, Reception e id f g (e.receive id f).2 ∧ e.Becomes g (e.receive id f).1 := by
  cases hop : e.get? id with
  | none =>
    have hstep : e.receive id f = (e, .pending) := by simp [receive, receiveTo, hop]
    rw [hstep]
    exact ⟨_, .idle, Becomes.refl e⟩
  | some op =>
    cases hwork : op.work with
    | single c =>
      obtain ⟨hanswer, houtcome⟩ := receiveTo_single id hflat hop hwork f
      exact ⟨_, houtcome ▸ .single hop hwork, hanswer⟩
    | batch b =>
      by_cases htag : f.tag = op.tag
      · obtain ⟨hsettle, houtcome⟩ := receiveTo_sentinel id hflat hop hwork htag
        exact ⟨_, houtcome ▸ .sentinel hop hwork htag, hsettle⟩
      · cases hm : e.memberByTag? b f.tag with
        | none =>
          have hstep : e.receive id f = (e, .pending) := by
            simp [receive, receiveTo, hop, hwork, htag, hm]
          rw [hstep]
          exact ⟨_, .idle, Becomes.refl e⟩
        | some m =>
          have hmem := mem_of_memberByTag? hm
          have hsingle := hflat id m (members_of_batch hop hwork ▸ hmem)
          obtain ⟨depth, rfl⟩ := Nat.exists_eq_succ_of_ne_zero (Nat.ne_zero_of_lt hsingle.1)
          obtain ⟨n, c, hn, hc⟩ := hsingle.2
          obtain ⟨member, hmember, rfl⟩ := Option.map_eq_some_iff.1 hn
          obtain ⟨hpending, hfatal⟩ := receiveTo_member depth hflat hop hwork htag hm hmember hc
          by_cases hout : frameOutcome c member.tag f = .fatal
          · obtain ⟨⟨error, hfail⟩, houtcome⟩ := hfatal hout
            exact ⟨_, houtcome ▸ .fatal hop hwork hmem hmember hc error, hfail⟩
          · obtain ⟨hanswer, houtcome⟩ := hpending hout
            exact ⟨_, houtcome ▸ .member hop hwork hmem hmember hc, hanswer⟩

end Engine

end ShardedCache

import ShardedCache.Proofs.Engine.Same

/-!
# How far a step reaches

A step changes the operation that it is for and the members of that one; every other life goes on as
it was (`life?_receive`, `life?_fail`, `life?_finishWriting`). What a cancellation does to a request is
the same for everyone it reaches (`Spares`): it is forgotten unless it is in flight. What starts over
has nothing written (`Rewinds`).
-/

namespace ShardedCache

open Wire (Frame)

/-- The request has not been written in full. -/
def Operation.isUnwritten (op : Operation) : Bool := op.phase == .queued || op.phase == .writing

theorem Operation.isUnwritten_iff {op : Operation} :
    op.isUnwritten = true ↔ op.phase = .queued ∨ op.phase = .writing := by
  simp [isUnwritten]

theorem Operation.isCancelled_of_isUnwritten {op : Operation} (h : op.isUnwritten = true) :
    op.isCancelled = false := by
  rcases isUnwritten_iff.1 h with hp | hp <;> rw [isCancelled, hp] <;> rfl

namespace Life

/-- The same stage: still to be written, or cancelled, or neither. -/
def Level (l l' : Life) : Prop :=
  l'.operation.isUnwritten = l.operation.isUnwritten ∧
    l'.operation.isCancelled = l.operation.isCancelled

theorem Level.refl (l : Life) : l.Level l := ⟨rfl, rfl⟩

theorem Level.trans {l l' l'' : Life} (h : l.Level l') (h' : l'.Level l'') : l.Level l'' :=
  ⟨h'.1.trans h.1, h'.2.trans h.2⟩

theorem level_of_phase {l l' : Life} (h : l'.operation.phase = l.operation.phase) : l.Level l' := by
  rw [Level, Operation.isUnwritten, Operation.isUnwritten, Operation.isCancelled,
    Operation.isCancelled, h]
  exact ⟨rfl, rfl⟩

theorem level_of_isUnwritten {l l' : Life} (h : l.operation.isUnwritten = true)
    (h' : l'.operation.isUnwritten = true) : l.Level l' :=
  ⟨h'.trans h.symm, (Operation.isCancelled_of_isUnwritten h').trans
    (Operation.isCancelled_of_isUnwritten h).symm⟩

theorem level_among {g : Life → Life} (hg : ∀ l : Life, l.Level (g l)) (ids : List Nat) (id : Nat)
    (l : Life) : l.Level (Engine.among ids g id l) := by
  unfold Engine.among
  split
  · exact hg l
  · exact Level.refl l

theorem level_moveTo_writing (l : Life) : l.Level (l.moveTo .writing) := by
  unfold moveTo
  split
  · next hmay =>
    have hqueued : l.operation.phase = .queued := by
      cases hp : l.operation.phase <;> rw [hp] at hmay <;> first | rfl | cases hmay
    exact level_of_isUnwritten (Operation.isUnwritten_iff.2 (.inl hqueued)) rfl
  · exact Level.refl l

theorem level_prepare_count (bytes : Bytes) (n : Nat) (l : Life) :
    l.Level ((l.prepare bytes).count n) :=
  level_of_phase ((phase_count n _).trans (phase_prepare bytes l))

theorem level_reset (l : Life) : l.Level l.reset := by
  unfold reset
  split
  · next hphase => exact level_of_isUnwritten (Operation.isUnwritten_iff.2 hphase) rfl
  · exact Level.refl l

end Life

namespace Engine

theorem isUnwritten_eq (e : Engine) (id : Nat) :
    e.isUnwritten id = (e.life? id).any (·.operation.isUnwritten) := by
  rw [isUnwritten, get?_eq, Option.any_map]
  rfl

theorem isCancelled_eq (e : Engine) (id : Nat) :
    e.isCancelled id = ((e.life? id).map (·.operation.isCancelled)).getD false := by
  rw [isCancelled, get?_eq, Option.map_map]
  rfl

theorem isTerminal_of_isUnwritten {e : Engine} {id : Nat} (h : e.isUnwritten id = true) :
    e.isTerminal id = false := by
  rw [isUnwritten_eq] at h
  rw [isTerminal_eq]
  cases hl : e.life? id with
  | none => simp [hl] at h
  | some l =>
    have hunwritten : l.operation.isUnwritten = true := by simpa [hl] using h
    rw [Option.map_some, Option.getD_some, Life.isTerminal, Operation.isTerminal]
    rcases Operation.isUnwritten_iff.1 hunwritten with hp | hp <;> rw [hp] <;> rfl

/-! ## Spared operations -/

/-- The request of an operation, and whether it still has to be written, are as they were. -/
structure Keeps (e e' : Engine) (id : Nat) : Prop where
  unwritten : e'.isUnwritten id = e.isUnwritten id
  cancelled : e'.isCancelled id = e.isCancelled id
  request : e'.request? id = e.request? id

/-- Nothing has happened to an operation but that it may have been cancelled, which leaves its
request only while that is in flight. -/
inductive Spares (e e' : Engine) (id : Nat) : Prop where
  | kept (h : e.Keeps e' id)
  | cancelled (hcancelled : e'.isCancelled id = true)
    (hrequest : e'.request? id = (e.request? id).filter (·.inFlight))

theorem keeps_of_life?_eq {e e' : Engine} {id : Nat} (h : e'.life? id = e.life? id) :
    e.Keeps e' id := by
  refine ⟨?_, ?_, ?_⟩
  · rw [isUnwritten_eq, isUnwritten_eq, h]
  · rw [isCancelled_eq, isCancelled_eq, h]
  · rw [request?_eq_life?, request?_eq_life?, h]

theorem Keeps.refl (e : Engine) (id : Nat) : e.Keeps e id := ⟨rfl, rfl, rfl⟩

theorem Becomes.life?_eq {e e' : Engine} {g : Nat → Life → Life} (h : e.Becomes g e') {id : Nat}
    (hg : ∀ l, g id l = l) : e'.life? id = e.life? id := by
  rw [h.lives id, show g id = fun l => l from funext hg, Option.map_id']

theorem Becomes.level {e e' : Engine} {g : Nat → Life → Life} (h : e.Becomes g e') {id : Nat}
    (hg : ∀ l : Life, l.Level (g id l)) :
    e'.isUnwritten id = e.isUnwritten id ∧ e'.isCancelled id = e.isCancelled id := by
  rw [isUnwritten_eq, isUnwritten_eq, isCancelled_eq, isCancelled_eq, h.lives id]
  cases e.life? id with
  | none => exact ⟨rfl, rfl⟩
  | some l => exact hg l

/-! ## Cancelling -/

/-- Cancelling reaches an operation or leaves it as it was. -/
theorem life?_cancel {e : Engine} (he : e.Sound) (id : Nat) (cause : String) (j : Nat) :
    (e.cancel id cause).1.life? j = e.life? j ∨
      (e.cancel id cause).1.isCancelled j = true ∧
        (e.cancel id cause).1.request? j = (e.request? j).filter (·.inFlight) := by
  have hcancel := becomes_cancel he.flat id cause
  split at hcancel
  · exact .inl (hcancel.life?_eq fun _ => rfl)
  · by_cases hj : j ∈ id :: e.members id
    · cases hl : e.life? j with
      | none => exact .inl (by rw [hcancel.lives j, hl]; rfl)
      | some l =>
        have hl' : (e.cancel id cause).1.life? j = some (l.cancel cause) := by
          rw [hcancel.lives j, hl, Option.map_some, among_of_mem hj]
        cases hopen : l.isTerminal with
        | true =>
          rw [Life.cancel_of_isTerminal hopen] at hl'
          exact .inl hl'
        | false =>
          have hnone := (he.lives hl).status_eq_none hopen
          have hstep : l.cancel cause =
              (l.mapOperation ({ · with phase := .cancelled, cancelCause := some cause })).report
                (.cancelled cause) := if_neg (by simp [hopen])
          rw [hstep, Life.report, if_neg (by simp [Life.mapOperation, hnone])] at hl'
          refine .inr ⟨?_, ?_⟩
          · rw [isCancelled_eq, hl']
            rfl
          · rw [request?_eq_life?, request?_eq_life?, hl', hl]
            rfl
    · exact .inl (hcancel.life?_eq fun l => by rw [among_of_not_mem hj])

theorem spares_cancel {e : Engine} (he : e.Sound) (id : Nat) (cause : String) (j : Nat) :
    e.Spares (e.cancel id cause).1 j := by
  rcases life?_cancel he id cause j with hsame | ⟨hcancelled, hrequest⟩
  · exact .kept (keeps_of_life?_eq hsame)
  · exact .cancelled hcancelled hrequest

/-! ## Other lives -/

section Others

variable {e : Engine} (hflat : e.Flat) {id j : Nat} (hj : j ∉ id :: e.members id)

include hflat hj

theorem life?_fail (error : ProtocolError) : (e.fail id error).life? j = e.life? j := by
  rw [List.mem_cons, not_or] at hj
  refine (becomes_fail hflat id error).life?_eq fun l => ?_
  rw [among_of_not_mem (by simpa using hj.1), among_of_not_mem hj.2]

theorem life?_receive (f : Frame) : (e.receive id f).1.life? j = e.life? j := by
  rw [List.mem_cons, not_or] at hj
  have hself : j ∉ [id] := by simpa using hj.1
  obtain ⟨g, hg, hstep⟩ := becomes_receive hflat id f
  generalize (e.receive id f).2 = outcome at hg
  refine hstep.life?_eq fun l => ?_
  cases hg with
  | idle => rfl
  | single hop hc => rw [among_of_not_mem hself]
  | sentinel hop hb htag =>
    rw [members_of_batch hop hb] at hj
    dsimp only
    rw [among_of_not_mem hself, among_of_not_mem hj.2]
  | @member op member b c m hop hb hm hmember hc =>
    rw [members_of_batch hop hb] at hj
    have hjm : j ∉ [m] := fun h => hj.2 (List.mem_singleton.1 h ▸ hm)
    rw [among_of_not_mem hjm]
  | @fatal op member b c m hop hb hm hmember hc error =>
    rw [members_of_batch hop hb] at hj
    have hjm : j ∉ [m] := fun h => hj.2 (List.mem_singleton.1 h ▸ hm)
    dsimp only
    rw [among_of_not_mem hself, among_of_not_mem hj.2, among_of_not_mem hjm]

theorem life?_finishWriting : (e.finishWriting id).life? j = e.life? j := by
  rw [List.mem_cons, not_or] at hj
  cases hop : e.get? id with
  | none =>
    have hstep : e.finishWriting id = e := by simp [finishWriting, advance, hop, modify_of_none hop]
    rw [hstep]
  | some op =>
    refine (becomes_finishWriting hflat hop).life?_eq fun l => ?_
    rw [among_of_not_mem (show j ∉ [id] by simpa using hj.1)]
    split
    · rw [among_of_not_mem hj.2]
    · rw [among_of_not_mem List.not_mem_nil]

end Others

/-! ## Writing and starting over -/

theorem level_fill {e : Engine} (hflat : e.Flat) (id room j : Nat) :
    (e.fill id room).1.isUnwritten j = e.isUnwritten j ∧
      (e.fill id room).1.isCancelled j = e.isCancelled j := by
  cases hop : e.get? id with
  | none =>
    have hstep : (e.fill id room).1 = e := by
      simp [fill, prepare, unwritten, count, hop, modify_of_none hop]
    rw [hstep]
    exact ⟨rfl, rfl⟩
  | some op =>
    refine (becomes_fill hflat hop room).level fun l => ?_
    refine Life.Level.trans ?_ (Life.level_among Life.level_moveTo_writing _ j _)
    refine Life.Level.trans ?_ (Life.level_among Life.level_moveTo_writing _ j _)
    exact Life.level_among (Life.level_prepare_count _ _) _ j l

theorem keeps_fill {e : Engine} (hflat : e.Flat) {id j : Nat} (hj : j ≠ id) (room : Nat) :
    e.Keeps (e.fill id room).1 j :=
  ⟨(level_fill hflat id room j).1, (level_fill hflat id room j).2, request?_fill_of_ne hflat hj room⟩

theorem level_reset {e : Engine} (hflat : e.Flat) (id j : Nat) :
    (e.reset id).1.isUnwritten j = e.isUnwritten j ∧
      (e.reset id).1.isCancelled j = e.isCancelled j := by
  refine (becomes_reset hflat id).level fun l => ?_
  split
  · exact Life.level_among Life.level_reset _ j l
  · exact Life.Level.refl l

/-- The request starts over. -/
structure Rewinds (e e' : Engine) (id : Nat) : Prop where
  unwritten : e'.isUnwritten id = e.isUnwritten id
  cancelled : e'.isCancelled id = e.isCancelled id
  request : e'.request? id = (e.request? id).map ({ · with written := 0 })

theorem rewinds_reset {e : Engine} (hflat : e.Flat) {id j : Nat} (h : e.isUnwritten id = true)
    (hj : j ∈ id :: e.members id) (hwaits : e.isUnwritten j = true) :
    e.Rewinds (e.reset id).1 j := by
  obtain ⟨hunwritten, hcancelled⟩ := level_reset hflat id j
  refine ⟨hunwritten, hcancelled, ?_⟩
  have hlife := (becomes_reset hflat id).lives j
  rw [if_pos h, among_of_mem hj] at hlife
  rw [isUnwritten_eq] at hwaits
  rw [request?_eq_life?, request?_eq_life?, hlife]
  cases hl : e.life? j with
  | none => rfl
  | some l =>
    have hphase : l.operation.phase = .queued ∨ l.operation.phase = .writing := by
      simpa [hl, Operation.isUnwritten] using hwaits
    rw [Option.map_some, Option.bind_some, Life.reset, if_pos hphase]
    rfl

/-- Starting over reaches those that have not been written in full. -/
theorem keeps_or_rewinds_reset {e : Engine} (hflat : e.Flat) (id j : Nat) :
    e.Keeps (e.reset id).1 j ∨ e.Rewinds (e.reset id).1 j := by
  by_cases hreached : e.isUnwritten id = true ∧ j ∈ id :: e.members id ∧ e.isUnwritten j = true
  · exact .inr (rewinds_reset hflat hreached.1 hreached.2.1 hreached.2.2)
  · refine .inl (keeps_of_life?_eq ?_)
    rw [(becomes_reset hflat id).lives j]
    cases hl : e.life? j with
    | none => rfl
    | some l =>
      rw [Option.map_some]
      congr 1
      split
      · next hid =>
        unfold among
        split
        · next hj => exact reset_of_not_isUnwritten (fun hwaits => hreached ⟨hid, hj, hwaits⟩) hl
        · rfl
      · rfl

/-! ## Starting anew -/

/-- The request is as it was, but for how much of it has been written, or it is gone with a
cancellation. -/
structure Resumes (e e' : Engine) (id : Nat) : Prop where
  waiting : e.isUnwritten id = true ∨ e.isCancelled id = true →
    e'.isUnwritten id = true ∨ e'.isCancelled id = true
  unrequested : e.request? id = none → e'.request? id = none
  lost : e'.request? id = none → e.request? id = none ∨ e'.isCancelled id = true
  bytes : ∀ r', e'.request? id = some r' → ∃ r, e.request? id = some r ∧ r'.bytes = r.bytes

theorem Spares.resumes {e e' : Engine} {id : Nat} (h : e.Spares e' id) : e.Resumes e' id := by
  cases h with
  | kept h =>
    refine ⟨fun hw => by rwa [h.unwritten, h.cancelled], fun hr => by rwa [h.request],
      fun hr => .inl (h.request.symm.trans hr), fun r hr => ⟨r, h.request.symm.trans hr, rfl⟩⟩
  | cancelled hcancelled hrequest =>
    refine ⟨fun _ => .inr hcancelled, fun hr => ?_, fun _ => .inr hcancelled, fun r hr => ⟨r, ?_, rfl⟩⟩
    · rw [hrequest, hr]
      rfl
    · rw [hrequest] at hr
      exact (Option.filter_eq_some_iff.1 hr).1

theorem Rewinds.resumes {e e' : Engine} {id : Nat} (h : e.Rewinds e' id) : e.Resumes e' id := by
  refine ⟨fun hw => by rwa [h.unwritten, h.cancelled], fun hr => ?_, fun hr => .inl ?_, fun r' hr => ?_⟩
  · rw [h.request, hr]
    rfl
  · rwa [h.request, Option.map_eq_none_iff] at hr
  · rw [h.request, Option.map_eq_some_iff] at hr
    obtain ⟨r, hr, rfl⟩ := hr
    exact ⟨r, hr, rfl⟩

theorem isCancelled_of_follows {e e' : Engine} (h : e.Follows e') {id : Nat}
    (hc : e.isCancelled id = true) : e'.isCancelled id = true := by
  rw [isCancelled_eq] at hc ⊢
  cases hl : e.life? id with
  | none => rw [hl] at hc; cases hc
  | some l =>
    rw [hl] at hc
    have hphase : l.operation.phase = .cancelled := by simpa [Operation.isCancelled] using hc
    obtain ⟨l', hl', hf⟩ := h id l hl
    have hend : l.isTerminal := by rw [Life.isTerminal, Operation.isTerminal, hphase]; rfl
    have hphase' : l'.operation.phase = .cancelled :=
      (congrArg Ending.phase (hf.ending hend)).trans hphase
    rw [hl', Option.map_some, Option.getD_some, Operation.isCancelled, hphase']
    rfl

end Engine

end ShardedCache

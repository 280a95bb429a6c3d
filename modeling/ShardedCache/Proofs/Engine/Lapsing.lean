import ShardedCache.Proofs.Engine.Wiring

/-!
# What is cancelled before it is written

An operation that has been cancelled while nothing of its request had been written has lapsed: of all
that an engine does, only writing that very request would begin it (`Engine.lapsed_act`). Queues do not
write what has lapsed, so it stays so for good.
-/

namespace ShardedCache

open Wire (Frame Status)

/-- Cancelled, and nothing of the request has been written. -/
def Operation.lapsed (op : Operation) : Bool := op.isCancelled && !op.writeStarted

/-- Still queued or cancelled, and nothing of the request has been written. -/
def Operation.unbegun (op : Operation) : Bool :=
  (op.phase == .queued || op.isCancelled) && !op.writeStarted

namespace Life

/-- The operation of the life has lapsed. -/
def Lapsed (l : Life) : Prop := l.operation.lapsed = true

variable {l : Life}

theorem lapsed_iff : l.Lapsed ↔ l.operation.phase = .cancelled ∧ l.operation.writeStarted = false := by
  simp [Lapsed, Operation.lapsed, Operation.isCancelled]

theorem Lapsed.isTerminal (h : l.Lapsed) : l.isTerminal = true := by
  rw [Life.isTerminal, Operation.isTerminal, (lapsed_iff.1 h).1]
  rfl

theorem Lapsed.complete (h : l.Lapsed) (status : Status) : (l.complete status).Lapsed := by
  rwa [complete_of_isTerminal h.isTerminal]

theorem Lapsed.cancel (h : l.Lapsed) (cause : String) : (l.cancel cause).Lapsed := by
  rwa [cancel_of_isTerminal h.isTerminal]

theorem Lapsed.fail (h : l.Lapsed) (error : ProtocolError) : (l.fail error).Lapsed :=
  complete (l := l.mapOperation ({ · with error := some error })) h _

theorem Lapsed.failOpen (h : l.Lapsed) (error : ProtocolError) : (l.failOpen error).Lapsed := by
  rwa [failOpen_of_isTerminal h.isTerminal]

theorem Lapsed.hand (h : l.Lapsed) (payload : Payload) : (l.hand payload).Lapsed := by
  unfold Life.hand
  split <;> exact h

theorem Lapsed.answer (h : l.Lapsed) (c : Command) (f : Frame) : (l.answer c f).Lapsed := by
  unfold Life.answer
  split
  · exact h.fail _
  · split
    · exact (h.hand _).complete _
    · exact h.complete _

theorem Lapsed.moveTo (h : l.Lapsed) (next : Phase) : (l.moveTo next).Lapsed := by
  unfold Life.moveTo
  rw [(lapsed_iff.1 h).1]
  exact h

theorem Lapsed.reset (h : l.Lapsed) : l.reset.Lapsed := by
  unfold Life.reset
  rw [(lapsed_iff.1 h).1]
  exact h

theorem Lapsed.handOn (h : l.Lapsed) : l.handOn.Lapsed := by
  rw [handOn_of_isTerminal h.isTerminal]
  exact lapsed_iff.2 ⟨(lapsed_iff.1 h).1, rfl⟩

/-- Cancelling in time makes an operation lapse. -/
theorem lapsed_cancel_of_unbegun (h : l.operation.unbegun = true) (cause : String) :
    (l.cancel cause).Lapsed := by
  have hparts : (l.operation.phase = .queued ∨ l.operation.phase = .cancelled) ∧
      l.operation.writeStarted = false := by
    simpa [Operation.unbegun, Operation.isCancelled] using h
  obtain ⟨hphase, hstarted⟩ := hparts
  rcases hphase with hqueued | hcancelled
  · have hopen : l.isTerminal = false := by
      rw [Life.isTerminal, Operation.isTerminal, hqueued]
      rfl
    have hkept : (l.operation.request.filter (·.inFlight)).any (fun r => decide (0 < r.written)) =
        false := by
      cases hr : l.operation.request with
      | none => rfl
      | some r =>
        have hnone : ¬0 < r.written := by simpa [Operation.writeStarted, hr] using hstarted
        simp [Request.inFlight, Option.filter, hnone]
    rw [cancel, if_neg (by simp [hopen]), report]
    split
    · exact lapsed_iff.2 ⟨rfl, hstarted⟩
    · exact lapsed_iff.2 ⟨rfl, hkept⟩
  · exact Lapsed.cancel (lapsed_iff.2 ⟨hcancelled, hstarted⟩) cause

theorem Lapsed.unbegun (h : l.Lapsed) : l.operation.unbegun = true := by
  obtain ⟨hphase, hstarted⟩ := lapsed_iff.1 h
  simp [Operation.unbegun, Operation.isCancelled, hphase, hstarted]

/-- Listening makes no difference. -/
theorem lapsed_listen (listener : Callback) (l : Life) :
    (l.listen listener).operation.lapsed = l.operation.lapsed := by
  unfold listen
  split <;> rfl

end Life

namespace Engine

/-- The operation has lapsed. -/
def lapsed (e : Engine) (id : Nat) : Bool := (e.get? id).any (·.lapsed)

variable {e e' : Engine} {x : Nat}

theorem lapsed_iff_life : e.lapsed x = true ↔ ∃ l, e.life? x = some l ∧ l.Lapsed := by
  rw [lapsed, get?_eq, Option.any_map, Option.any_eq_true]
  rfl

theorem lapsed_congr (h : e'.get? x = e.get? x) : e'.lapsed x = e.lapsed x := by rw [lapsed, lapsed, h]

theorem Becomes.lapsed {g : Nat → Life → Life} (h : e.Becomes g e')
    (hg : ∀ l : Life, l.Lapsed → (g x l).Lapsed) (hx : e.lapsed x = true) : e'.lapsed x = true := by
  obtain ⟨l, hl, hlapsed⟩ := lapsed_iff_life.1 hx
  refine lapsed_iff_life.2 ⟨g x l, ?_, hg l hlapsed⟩
  rw [h.lives x, hl, Option.map_some]

/-- What makes no difference to requests and phases makes none to what has lapsed. -/
theorem Becomes.lapsed_eq {g : Nat → Life → Life} (h : e.Becomes g e')
    (hg : ∀ l : Life, (g x l).operation.lapsed = l.operation.lapsed) : e'.lapsed x = e.lapsed x := by
  rw [Engine.lapsed, Engine.lapsed, get?_eq, get?_eq, h.lives x]
  cases e.life? x with
  | none => rfl
  | some l => exact hg l

theorem lapsed_among {g : Life → Life} (hg : ∀ l : Life, l.Lapsed → (g l).Lapsed) (ids : List Nat)
    {l : Life} (h : l.Lapsed) : (among ids g x l).Lapsed := by
  unfold among
  split
  · exact hg l h
  · exact h

theorem lapsed_eq_among {g : Life → Life} (hg : ∀ l : Life, (g l).operation.lapsed = l.operation.lapsed)
    (ids : List Nat) (l : Life) : (among ids g x l).operation.lapsed = l.operation.lapsed := by
  unfold among
  split
  · exact hg l
  · rfl

theorem lt_size_of_lapsed (h : e.lapsed x = true) : x < e.size := by
  obtain ⟨op, hop, -⟩ := (Option.any_eq_true _ _).1 h
  exact lt_size_of_get? hop

section Acts

variable (hflat : e.Flat) (hx : e.lapsed x = true)

include hflat hx

theorem lapsed_cancel (id : Nat) (cause : String) : (e.cancel id cause).1.lapsed x = true := by
  refine (becomes_cancel hflat id cause).lapsed (fun l hl => ?_) hx
  split
  · exact hl
  · exact lapsed_among (fun l hl => hl.cancel cause) _ hl

theorem lapsed_fail (id : Nat) (error : ProtocolError) : (e.fail id error).lapsed x = true := by
  refine (becomes_fail hflat id error).lapsed (fun l hl => ?_) hx
  exact lapsed_among (fun l hl => hl.fail error) _ (lapsed_among (fun l hl => hl.failOpen error) _ hl)

theorem lapsed_receive (id : Nat) (f : Frame) : (e.receive id f).1.lapsed x = true := by
  obtain ⟨g, hg, hstep⟩ := becomes_receive hflat id f
  generalize (e.receive id f).2 = outcome at hg
  have hanswer : ∀ (c : Command) (l : Life), l.Lapsed → (l.answer c f).Lapsed := fun c l hl =>
    hl.answer c f
  refine hstep.lapsed (fun l hl => ?_) hx
  cases hg with
  | idle => exact hl
  | single hop hc => exact lapsed_among (hanswer _) _ hl
  | sentinel hop hb htag =>
    exact lapsed_among (fun l hl => hl.complete _) _ (lapsed_among (fun l hl => hl.complete _) _ hl)
  | member hop hb hm hmember hc => exact lapsed_among (hanswer _) _ hl
  | fatal hop hb hm hmember hc error =>
    refine lapsed_among (fun l hl => hl.fail error) _ ?_
    refine lapsed_among (fun l hl => hl.failOpen error) _ ?_
    exact lapsed_among (hanswer _) _ hl

theorem lapsed_reset (id : Nat) : (e.reset id).1.lapsed x = true := by
  refine (becomes_reset hflat id).lapsed (fun l hl => ?_) hx
  split
  · exact lapsed_among (fun l hl => hl.reset) _ hl
  · exact hl

theorem lapsed_finishWriting (id : Nat) : (e.finishWriting id).lapsed x = true := by
  cases hop : e.get? id with
  | none =>
    have hstep : e.finishWriting id = e := by simp [finishWriting, advance, hop, modify_of_none hop]
    rwa [hstep]
  | some op =>
    refine (becomes_finishWriting hflat hop).lapsed (fun l hl => ?_) hx
    exact lapsed_among (fun l hl => hl.moveTo _) _ (lapsed_among (fun l hl => hl.handOn) _ hl)

/-- Writing a request begins no other operation. -/
theorem lapsed_fill {id : Nat} (hne : x ≠ id) (room : Nat) : (e.fill id room).1.lapsed x = true := by
  cases hop : e.get? id with
  | none =>
    have hnone : (e.fill id room).1 = e := by
      simp [fill, prepare, hop, unwritten, count, modify_of_none hop]
    rwa [hnone]
  | some op =>
    refine (becomes_fill hflat hop room).lapsed (fun l hl => ?_) hx
    refine lapsed_among (fun l hl => hl.moveTo _) _ (lapsed_among (fun l hl => hl.moveTo _) _ ?_)
    rwa [among_of_not_mem (show x ∉ [id] by simpa using hne)]

end Acts

/-- Nothing begins an operation that has lapsed but writing its request. -/
theorem lapsed_act (he : e.Sound) {a : Act} (ha : a.GoesOn)
    (hfill : ∀ id room, a = .fill id room → e.lapsed id = false) (hx : e.lapsed x = true) :
    (e.act a).lapsed x = true := by
  have hflat := he.flat
  cases a with
  | fill id room =>
    refine lapsed_fill hflat hx ?_ room
    rintro rfl
    rw [hfill x room rfl] at hx
    cases hx
  | finishWriting id => exact lapsed_finishWriting hflat hx id
  | reset id => exact lapsed_reset hflat hx id
  | receive id f => exact lapsed_receive hflat hx id f
  | fail id error => exact lapsed_fail hflat hx id error
  | cancel id cause => exact lapsed_cancel hflat hx id cause
  | _ => exact ha.elim

end Engine

end ShardedCache

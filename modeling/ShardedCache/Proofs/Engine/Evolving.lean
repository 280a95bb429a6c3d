import ShardedCache.Proofs.Engine.Sound
import ShardedCache.Proofs.Engine.Telling

/-!
# How lives go on

Whatever the engine does, to single operations and to batches of whatever depth, lives go on by the
same rule (`Engine.Evolves`): an operation tells its outcome once, what has come of it stays, and
only those are told anything who belong to an operation that has not reported its outcome. One thing
about an operation that has ended can still change: an error may be put on it. Who is blamed for what
is part of the rule.
-/

namespace ShardedCache

open Wire (Status Frame)

/-! ## One life -/

/-- An operation that has been cancelled has said so. -/
def Operation.Candid (op : Operation) : Prop :=
  op.isCancelled → ∃ cause, op.status = some (.cancelled cause)

theorem Operation.isTerminal_of_isCancelled {op : Operation} (h : op.isCancelled) : op.isTerminal := by
  rw [isTerminal, show op.phase = .cancelled from eq_of_beq h]
  rfl

theorem Operation.candid_of_phase {op : Operation} (h : op.phase ≠ .cancelled) : op.Candid :=
  fun hcancelled => absurd (eq_of_beq hcancelled) h

namespace Life

/-- The same operation later on. It has been blamed with an error, or it has not. -/
structure Evolves (blame : Option ProtocolError) (l l' : Life) : Prop where
  nature : l'.operation.nature = l.operation.nature
  listener : l'.operation.listener = l.operation.listener
  sound : l.Sound → l'.Sound
  candid : l.Sound → l.operation.Candid → l'.operation.Candid
  ending : l.isTerminal → l'.ending = l.ending
  error : l.isTerminal → l'.operation.error = blame.or l.operation.error
  reported : l.operation.status.isSome → l'.operation.status.isSome

theorem Evolves.refl (l : Life) : l.Evolves none l :=
  ⟨rfl, rfl, fun h => h, fun _ h => h, fun _ => rfl, fun _ => rfl, fun h => h⟩

theorem Evolves.follows {blame : Option ProtocolError} {l l' : Life} (h : l.Evolves blame l') :
    l.Follows l' := ⟨h.nature, h.ending⟩

theorem Evolves.trans {blame blame' : Option ProtocolError} {l l' l'' : Life}
    (h : l.Evolves blame l') (h' : l'.Evolves blame' l'') : l.Evolves (blame'.or blame) l'' where
  nature := h'.nature.trans h.nature
  listener := h'.listener.trans h.listener
  sound hl := h'.sound (h.sound hl)
  candid hl hcandid := h'.candid (h.sound hl) (h.candid hl hcandid)
  ending hl := (h'.ending (h.follows.isTerminal hl)).trans (h.ending hl)
  error hl := by rw [h'.error (h.follows.isTerminal hl), h.error hl, Option.or_assoc]
  reported hl := h'.reported (h.reported hl)

/-- Blame matters only to what has ended. -/
theorem Evolves.congr {blame blame' : Option ProtocolError} {l l' : Life} (h : l.Evolves blame l')
    (hblame : l.isTerminal → blame' = blame) : l.Evolves blame' l' :=
  { h with error := fun hl => by rw [hblame hl, h.error hl] }

/-- Whatever ends now has not ended before. -/
theorem evolves_of_open {blame : Option ProtocolError} {l l' : Life} (hopen : l.isTerminal = false)
    (hnature : l'.operation.nature = l.operation.nature)
    (hlistener : l'.operation.listener = l.operation.listener) (hsound : l.Sound → l'.Sound)
    (hcandid : l.Sound → l'.operation.Candid)
    (hreported : l.operation.status.isSome → l'.operation.status.isSome) : l.Evolves blame l' where
  nature := hnature
  listener := hlistener
  sound := hsound
  candid hl _ := hcandid hl
  ending hl := absurd hl (by simp [hopen])
  error hl := absurd hl (by simp [hopen])
  reported := hreported

/-- A change that nobody is told of. -/
theorem evolves_mapOperation {blame : Option ProtocolError} {l : Life} {f : Operation → Operation}
    (hnature : (f l.operation).nature = l.operation.nature)
    (hlistener : (f l.operation).listener = l.operation.listener)
    (hphase : (f l.operation).isTerminal = l.operation.isTerminal)
    (hstatus : (f l.operation).status = l.operation.status)
    (hended : l.isTerminal → (f l.operation).phase = l.operation.phase ∧
      (f l.operation).cancelCause = l.operation.cancelCause ∧
      (f l.operation).error = blame.or l.operation.error) :
    l.Evolves blame (l.mapOperation f) where
  nature := hnature
  listener := hlistener
  sound hl := by
    refine (hl.mapOperation hnature hphase hstatus ?_ fun h => ?_).1
    · rw [Operation.overheard, Operation.overheard, hlistener, hstatus]
    · exact ⟨(hended h).1, (hended h).2.1⟩
  candid hl hcandid hcancelled := by
    have hend : l.isTerminal := hphase.symm.trans (Operation.isTerminal_of_isCancelled hcancelled)
    obtain ⟨cause, hcause⟩ := hcandid (by rwa [Operation.isCancelled, ← (hended hend).1])
    exact ⟨cause, hstatus.trans hcause⟩
  ending hl := by
    obtain ⟨hp, hc, -⟩ := hended hl
    simp only [Life.ending, mapOperation, hp, hc, hstatus]
  error hl := (hended hl).2.2
  reported h := by rwa [mapOperation, hstatus]

theorem evolves_moveTo {next : Phase} (hnext : next.isTerminal = false) (l : Life) :
    l.Evolves none (l.moveTo next) := by
  unfold moveTo
  split
  · next hmay =>
    have hopen : l.isTerminal = false := Phase.isTerminal_of_mayBecome hmay
    exact evolves_mapOperation rfl rfl (hnext.trans hopen.symm) rfl fun h => by simp [hopen] at h
  · exact Evolves.refl l

theorem evolves_count (n : Nat) (l : Life) : l.Evolves none (l.count n) :=
  evolves_mapOperation rfl rfl rfl rfl fun _ => ⟨rfl, rfl, rfl⟩

theorem evolves_reset (l : Life) : l.Evolves none l.reset := by
  unfold reset
  split
  · next hphase =>
    have hopen : l.isTerminal = false := by
      rw [isTerminal, Operation.isTerminal]
      rcases hphase with h | h <;> rw [h] <;> rfl
    exact evolves_mapOperation rfl rfl hopen.symm rfl fun h => by simp [hopen] at h
  · exact Evolves.refl l

@[simp] theorem listener_report (status : Status) (l : Life) :
    (l.report status).operation.listener = l.operation.listener := by
  unfold report
  split <;> rfl

theorem isSome_status_report (status : Status) (l : Life) :
    (l.report status).operation.status.isSome := by
  unfold report
  split
  · next h => exact h
  · rfl

theorem phase_complete {status : Status} {l : Life} (h : l.isTerminal = false) :
    (l.complete status).operation.phase = .complete := by
  rw [complete, if_neg (by simp [h]), report]
  split <;> rfl

theorem evolves_complete (status : Status) (l : Life) : l.Evolves none (l.complete status) := by
  by_cases hl : l.isTerminal
  · rw [complete_of_isTerminal hl]
    exact Evolves.refl l
  · refine evolves_of_open (by simpa using hl) (nature_complete status l) ?_
      (fun h => (lawful_complete status l h).1) (fun _ => Operation.candid_of_phase ?_) fun _ => ?_
    · rw [complete, if_neg hl, listener_report]
      rfl
    · rw [phase_complete (by simpa using hl)]
      exact fun h => by cases h
    · rw [complete, if_neg hl]
      exact isSome_status_report status _

theorem listener_hand (payload : Payload) (l : Life) :
    (l.hand payload).operation.listener = l.operation.listener := by
  unfold hand
  split <;> rfl

theorem isTerminal_hand (payload : Payload) (l : Life) : (l.hand payload).isTerminal = l.isTerminal := by
  unfold hand
  split <;> rfl

/-- A value is handed over together with the outcome. -/
theorem Sound.evolves_answer {l : Life} (hl : l.Sound) {c : Command} {f : Frame} {reply : Reply}
    (hreply : c.interpret l.operation.tag f = .ok reply) : l.Evolves none (l.answer c f) := by
  have hsound := lawful_answer c f l hl
  by_cases hend : l.isTerminal
  · have hsome : l.operation.status.isSome := by rw [← hl.ended, hend]
    have hsame : l.answer c f = l := by
      simp only [answer, hreply]
      cases reply.payload with
      | none => exact complete_of_isTerminal hend _
      | some payload =>
        have hheard : l.hand payload = l := if_pos hsome
        dsimp only
        rw [hheard]
        exact complete_of_isTerminal hend _
    rw [hsame]
    exact Evolves.refl l
  · have hopen : l.isTerminal = false := by simpa using hend
    refine evolves_of_open hopen (nature_answer c f l) ?_ (fun _ => hsound.1)
      (fun _ => Operation.candid_of_phase ?_) ?_
    · simp only [answer, hreply]
      cases reply.payload with
      | none => exact (evolves_complete _ l).listener
      | some payload => exact (evolves_complete _ _).listener.trans (listener_hand payload l)
    · have hphase : (l.answer c f).operation.phase = .complete := by
        simp only [answer, hreply]
        cases reply.payload with
        | none => exact phase_complete hopen
        | some payload => exact phase_complete ((isTerminal_hand payload l).trans hopen)
      rw [hphase]
      exact fun h => by cases h
    · intro _
      rw [← hsound.1.ended]
      exact isTerminal_answer c f l

end Life

namespace Engine

/-! ## Who may be told -/

/-- An operation that has not reported its outcome may still tell its callback and its listener. -/
def MayTell (e : Engine) (t : Teller) (receiver : Callback) : Prop :=
  ∃ id op, e.get? id = some op ∧ op.status = none ∧
    (t = .operation id ∧ receiver = op.callback ∨ t = .listener id ∧ op.listener = some receiver)

theorem get?_modify (e : Engine) (id : Nat) (f : Operation → Operation) (j : Nat) :
    (e.modify id f).get? j = if id = j then (e.get? j).map f else e.get? j := by
  simp only [get?, modify, List.getElem?_modify]
  split <;> simp

theorem mayTell_of_modify {e : Engine} {id : Nat} {f : Operation → Operation}
    (hstatus : ∀ op, (f op).status = op.status) (hcallback : ∀ op, (f op).callback = op.callback)
    (hlistener : ∀ op, (f op).listener = op.listener) {t : Teller} {receiver : Callback}
    (h : (e.modify id f).MayTell t receiver) : e.MayTell t receiver := by
  obtain ⟨j, op, hop, hnone, hwho⟩ := h
  rw [get?_modify] at hop
  split at hop
  · obtain ⟨op', hop', rfl⟩ := Option.map_eq_some_iff.1 hop
    rw [hstatus] at hnone
    rw [hcallback, hlistener] at hwho
    exact ⟨j, op', hop', hnone, hwho⟩
  · exact ⟨j, op, hop, hnone, hwho⟩

theorem says_deliver (e : Engine) (id : Nat) (status : Status) :
    e.reports.Says e.MayTell (e.deliver id status).reports := by
  unfold deliver
  split
  · exact .nothing
  · next op hop =>
    split
    · exact .nothing
    · next hnone =>
      have hnone : op.status = none := by simpa using hnone
      have htold : e.reports.Says e.MayTell (e.reports.conclude (.operation id) op.callback status) :=
        Reports.Says.nothing.conclude ⟨id, op, hop, hnone, .inl ⟨rfl, rfl⟩⟩ status
      dsimp only
      split
      · next listener hlistener =>
        exact htold.conclude ⟨id, op, hop, hnone, .inr ⟨rfl, hlistener⟩⟩ status
      · exact htold

theorem says_deliverPayload (e : Engine) (id : Nat) (payload : Payload) :
    e.reports.Says e.MayTell (e.deliverPayload id payload).reports := by
  unfold deliverPayload
  split
  · next op hop =>
    split
    · exact .nothing
    · next hnone =>
      exact Reports.Says.nothing.tell ⟨id, op, hop, by simpa using hnone, .inl ⟨rfl, rfl⟩⟩ _
  · exact .nothing

/-! ## All lives -/

/-- From one engine to the other, all lives go on, and nobody has been told anything but by those
who still might. -/
structure Evolves (blame : Nat → Option ProtocolError) (e e' : Engine) : Prop where
  lives : ∀ {id l}, e.life? id = some l →
    ∃ l', e'.life? id = some l' ∧ Life.Evolves (blame id) l l'
  none : ∀ {id}, e.get? id = none → e'.get? id = none
  reports : e.reports.Says e.MayTell e'.reports

/-- Nobody is blamed. -/
abbrev unblamed : Nat → Option ProtocolError := fun _ => .none

/-- One operation is blamed with an error. -/
def blaming (id : Nat) (error : ProtocolError) (j : Nat) : Option ProtocolError :=
  if j = id then some error else none

section Evolves

variable {blame blame' : Nat → Option ProtocolError} {e e' e'' : Engine}

theorem Evolves.refl (e : Engine) : e.Evolves unblamed e :=
  ⟨fun {_ l} hl => ⟨l, hl, Life.Evolves.refl l⟩, fun h => h, .nothing⟩

/-- Who may speak later might have spoken before. -/
theorem Evolves.mayTell (h : e.Evolves blame e') {t : Teller} {receiver : Callback}
    (ht : e'.MayTell t receiver) : e.MayTell t receiver := by
  obtain ⟨id, op', hop', hnone, hwho⟩ := ht
  cases hop : e.get? id with
  | none =>
    rw [h.none hop] at hop'
    cases hop'
  | some op =>
    obtain ⟨l', hl', hlife⟩ := h.lives (life?_of_get? hop)
    have heq := operation_eq hop' hl'
    refine ⟨id, op, hop, ?_, ?_⟩
    · cases hs : op.status with
      | none => rfl
      | some s =>
        have := hlife.reported (by simp [hs])
        simp [heq, hnone] at this
    · have hcallback := congrArg Nature.callback hlife.nature
      have hlistener := hlife.listener
      rw [heq] at hcallback hlistener
      change op'.callback = op.callback at hcallback
      change op'.listener = op.listener at hlistener
      rwa [hcallback, hlistener] at hwho

theorem Evolves.trans (h : e.Evolves blame e') (h' : e'.Evolves blame' e'') :
    e.Evolves (fun id => (blame' id).or (blame id)) e'' where
  lives hl := by
    obtain ⟨l', hl', hlife⟩ := h.lives hl
    obtain ⟨l'', hl'', hlife'⟩ := h'.lives hl'
    exact ⟨l'', hl'', hlife.trans hlife'⟩
  none hid := h'.none (h.none hid)
  reports := h.reports.trans (h'.reports.mono fun _ _ => h.mayTell)

/-- Blame matters only to what has ended. -/
theorem Evolves.congr (h : e.Evolves blame e')
    (hblame : ∀ {id l}, e.life? id = some l → l.isTerminal → blame' id = blame id) :
    e.Evolves blame' e' where
  lives hl := by
    obtain ⟨l', hl', hlife⟩ := h.lives hl
    exact ⟨l', hl', hlife.congr (hblame hl)⟩
  none := h.none
  reports := h.reports

/-- Two changes, neither of which blames anybody. -/
theorem Evolves.andThen (h : e.Evolves unblamed e') (h' : e'.Evolves blame e'') :
    e.Evolves blame e'' :=
  (h.trans h').congr fun _ _ => (Option.or_none).symm

theorem Becomes.evolves {g : Nat → Life → Life} (h : e.Becomes g e')
    (hg : ∀ {id l}, e.life? id = some l → l.Evolves (blame id) (g id l))
    (hreports : e.reports.Says e.MayTell e'.reports) : e.Evolves blame e' where
  lives {id l} hl := ⟨g id l, by rw [h.lives id, hl]; rfl, hg hl⟩
  none := h.get?_eq_none.2
  reports := hreports

/-- One life goes on. -/
theorem Becomes.evolves_one {id : Nat} {g : Life → Life} (h : e.Becomes (among [id] g) e')
    (hg : ∀ {l}, e.life? id = some l → l.Evolves none (g l))
    (hreports : e.reports.Says e.MayTell e'.reports) : e.Evolves unblamed e' := by
  refine h.evolves (fun {j l} hl => ?_) hreports
  by_cases hj : j = id
  · rw [hj] at hl ⊢
    rw [among_of_mem (List.mem_singleton_self id)]
    exact hg hl
  · rw [among_of_not_mem (show j ∉ [id] by simpa using hj)]
    exact Life.Evolves.refl l

/-- Neither metrics nor logs matter. -/
theorem Evolves.record (h : e.Evolves blame e') (metrics : Metrics) (rejections : List Rejection) :
    e.Evolves blame { e' with metrics, rejections } :=
  ⟨fun hl => h.lives hl, fun hid => h.none hid, h.reports⟩

theorem Evolves.life_sound (h : e.Evolves blame e') (he : ∀ {id l}, e.life? id = some l → l.Sound)
    {id : Nat} {l' : Life} (hl' : e'.life? id = some l') : l'.Sound := by
  cases hl : e.life? id with
  | none =>
    rw [get?_eq_none.1 (h.none (get?_eq_none.2 hl))] at hl'
    cases hl'
  | some l =>
    obtain ⟨_, heq, hlife⟩ := h.lives hl
    rw [hl'] at heq
    cases heq
    exact hlife.sound (he hl)

theorem evolves_each {f : Engine → Nat → Engine}
    (hf : ∀ (e : Engine) m, e.Evolves unblamed (f e m)) :
    ∀ (ids : List Nat) (e : Engine), e.Evolves unblamed (e.each ids f)
  | [], e => Evolves.refl e
  | m :: ids, e => (hf e m).andThen (evolves_each hf ids (f e m))

end Evolves

/-! ## Writing -/

theorem evolves_modify (e : Engine) (id : Nat) {f : Operation → Operation}
    (hf : ∀ l, Life.Evolves none l (l.mapOperation f)) : e.Evolves unblamed (e.modify id f) :=
  (becomes_modify e id f).evolves_one (fun _ => hf _) .nothing

theorem reports_advance (e : Engine) (id : Nat) (next : Phase) :
    (e.advance id next).1.reports = e.reports := by
  unfold advance
  split
  · split <;> rfl
  · rfl

theorem evolves_advance (e : Engine) (id : Nat) {next : Phase} (hnext : next.isTerminal = false) :
    e.Evolves unblamed (e.advance id next).1 := by
  refine (becomes_advance e id next).evolves_one (fun _ => Life.evolves_moveTo hnext _) ?_
  rw [reports_advance]
  exact .nothing

theorem evolves_advanceMembers (e : Engine) (id : Nat) {next : Phase}
    (hnext : next.isTerminal = false) : e.Evolves unblamed (e.advanceMembers id next) :=
  evolves_each (fun e m => evolves_advance e m hnext) _ e

theorem evolves_prepare (e : Engine) (id : Nat) : e.Evolves unblamed (e.prepare id) := by
  unfold prepare
  split
  · next op hop =>
    split
    · exact Evolves.refl e
    · exact evolves_modify e id fun l =>
        Life.evolves_mapOperation rfl rfl rfl rfl fun _ => ⟨rfl, rfl, rfl⟩
  · exact Evolves.refl e

theorem evolves_fill (e : Engine) (id room : Nat) : e.Evolves unblamed (e.fill id room).1 := by
  have hcounted := (evolves_prepare e id).andThen (evolves_modify (e.prepare id) id
    (Life.evolves_count (((e.prepare id).unwritten id).take room).length))
  unfold fill
  dsimp only
  split
  · exact hcounted
  · have hadvanced := @evolves_advance ((e.prepare id).count id
      (((e.prepare id).unwritten id).take room).length) id .writing rfl
    split
    · next e' heq =>
      rw [heq] at hadvanced
      exact (hcounted.andThen hadvanced).andThen (evolves_advanceMembers e' id rfl)
    · next e' heq =>
      rw [heq] at hadvanced
      exact hcounted.andThen hadvanced

theorem evolves_finishWriting (e : Engine) (id : Nat) : e.Evolves unblamed (e.finishWriting id) := by
  have hadvanced := @evolves_advance e id .reading rfl
  unfold finishWriting
  split
  · next e' heq =>
    rw [heq] at hadvanced
    exact hadvanced.andThen (evolves_advanceMembers e' id rfl)
  · next e' heq =>
    rw [heq] at hadvanced
    split
    · exact hadvanced.andThen (evolves_modify e' id fun l =>
        Life.evolves_mapOperation rfl rfl rfl rfl fun _ => ⟨rfl, rfl, rfl⟩)
    · exact hadvanced

theorem evolves_resetTo : ∀ (depth : Nat) (e : Engine) (id : Nat),
    e.Evolves unblamed (resetTo depth e id)
  | 0, e, _ => Evolves.refl e
  | depth + 1, e, id => by
    unfold resetTo
    split
    · next op hop =>
      split
      · next hphase =>
        have hstarted : e.Evolves unblamed (e.modify id fun op =>
            { op with phase := .queued, request := op.request.map ({ · with written := 0 }) }) := by
          refine (becomes_modify e id _).evolves_one (fun {l} hl => ?_) .nothing
          have hreset := Life.evolves_reset l
          rwa [Life.reset, if_pos (by rwa [operation_eq hop hl])] at hreset
        exact hstarted.andThen (evolves_each (evolves_resetTo depth) op.members _)
      · exact Evolves.refl e
    · exact Evolves.refl e

/-! ## Ending -/

theorem evolves_complete (e : Engine) (id : Nat) (status : Status) :
    e.Evolves unblamed (e.complete id status) := by
  refine (becomes_complete e id status).evolves_one (fun _ => Life.evolves_complete status _) ?_
  have hreports := reports_advance e id .complete
  unfold complete
  split
  · next op e' hop heq =>
    have hmodified : e' = e.modify id ({ · with phase := .complete }) := by
      unfold advance at heq
      rw [hop] at heq
      dsimp only at heq
      split at heq <;> cases heq
      rfl
    rw [hmodified]
    exact (says_deliver { e.modify id ({ · with phase := .complete }) with
      metrics := e.metrics.recordCompletion op.kind status } id status).mono fun _ _ h =>
        mayTell_of_modify (f := ({ · with phase := .complete })) (fun _ => rfl) (fun _ => rfl)
          (fun _ => rfl) h
  · exact .nothing

/-- An operation that fails gets the error, even if it has ended; a member does not. -/
theorem evolves_failTo : ∀ (depth : Nat) (e : Engine) (id : Nat) (error : ProtocolError),
    e.Evolves (if depth = 0 then unblamed else blaming id error) (failTo depth e id error)
  | 0, e, _, _ => Evolves.refl e
  | depth + 1, e, id, error => by
    have hmembers := evolves_each
      (f := fun e m => if e.isTerminal m then e else failTo depth e m error) (fun e m => by
        split
        · exact Evolves.refl e
        · next hopen =>
          refine (evolves_failTo depth e m error).congr fun {j l} hl hend => ?_
          have hne : j ≠ m := fun hj => by
            rw [← hj, isTerminal_eq, hl] at hopen
            exact hopen hend
          split <;> simp [blaming, hne]) (e.members id) e
    have hblamed : (e.each (e.members id) fun e m =>
        if e.isTerminal m then e else failTo depth e m error).Evolves (blaming id error)
        ((e.each (e.members id) fun e m =>
          if e.isTerminal m then e else failTo depth e m error).modify id
            ({ · with error := some error })) := by
      refine (becomes_modify _ id _).evolves (fun {j l} _ => ?_) .nothing
      by_cases hj : j = id
      · rw [hj, among_of_mem (List.mem_singleton_self id)]
        exact Life.evolves_mapOperation rfl rfl rfl rfl fun _ => ⟨rfl, rfl, by simp [blaming]⟩
      · rw [among_of_not_mem (show j ∉ [id] by simpa using hj), blaming, if_neg hj]
        exact Life.Evolves.refl l
    rw [if_neg (Nat.succ_ne_zero depth), failTo]
    exact ((hmembers.andThen hblamed).trans (evolves_complete _ id _)).congr fun _ _ => rfl

theorem evolves_fail (e : Engine) (id : Nat) (error : ProtocolError) :
    e.Evolves (blaming id error) (e.fail id error) := evolves_failTo (id + 1) e id error

/-- Between the first step of a cancellation and its report the operation looks as if it had ended:
the others do not touch it. -/
theorem evolves_cancelTo : ∀ (depth : Nat) (e : Engine) (id : Nat) (cause : String),
    e.Evolves unblamed (cancelTo depth e id cause)
  | 0, e, _, _ => Evolves.refl e
  | depth + 1, e, id, cause => by
    by_cases hend : e.isTerminal id
    · rw [cancelTo_of_isTerminal hend]
      exact Evolves.refl e
    have hopen : e.isTerminal id = false := by simpa using hend
    rw [cancelTo_of_open hopen]
    generalize hafter : ((e.mark id cause).each (e.members id) fun e m => cancelTo depth e m cause) =
      after
    have hmarked := becomes_mark e id cause
    have hmembers : (e.mark id cause).Evolves unblamed after := by
      rw [← hafter]
      exact evolves_each (fun e m => evolves_cancelTo depth e m cause) _ _
    have hreported := becomes_deliver
      { after with metrics := after.metrics.recordCancellation } id (.cancelled cause)
    have hmay : ∀ t receiver, (e.mark id cause).MayTell t receiver → e.MayTell t receiver :=
      fun t receiver h => mayTell_of_modify (f := ({ · with phase := .cancelled })) (fun _ => rfl)
        (fun _ => rfl) (fun _ => rfl) (mayTell_of_modify (f := ({ · with cancelCause := some cause }))
          (fun _ => rfl) (fun _ => rfl) (fun _ => rfl) h)
    constructor
    · intro j l hl
      have hl₁ := hmarked.lives j
      rw [hl, Option.map_some] at hl₁
      obtain ⟨l₂, hl₂, hlife⟩ := hmembers.lives hl₁
      have hl₃ := hreported.lives j
      rw [show Engine.life? { after with metrics := after.metrics.recordCancellation } j = some l₂
        from hl₂, Option.map_some] at hl₃
      refine ⟨_, hl₃, ?_⟩
      by_cases hj : j = id
      · rw [hj, among_of_mem (List.mem_singleton_self id)] at hlife ⊢
        have hlopen : l.isTerminal = false := by
          rw [hj] at hl
          rwa [isTerminal_eq, hl] at hopen
        have hending := hlife.ending rfl
        have hphase : l₂.operation.phase = .cancelled := congrArg Ending.phase hending
        have hstatus : l₂.operation.status = l.operation.status := congrArg Ending.status hending
        have hheard : l₂.heard = l.heard := congrArg Ending.heard hending
        have hoverheard : l₂.overheard = l.overheard := congrArg Ending.overheard hending
        refine Life.evolves_of_open hlopen ?_ ?_ (fun hsound => ?_) (fun hsound => ?_) fun _ =>
          Life.isSome_status_report _ l₂
        · rw [Life.nature_report]
          exact hlife.nature
        · rw [Life.listener_report]
          exact hlife.listener
        · refine Life.sound_report (by simp [Life.isTerminal, Operation.isTerminal, hphase,
            Phase.isTerminal]) ?_ ?_ ?_
          · rw [hstatus, hsound.status_eq_none hlopen]
          · rw [hheard, hsound.heard_eq_nil hlopen]
            exact Told.outcome _
          · rw [hoverheard, hsound.overheard_eq_nil hlopen]
        · have hnone : l₂.operation.status.isSome = false := by
            rw [hstatus, hsound.status_eq_none hlopen]
            rfl
          rw [Life.report, if_neg (by simp [hnone])]
          exact fun _ => ⟨cause, rfl⟩
      · have hsingle : j ∉ [id] := by simpa using hj
        rw [among_of_not_mem hsingle] at hlife ⊢
        exact hlife
    · intro j hj
      exact hreported.get?_eq_none.2 (hmembers.none (hmarked.get?_eq_none.2 hj))
    · have hspoken := hmembers.reports
      have hlast := says_deliver { after with metrics := after.metrics.recordCancellation } id
        (.cancelled cause)
      exact (hspoken.mono hmay).trans (hlast.mono fun t receiver h => hmay _ _ (hmembers.mayTell h))

/-! ## Responses -/

theorem evolves_refuse (e : Engine) (id : Nat) (status : UInt16) (error : ProtocolError) :
    e.Evolves (blaming id error) (e.refuse id status error).1 := by
  unfold refuse
  split
  · have hlogged : e.Evolves unblamed (e.logRejection id error.message) := by
      unfold logRejection
      split
      · exact (Evolves.refl e).record e.metrics _
      · exact Evolves.refl e
    exact hlogged.andThen (evolves_fail _ id error)
  · exact evolves_fail e id error

/-- The error that a frame puts on an operation. One in a response is put on the operation that the
response is for; if that asks for the connection to be dropped, one is put on the batch too. -/
def blameTo : (depth : Nat) → Engine → Nat → Frame → Nat → Option ProtocolError
  | 0, _, _, _ => unblamed
  | depth + 1, e, id, f =>
    match e.get? id with
    | none => unblamed
    | some op =>
      match op.work with
      | .single c =>
        match c.interpret op.tag f with
        | .error error => blaming id error
        | .ok _ => unblamed
      | .batch b =>
        if f.tag = op.tag then unblamed
        else
          match e.memberByTag? b f.tag with
          | none => unblamed
          | some m =>
            if (receiveTo depth e m f).2 = .fatal then fun j =>
              (blaming id ⟨.client, e.text m ++ " rejected by server"⟩ j).or (blameTo depth e m f j)
            else blameTo depth e m f

theorem text_of_evolves {blame : Nat → Option ProtocolError} {e e' : Engine}
    (h : e.Evolves blame e') {id : Nat} {op : Operation} (hop : e.get? id = some op) :
    e'.text id = e.text id := by
  obtain ⟨l', hl', hlife⟩ := h.lives (life?_of_get? hop)
  have htag := congrArg Nature.tag hlife.nature
  have hwork := congrArg Nature.work hlife.nature
  change l'.operation.tag = op.tag at htag
  change l'.operation.work = op.work at hwork
  rw [text, text, hop, get?_of_life? hl', Option.map_some, Option.map_some, Operation.text,
    Operation.text, htag, hwork]

theorem evolves_receiveTo : ∀ (depth : Nat) {e : Engine},
    (∀ {id l}, e.life? id = some l → l.Sound) → ∀ (id : Nat) (f : Frame),
      e.Evolves (blameTo depth e id f) (receiveTo depth e id f).1
  | 0, e, _, _, _ => Evolves.refl e
  | depth + 1, e, he, id, f => by
    unfold receiveTo blameTo
    cases hop : e.get? id with
    | none => exact Evolves.refl e
    | some op =>
      dsimp only
      cases hwork : op.work with
      | single c =>
        dsimp only
        cases hreply : c.interpret op.tag f with
        | error error => exact evolves_refuse e id f.status error
        | ok reply =>
          dsimp only
          have hanswer : ∀ {l}, e.life? id = some l → l.Evolves none (l.answer c f) := fun hl =>
            (he hl).evolves_answer (by rwa [operation_eq hop hl])
          cases hpayload : reply.payload with
          | none => exact evolves_complete e id reply.status
          | some payload =>
            -- between the value and the outcome the life is not sound
            have hboth := ((becomes_deliverPayload e id payload).trans
              (becomes_complete _ id reply.status)).congr fun j l _ => among_among _ _ _ j l
            refine Becomes.evolves_one (hboth) (fun {l} hl => ?_) ?_
            · have := hanswer hl
              simpa only [Life.answer, operation_eq hop hl, hreply, hpayload] using this
            · refine (says_deliverPayload e id payload).trans ?_
              refine (evolves_complete (e.deliverPayload id payload) id reply.status).reports.mono ?_
              intro t receiver h
              have hget : ∀ j, (e.deliverPayload id payload).get? j = e.get? j := fun j => by
                unfold deliverPayload
                split
                · split <;> rfl
                · rfl
              simpa only [MayTell, hget] using h
      | batch b =>
        dsimp only
        split
        · next htag =>
          refine Evolves.andThen ?_ (evolves_complete _ id .success)
          refine evolves_each (fun e m => ?_) b.members e
          split
          · exact Evolves.refl e
          · exact evolves_complete e m _
        · cases hm : e.memberByTag? b f.tag with
          | none => exact Evolves.refl e
          | some m =>
            dsimp only
            have hmember := evolves_receiveTo depth he m f
            obtain ⟨member, hget⟩ : ∃ member, e.get? m = some member := by
              have hfound := List.find?_some hm
              cases hget : e.get? m with
              | none => simp [hget] at hfound
              | some member => exact ⟨member, rfl⟩
            cases hr : receiveTo depth e m f with
            | mk after outcome =>
              rw [hr] at hmember
              cases outcome with
              | fatal =>
                simp only [↓reduceIte]
                rw [text_of_evolves hmember hget]
                exact hmember.trans (evolves_refuse after id f.status _)
              | pending => simpa using hmember
              | done => simpa using hmember

end Engine

end ShardedCache

import ShardedCache.Proofs.Node.Seen

/-!
# What a cancellation promises

`Engine.cancel` says whether the server never saw the operation. It goes by the operation's own
phase and request; but the bytes of a member are those of its batch, and a batch that starts over has
them already. So the promise is kept just if the operation is in no batch that waits to be written
(`Traffic.promise`): then it is let go of without a trace (`Traffic.Withdrawn`). A member of a batch
that waits is sent with it, as the batch itself has not been cancelled (`Traffic.exists_drained`).
-/

namespace ShardedCache

namespace Queue

/-! ## Out of reach -/

/-- An operation that has been cancelled with nothing written, and has been left out everywhere. -/
structure Shuns (q : Queue) (e : Engine) (x : Nat) : Prop where
  known : x < e.size
  cancelled : e.isCancelled x = true
  request : e.request? x = none
  reading : x ∉ q.readQueue
  members : ∀ b ∈ q.line, x ∉ e.members b

section Shuns

variable {accepted order : List Nat} {taken : Bytes} {q q' : Queue} {e e' : Engine} {x : Nat}

theorem Shuns.not_isDue (h : Shuns q e x) : ¬ IsDue e x := by
  rintro (hstarted | hopen)
  · rw [Engine.isStarted_of_none h.request] at hstarted
    cases hstarted
  · rw [h.cancelled] at hopen
    cases hopen

/-- A new batch is made of operations that have not been cancelled. -/
theorem shuns_regrouped {family : BatchFamily} {n : Nat} (h : Shuns q e x)
    (hcustody : Custody accepted q e) (hregrouped : Regrouped q e family n e') :
    Shuns { q with writeQueue := e.size :: q.writeQueue.drop n } e' x := by
  have hfollows := (hregrouped.goes hcustody.sound).follows
  have hcancelled := Engine.isCancelled_of_follows hfollows h.cancelled
  have hmade := hregrouped.made fun b hb => hcustody.lt_size
    (List.mem_append_right _ (List.mem_append_left _ hb))
  refine ⟨Nat.lt_of_lt_of_le h.known hfollows.size_le, hcancelled,
    (hregrouped.keeps h.known).request.trans h.request, h.reading, fun b hb hx => ?_⟩
  have hold : b ∈ q.line → False := fun hb => by
    rw [hfollows.members_eq (hcustody.lt_size hb)] at hx
    exact h.members b hb hx
  simp only [line, List.mem_append, List.mem_cons] at hb hold
  rcases hb with hb | (rfl | hb) | hb
  · exact hold (.inl hb)
  · rw [hmade.members] at hx
    rw [hmade.uncancelled x hx] at hcancelled
    cases hcancelled
  · exact hold (.inr (.inl (List.mem_of_mem_drop hb)))
  · exact hold (.inr (.inr hb))

theorem shuns_packing (hstep : Packing q e q' e') (h : Shuns q e x) (hcustody : Custody accepted q e) :
    Shuns q' e' x := by
  have hsound := hcustody.sound
  have hfollows := (goes_packing hstep hsound).1.follows
  have hknown := Nat.lt_of_lt_of_le h.known hfollows.size_le
  have hcancelled := Engine.isCancelled_of_follows hfollows h.cancelled
  have hmembers : ∀ {b}, b ∈ q.line → x ∉ e'.members b := fun hb => by
    rw [hfollows.members_eq (hcustody.lt_size hb)]
    exact h.members _ hb
  cases hstep with
  | @drop id rest hq hstarted hdropped =>
    refine ⟨hknown, hcancelled, h.request, h.reading, fun b hb => hmembers ?_⟩
    simp only [line, hq, List.mem_append, List.mem_cons] at hb ⊢
    grind
  | @regroup id rest hq hdue =>
    rcases regroup_cases q e id with heq | ⟨-, heq⟩
    · rw [heq]
      exact h
    · rw [heq]
      rcases optimize_cases q e with heq | ⟨_, _, _, hregrouped, heq⟩ <;> rw [heq]
      · exact h
      · exact shuns_regrouped h hcustody hregrouped
  | @fill id rest hq hdue hroom hleft =>
    have hne : x ≠ id := fun heq => h.not_isDue (heq ▸ hdue)
    exact ⟨hknown, hcancelled, (Engine.request?_fill_of_ne hsound.flat hne _).trans h.request, h.reading,
      fun b hb => hmembers hb⟩
  | @handOn id rest hq hdue hroom hleft =>
    let room := q.settings.writeBufferSize - q.writeBuffer.length
    have hne : x ≠ id := fun heq => h.not_isDue (heq ▸ hdue)
    have hflat := (Engine.goes_fill hsound id room).sound.flat
    refine ⟨hknown, hcancelled, ?_, fun hx => ?_, fun b hb => hmembers ?_⟩
    · rw [Engine.request?_finishWriting_of_ne hflat hne, Engine.request?_fill_of_ne hsound.flat hne]
      exact h.request
    · rcases List.mem_append.1 hx with hx | hx
      · exact h.reading hx
      · exact hne (List.mem_singleton.1 hx)
    · simp only [line, hq, List.mem_append, List.mem_cons, List.not_mem_nil, or_false] at hb ⊢
      grind

end Shuns

end Queue

namespace Traffic

/-! ## Withdrawn for good -/

/-- An operation that has been cancelled before the server saw anything of it. -/
structure Withdrawn (t : Traffic) (x : Nat) : Prop where
  shuns : t.ledger.Shuns t.engine x
  earlier : ∀ c ∈ t.earlier, c.Omits t.engine x

theorem unrequested_cancelEach {x : Nat} {cause : String} : ∀ {ids : List Nat} {e : Engine}, e.Sound →
    e.request? x = none → (Queue.cancelEach e ids cause).request? x = none
  | [], _, _, hnone => hnone
  | id :: ids, e, he, hnone => by
    have hgoes := (Engine.goes_cancel he id cause).1
    exact @unrequested_cancelEach x cause ids _ hgoes.sound
      ((Engine.spares_cancel he id cause x).resumes.unrequested hnone)

/-- Nothing but packing begins a request. -/
theorem unrequested_step {t : Traffic} (h : t.Sound) {a : Action} (ha : a ≠ .pack) {x : Nat}
    (hx : x < t.engine.size) (hhanded : ∀ b ∈ t.handed, x ∉ b :: t.engine.members b)
    (hnone : t.engine.request? x = none) : (t.step a).engine.request? x = none := by
  have hsound := h.custody.sound
  have hcancel := fun id cause => (Engine.spares_cancel hsound id cause x).resumes.unrequested hnone
  cases a with
  | pack => exact absurd rfl ha
  | create command callback => exact (Engine.request?_add hx _ _ callback).trans hnone
  | cancel id cause => exact hcancel id cause
  | copyInput => exact hnone
  | take n => exact hnone
  | submit id =>
    simp only [step]
    rcases t.lane.step_submit id with ⟨-, hstep⟩ | ⟨cause, hstep⟩ | hstep <;> rw [hstep]
    · exact hnone
    · exact hcancel id cause
    · exact hnone
  | pushFront id =>
    simp only [step]
    split
    · rcases t.lane.step_pushFront id with ⟨-, hstep⟩ | hstep <;> rw [hstep] <;> exact hnone
    · exact hnone
  | receive bytes =>
    have hlife := (h.processed bytes).others x fun id hid => hhanded id (h.reading id hid)
    exact (Engine.keeps_of_life?_eq hlife).request.trans hnone
  | resend cause =>
    have hafter : Queue.AtRest t.lane.accepted t.taken t.order t.ledger
        (Queue.cancelEach t.engine t.lane.queue.readQueue cause) := h.atRest.cancelEach
    obtain ⟨kept, e', hstep, heq⟩ := Queue.resending t.lane.queue t.engine cause
    have hengine : (t.step (.resend cause)).engine = e' := congrArg Prod.snd heq
    obtain ⟨⟨-, -, hresumes⟩, -⟩ := hafter.resending (q := t.ledger) hstep
    rw [hengine]
    exact (hresumes x).unrequested (unrequested_cancelEach hsound hnone)

theorem shuns_step {t : Traffic} (h : t.Sound) {x : Nat} (hx : t.ledger.Shuns t.engine x) (a : Action) :
    (t.step a).ledger.Shuns (t.step a).engine x := by
  have hcustody := h.ledger_custody
  by_cases ha : a = .pack
  · subst ha
    obtain ⟨hledger, hengine, -⟩ := t.ledger_pack
    rw [hledger, hengine]
    exact h.atRest.pack_induction
      (fun hstep haligned hx => Queue.shuns_packing hstep hx haligned.custody) hx
  · have hfollows := (goes_step h a).1.follows
    refine ⟨Nat.lt_of_lt_of_le hx.known hfollows.size_le,
      Engine.isCancelled_of_follows hfollows hx.cancelled,
      unrequested_step h ha hx.known (fun b hb hmem => ?_) hx.request,
      fun hmem => hx.reading (handed_step ha hmem), fun b hb hmem => ?_⟩
    · rcases List.mem_cons.1 hmem with rfl | hmem
      · exact hx.reading hb
      · exact hx.members b (mem_ledger_line.2 (.inr (.inr hb))) hmem
    · rcases mem_line_step h ha hb with hb | ⟨hsingle, -⟩
      · rw [hfollows.members_eq (hcustody.lt_size hb)] at hmem
        exact hx.members b hb hmem
      · rw [hfollows.members_eq (Engine.lt_size_of_isSingle hsingle),
          Engine.members_of_isSingle hsingle] at hmem
        cases hmem

theorem Withdrawn.omits {t : Traffic} (h : t.Sound) {x : Nat} (hx : t.Withdrawn x) :
    ∀ c ∈ t.transcripts, c.Omits t.engine x := by
  intro c hc
  rcases List.mem_cons.1 hc with rfl | hc
  · exact h.omits hx.shuns.reading hx.shuns.members
  · exact hx.earlier c hc

theorem withdrawn_step {t : Traffic} (h : t.Sound) (ho : t.Once) {x : Nat} (hx : t.Withdrawn x)
    (a : Action) : (t.step a).Withdrawn x := by
  refine ⟨shuns_step h hx.shuns a, fun c hc => ?_⟩
  have hc := (earlier_sublist t a).subset hc
  exact (hx.omits h c hc).follows (goes_step h a).1.follows h.custody.sound (known_transcripts h ho c hc)

theorem withdrawn_run {t : Traffic} (h : t.Sound) (ho : t.Once) {x : Nat} (hx : t.Withdrawn x)
    (more : List Action) : ∀ c ∈ (t.run more).transcripts, c.Omits (t.run more).engine x := by
  have hrun := run_induction (P := fun t => (t.Sound ∧ t.Once) ∧ t.Withdrawn x)
    (fun t a ⟨⟨h, ho⟩, hx⟩ => ⟨⟨sound_step t a h, once_step h ho a⟩, withdrawn_step h ho hx a⟩) more
    ⟨⟨h, ho⟩, hx⟩
  exact hrun.2.omits hrun.1.1

end Traffic

namespace Engine

/-- Nothing of the request has been written, and the operation has not ended. -/
theorem isUnwritten_of_isUnsent {e : Engine} {id : Nat} (h : e.isUnsent id = true) :
    e.isUnwritten id = true ∧ Queue.isStarted e id = false := by
  obtain ⟨op, hop, hunsent⟩ := (Option.any_eq_true _ _).1 h
  simp only [Bool.and_eq_true, beq_iff_eq, Bool.not_eq_true'] at hunsent
  refine ⟨(isUnwritten_of_get? hop).2 (.inl hunsent.1), ?_⟩
  rw [Queue.isStarted, hop, Option.any_some]
  exact hunsent.2

/-- What a cancellation makes of an operation that nothing has been written of. -/
theorem cancel_of_isUnsent {e : Engine} (he : e.Sound) {id : Nat} (h : e.isUnsent id = true)
    (cause : String) :
    (e.cancel id cause).1.isCancelled id = true ∧ (e.cancel id cause).1.request? id = none := by
  obtain ⟨hwaits, hstarted⟩ := isUnwritten_of_isUnsent h
  cases spares_cancel he id cause id with
  | kept hkept =>
    have hend := (goes_cancel he id cause).2
    rw [isTerminal_of_isUnwritten (hkept.unwritten.trans hwaits)] at hend
    cases hend
  | cancelled hcancelled hrequest =>
    refine ⟨hcancelled, ?_⟩
    rw [hrequest]
    cases hr : e.request? id with
    | none => rfl
    | some r =>
      rw [isStarted_eq, hr, Option.any_some, decide_eq_false_iff_not] at hstarted
      rw [Option.filter_some, if_neg (by simp [Request.inFlight, hstarted])]

end Engine

namespace Traffic

/-- If nothing has been written of an operation, and it is in no batch that waits, cancelling it
withdraws it. -/
theorem withdrawn_cancel {t : Traffic} (h : t.Sound) (ho : t.Once) (hu : t.Unseen) {id : Nat}
    {cause : String} (hunsent : t.engine.isUnsent id = true)
    (hbatch : ∀ b ∈ t.lane.queue.writeQueue, id ∉ t.engine.members b) :
    (t.step (.cancel id cause)).Withdrawn id := by
  have hsound := h.custody.sound
  have hfollows := (goes_step h (.cancel id cause)).1.follows
  obtain ⟨hwaits, -⟩ := Engine.isUnwritten_of_isUnsent hunsent
  obtain ⟨hcancelled, hrequest⟩ := Engine.cancel_of_isUnsent hsound hunsent cause
  obtain ⟨hhanded, hmembers⟩ := hu.apart h hwaits hbatch
  obtain ⟨op, hop, -⟩ := (Option.any_eq_true _ _).1 hunsent
  refine ⟨⟨Nat.lt_of_lt_of_le (Engine.lt_size_of_get? hop) hfollows.size_le, hcancelled, hrequest, hhanded,
    fun b hb => ?_⟩, fun c hc => ?_⟩
  · rw [hfollows.members_eq (h.ledger_custody.lt_size hb)]
    exact hmembers b hb
  · exact (hu.earlier c hc id hwaits hbatch).follows hfollows hsound (ho.known c hc)

end Traffic

/-! ## What waits is written -/

namespace Queue

variable {accepted : List Nat} {q q' : Queue} {e e' : Engine}

/-- What is handed on leaves the write queue. -/
theorem load_packing (hstep : Packing q e q' e') :
    q'.readQueue.length + q'.writeQueue.length ≤ q.readQueue.length + q.writeQueue.length := by
  cases hstep with
  | drop hq _ _ => simp [hq]
  | @regroup id rest hq hdue =>
    have hread : (q.regroup e id).1.readQueue = q.readQueue := by rw [regroup_eq q e id]
    rw [hread]
    exact Nat.add_le_add_left (length_regroup_le q e id) _
  | fill hq _ _ _ => exact Nat.le_refl _
  | handOn hq _ _ _ =>
    simp only [hq, List.length_append, List.length_cons, List.length_nil]
    omega

/-- An operation that has been handed on, or that waits and has not been cancelled. -/
def Booked (q : Queue) (e : Engine) (b : Nat) : Prop :=
  b ∈ q.readQueue ∨ b ∈ q.writeQueue ∧ e.isCancelled b = false

/-- A batch stays booked, as it does not join another one. -/
theorem booked_packing (hstep : Packing q e q' e') (hcustody : Custody accepted q e) {b : Nat}
    (hsingle : ¬ e.IsSingle b) (h : Booked q e b) : Booked q' e' b := by
  have hflat := hcustody.sound.flat
  cases hstep with
  | @drop id rest hq hstarted hcancelled =>
    rcases h with h | ⟨h, hopen⟩
    · exact .inl h
    · rw [hq] at h
      rcases List.mem_cons.1 h with rfl | h
      · rw [hcancelled] at hopen
        cases hopen
      · exact .inr ⟨h, hopen⟩
  | @regroup id rest hq hdue =>
    rcases regroup_cases q e id with heq | ⟨-, heq⟩
    · rw [heq]
      exact h
    · rw [heq]
      rcases optimize_cases q e with heq | ⟨family, n, e', hregrouped, heq⟩
      · rw [heq]
        exact h
      · rw [heq]
        rcases h with h | ⟨h, hopen⟩
        · exact .inl h
        · have hlt := hcustody.lt_size (List.mem_append_right _ (List.mem_append_left _ h))
          rw [← List.take_append_drop n q.writeQueue] at h
          rcases List.mem_append.1 h with h | h
          · exact absurd (hregrouped.isSingle h) hsingle
          · exact .inr ⟨List.mem_cons_of_mem _ h, (hregrouped.keeps hlt).cancelled.trans hopen⟩
  | @fill id rest hq hdue hroom hleft =>
    rcases h with h | ⟨h, hopen⟩
    · exact .inl h
    · exact .inr ⟨h, (Engine.level_fill hflat id _ b).2.trans hopen⟩
  | @handOn id rest hq hdue hroom hleft =>
    let room := q.settings.writeBufferSize - q.writeBuffer.length
    have hfilled := Engine.goes_fill hcustody.sound id room
    rcases h with h | ⟨h, hopen⟩
    · exact .inl (List.mem_append_left _ h)
    · have hlt := hcustody.lt_size (List.mem_append_right _ (List.mem_append_left _ h))
      rw [hq] at h
      rcases List.mem_cons.1 h with rfl | h
      · exact .inl (List.mem_append_right _ (List.mem_singleton_self b))
      · have hnot : b ∉ id :: (e.fill id room).1.members id := by
          rw [List.mem_cons, not_or]
          refine ⟨fun heq => hcustody.not_mem_behind hq (List.mem_append_left _ (heq ▸ h)), fun hm => ?_⟩
          have hmember := (hfilled.sound.flat id b hm).2
          rw [Engine.IsSingle, hfilled.follows.nature?_eq hlt] at hmember
          exact hsingle hmember
        have hlife := Engine.life?_finishWriting hfilled.sound.flat hnot
        exact .inr ⟨h, (Engine.keeps_of_life?_eq hlife).cancelled.trans
          ((Engine.level_fill hflat id room b).2.trans hopen)⟩

end Queue

namespace Traffic

/-- What every action of a run keeps, the run keeps. -/
theorem run_keeps {P : Traffic → Prop} : ∀ {actions : List Action},
    (∀ a ∈ actions, ∀ t, P t → P (t.step a)) → ∀ {t : Traffic}, P t → P (t.run actions)
  | [], _, _, h => h
  | a :: _, hstep, t, h =>
    run_keeps (fun b hb => hstep b (List.mem_cons_of_mem a hb)) (hstep a List.mem_cons_self t h)

theorem mem_rounds {settings : QueueSettings} {n : Nat} {a : Action}
    (h : a ∈ (List.replicate n (round settings)).flatten) : a = .pack ∨ ∃ k, a = .take k := by
  obtain ⟨actions, hmem, ha⟩ := List.mem_flatten.1 h
  rw [List.eq_of_mem_replicate hmem, round] at ha
  simp only [List.mem_cons, List.not_mem_nil, or_false] at ha
  exact ha.symm.imp_right fun heq => ⟨_, heq⟩

/-- How many operations have been handed on or wait to be. -/
def load (t : Traffic) : Nat := t.handed.length + t.lane.queue.writeQueue.length

theorem load_step (t : Traffic) {a : Action} (ha : a = .pack ∨ ∃ k, a = .take k) :
    (t.step a).load ≤ t.load := by
  rcases ha with rfl | ⟨k, rfl⟩
  · have hload : (t.step .pack).load =
        (t.ledger.pack t.engine).1.readQueue.length + (t.ledger.pack t.engine).1.writeQueue.length := by
      rw [← t.ledger_pack.1]
      rfl
    rw [hload]
    exact Queue.pack_induction (P := fun q _ => q.readQueue.length + q.writeQueue.length ≤ t.load)
      (fun hstep h => Nat.le_trans (Queue.load_packing hstep) h) t.ledger t.engine (Nat.le_refl _)
  · exact Nat.le_refl _

theorem load_rounds {t : Traffic} (settings : QueueSettings) (n : Nat) :
    (t.run (List.replicate n (round settings)).flatten).load ≤ t.load :=
  run_keeps (P := fun t' => t'.load ≤ t.load)
    (fun _ ha t' h => Nat.le_trans (load_step t' (mem_rounds ha)) h) (Nat.le_refl _)

/-- If the server goes on taking what is written, nothing waits in the end. -/
theorem exists_drained {t : Traffic} (h : t.Sound)
    (hsize : 0 < t.lane.queue.settings.writeBufferSize) :
    ∃ n, (t.run (List.replicate n (round t.lane.queue.settings)).flatten).lane.queue.writeQueue = [] := by
  induction hk : t.lane.queue.writeQueue.length using Nat.strongRecOn generalizing t with
  | ind k ih =>
    let settings := t.lane.queue.settings
    let rounds (n : Nat) : List Action := (List.replicate n (round settings)).flatten
    have hadd : ∀ (t : Traffic) (m n : Nat), t.run (rounds (m + n)) = (t.run (rounds m)).run (rounds n) :=
      fun t m n => by
        change t.run (List.replicate (m + n) _).flatten = _
        rw [List.replicate_add, List.flatten_append, run_append]
    have hone : rounds 1 = round settings := List.flatten_singleton
    let t₁ := t.run (rounds 1)
    have h₁ : t₁.Sound := h.run _
    have hround := run_round h
    rw [← hone] at hround
    rcases hround with hnil | hmore
    · exact ⟨1, hnil⟩
    · have hsettings : t₁.lane.queue.settings = settings := (goes_run _ h).2
      obtain ⟨n, hbegun⟩ := exists_handed h₁ (hsettings ▸ hsize)
      rw [hsettings] at hbegun
      let t₂ := t₁.run (rounds n)
      have h₂ : t₂.Sound := h₁.run _
      have hgrows : t.Grows t₁ := run_grows (fun _ => not_isResend_of_mem_rounds) h
      have hgrows₂ : t₁.Grows t₂ := run_grows (fun _ => not_isResend_of_mem_rounds) h₁
      -- If nothing had been handed on, nothing more would have been written either.
      have hlonger : t.handed.length < t₂.handed.length := by
        refine Nat.lt_of_le_of_ne (hgrows.handed.trans hgrows₂.handed).length_le fun hlen => ?_
        have hsame := (hgrows.handed.trans hgrows₂.handed).eq_of_length hlen
        have hstill : t₁.begun <+: t.handed := hsame ▸ hbegun
        have hslots : t.handed.flatMap t₁.engine.slots = t.handed.flatMap t.engine.slots :=
          (goes_run _ h).1.follows.flatMap_slots_eq h.custody.sound fun _ => h.lt_size_of_handed
        have hsent : t₁.sent <+: encodeSlots (t.handed.flatMap t.engine.slots) := by
          obtain ⟨more, hmore⟩ := hstill
          rw [← hslots, ← hmore, List.flatMap_append, encodeSlots_append]
          exact h₁.sent_prefix.trans (List.prefix_append _ _)
        have hle := hsent.length_le
        have hwhole : (encodeSlots (t.handed.flatMap t.engine.slots)).length ≤ t.sent.length :=
          h.atRest.sent_prefix.1.length_le
        change _ ≤ t₁.sent.length at hmore
        omega
      have hload : t₂.load ≤ t.load := by
        have hboth := load_rounds (t := t) settings (1 + n)
        rwa [show t.run (List.replicate (1 + n) (round settings)).flatten = t₂ from hadd t 1 n] at hboth
      simp only [load] at hload
      have hsettings₂ : t₂.lane.queue.settings = settings := (goes_run _ h₁).2.trans hsettings
      obtain ⟨m, hm⟩ := ih t₂.lane.queue.writeQueue.length (by omega) h₂ (hsettings₂ ▸ hsize) rfl
      rw [hsettings₂] at hm
      refine ⟨1 + n + m, ?_⟩
      change (t.run (rounds (1 + n + m))).lane.queue.writeQueue = []
      rw [hadd, hadd]
      exact hm

theorem booked_step {t : Traffic} (h : t.Sound) {a : Action} (ha : a = .pack ∨ ∃ k, a = .take k) {b : Nat}
    (hlt : b < t.engine.size) (hsingle : ¬ t.engine.IsSingle b) (hb : t.ledger.Booked t.engine b) :
    (t.step a).ledger.Booked (t.step a).engine b := by
  rcases ha with rfl | ⟨k, rfl⟩
  · obtain ⟨hledger, hengine, -⟩ := t.ledger_pack
    rw [hledger, hengine]
    refine (h.atRest.pack_induction (P := fun q e => t.engine.Follows e ∧ Queue.Booked q e b)
      (fun hstep haligned ⟨hfollows, hbooked⟩ => ⟨hfollows.trans
        (Queue.goes_packing hstep haligned.custody.sound).1.follows, ?_⟩)
      ⟨Engine.Follows.refl _, hb⟩).2
    refine Queue.booked_packing hstep haligned.custody (fun hs => hsingle ?_) hbooked
    rwa [Engine.IsSingle, hfollows.nature?_eq hlt] at hs
  · exact hb

/-- A batch that waits and has not been cancelled is written in full in the end. -/
theorem exists_whole {t : Traffic} (h : t.Sound) (hsize : 0 < t.lane.queue.settings.writeBufferSize)
    {b : Nat} (hsingle : ¬ t.engine.IsSingle b) (hb : b ∈ t.lane.queue.writeQueue)
    (hopen : t.engine.isCancelled b = false) :
    ∃ more, t.engine.slots b ⊆ (t.run more).transcript.whole (t.run more).engine := by
  have hlt : b < t.engine.size := h.atRest.lt_size_of_mem_writeQueue hb
  obtain ⟨n, hdrained⟩ := exists_drained h hsize
  let rounds := (List.replicate n (round t.lane.queue.settings)).flatten
  obtain ⟨h', hfollows, hbooked⟩ : (t.run rounds).Sound ∧ t.engine.Follows (t.run rounds).engine ∧
      (t.run rounds).ledger.Booked (t.run rounds).engine b := by
    refine @run_keeps (fun t' => t'.Sound ∧ t.engine.Follows t'.engine ∧
      t'.ledger.Booked t'.engine b) rounds (fun a ha t' hkept => ?_) t
      ⟨h, Engine.Follows.refl _, .inr ⟨hb, hopen⟩⟩
    obtain ⟨h', hfollows, hbooked⟩ := hkept
    refine ⟨sound_step t' a h', hfollows.trans (goes_step h' a).1.follows, ?_⟩
    refine booked_step h' (mem_rounds ha) (Nat.lt_of_lt_of_le hlt hfollows.size_le) (fun hs => ?_) hbooked
    rw [Engine.IsSingle, hfollows.nature?_eq hlt] at hs
    exact hsingle hs
  refine ⟨rounds, fun r hr => h'.handed_whole.subset (List.mem_flatMap.2 ⟨b, ?_, ?_⟩)⟩
  · refine hbooked.resolve_right fun hwaits => ?_
    replace hwaits : b ∈ (t.run rounds).lane.queue.writeQueue := hwaits.1
    rw [hdrained] at hwaits
    cases hwaits
  · rwa [hfollows.slots_eq h.custody.sound hlt]

/-- A member of a batch that waits is sent with it, though the member has been cancelled. -/
theorem sent_with_batch {t : Traffic} (h : t.Sound) (hsize : 0 < t.lane.queue.settings.writeBufferSize)
    {id b : Nat} (hb : b ∈ t.lane.queue.writeQueue) (hid : id ∈ t.engine.members b)
    (hwaits : t.engine.isUnwritten id = true) (cause : String) :
    ∃ more n, let t' := (t.step (.cancel id cause)).run more
      t'.engine.nature? id = some n ∧
        ∃ r ∈ t'.transcript.whole t'.engine, r.owner = some id ∧ r.frame.tag = n.tag := by
  let t₁ := t.step (.cancel id cause)
  have hsound := h.custody.sound
  have h₁ : t₁.Sound := sound_step t _ h
  have hfollows := (goes_step h (.cancel id cause)).1.follows
  have hlt := h.atRest.lt_size_of_mem_writeQueue hb
  obtain ⟨hless, hsingle⟩ := hsound.flat b id hid
  have hmember : id ∈ t₁.engine.members b := by rwa [hfollows.members_eq hlt]
  have hbatch : ¬ t₁.engine.IsSingle b := fun hs => by
    rw [Engine.members_of_isSingle hs] at hmember
    cases hmember
  have hopen : t₁.engine.isCancelled b = false := by
    have hopen : t.engine.isTerminal b = false := Bool.eq_false_iff.2 fun hend => by
      have hpast : t.engine.isTerminal id = true := hsound.settled hend id hid
      rw [Engine.isTerminal_of_isUnwritten hwaits] at hpast
      cases hpast
    have hsame := (Engine.same_cancel_of_ne hsingle cause (Nat.ne_of_gt hless)).1.terminal
    refine Bool.eq_false_iff.2 fun hc => ?_
    have hend := Queue.isTerminal_of_isCancelled hc
    rw [show t₁.engine.isTerminal b = t.engine.isTerminal b from hsame, hopen] at hend
    cases hend
  obtain ⟨more, hwhole⟩ := exists_whole h₁ hsize hbatch hb hopen
  obtain ⟨n, hn, htag⟩ := Engine.tag_memberSlot h₁.custody.sound.flat hmember
  refine ⟨more, n, ?_, t₁.engine.memberSlot id, hwhole ?_, rfl, htag.symm⟩
  · exact ((goes_run more h₁).1.follows.nature?_eq (Engine.lt_size_of_nature? hn)).trans hn
  · cases hnb : t₁.engine.nature? b with
    | none =>
      rw [Engine.members_eq_nature?, hnb] at hmember
      cases hmember
    | some nb =>
      cases hwork : nb.work with
      | single c => exact absurd ⟨nb, c, hnb, hwork⟩ hbatch
      | batch batch =>
        rw [Engine.slots_batch hnb hwork]
        rw [Engine.members_of_nature? hnb, hwork] at hmember
        exact List.mem_append_left _ (List.mem_map.2 ⟨id, hmember, rfl⟩)

/-- **What a cancellation promises.** When it reports that the server never saw the operation, then no
request of the operation has been written in full on any connection, and none ever will be, unless
the operation is in a batch that waits to be written. If it is in one, its request is still sent,
when the batch is. -/
theorem promise (s : Lane) (h : s.Initial) (hempty : s.queue.writeBuffer = []) (actions : List Action)
    (id : Nat) (cause : String) :
    let t := (start s).run actions
    let t' := t.step (.cancel id cause)
    (t.engine.cancel id cause).2 = true →
    (∀ more, ∀ c ∈ (t'.run more).transcripts, c.Legible (t'.run more).engine) ∧
    ((∀ b ∈ t.lane.queue.writeQueue, id ∉ t.engine.members b) → ∀ more,
      let t'' := t'.run more
      ∀ c ∈ t''.transcripts, ∀ r ∈ c.whole t''.engine, r.owner ≠ some id ∧
        (t''.engine.TagsDistinct → ∀ n, t''.engine.nature? id = some n → r.frame.tag ≠ n.tag)) ∧
    ∀ b ∈ t.lane.queue.writeQueue, id ∈ t.engine.members b →
      s.queue.settings.optimize = true ∧ ∃ more n,
        let t'' := t'.run more
        t''.engine.nature? id = some n ∧
          ∃ r ∈ t''.transcript.whole t''.engine, r.owner = some id ∧ r.frame.tag = n.tag := by
  intro t t' hunsent
  have hstart : (start s).Sound := sound_of_initial h hempty
  obtain ⟨⟨ht, ho⟩, hu⟩ : (t.Sound ∧ t.Once) ∧ t.Unseen :=
    run_induction (P := fun t => (t.Sound ∧ t.Once) ∧ t.Unseen)
      (fun t a ⟨⟨h, ho⟩, hu⟩ => ⟨⟨sound_step t a h, once_step h ho a⟩, unseen_step h ho hu a⟩) actions
      ⟨⟨hstart, once_of_initial h⟩, unseen_of_initial s⟩
  have ht' : t'.Sound := sound_step t _ ht
  have ho' : t'.Once := once_step ht ho _
  have hsettings : t.lane.queue.settings = s.queue.settings := (goes_run actions hstart).2
  refine ⟨fun more => ?_, fun hbatch more => ?_, fun b hb hid => ?_⟩
  · obtain ⟨hlater, ho⟩ := run_induction (P := fun t => t.Sound ∧ t.Once)
      (fun t a ⟨h, ho⟩ => ⟨sound_step t a h, once_step h ho a⟩) more ⟨ht', ho'⟩
    exact fun c hc => Transcript.legible hlater.custody.sound.flat (sent_transcripts hlater ho c hc)
  · intro t'' c hc r hr
    have hforeign := withdrawn_run ht' ho' (withdrawn_cancel ht ho hu hunsent hbatch) more c hc r hr
    exact ⟨hforeign.1, fun htags _ hn => hforeign.tag_ne htags hn⟩
  · have hbig : s.queue.settings.optimize = true ∧ 0 < s.queue.settings.writeBufferSize := by
      by_contra hnot
      have hplain : s.queue.settings.optimize = false ∨ s.queue.settings.writeBufferSize = 0 := by
        rw [not_and_or, Bool.not_eq_true, Nat.not_lt, Nat.le_zero] at hnot
        exact hnot
      have hsingle := isSingle_run hstart hplain (isSingle_of_initial h) actions b
        (mem_ledger_line.2 (.inr (.inl hb)))
      rw [Engine.members_of_isSingle hsingle] at hid
      cases hid
    have hsize : 0 < t.lane.queue.settings.writeBufferSize := hsettings ▸ hbig.2
    exact ⟨hbig.1, sent_with_batch ht hsize hb hid (Engine.isUnwritten_of_isUnsent hunsent).1 cause⟩

/-- A get is rewound when half of it is written, and cancelled then. -/
theorem promise_of_rewound_get :
    let s : Lane :=
      { queue := { settings := ⟨64, 20, 10, true, 10, 1000⟩, node := 0, inputCapacity := 10 }, engine := {} }
    let t := (start s).run [.create (.get "a" false) .silent, .submit 0, .copyInput, .pack, .take 20,
      .resend "down"]
    let t' := t.step (.cancel 0 "me")
    s.Initial ∧ s.queue.writeBuffer = [] ∧ (t.engine.cancel 0 "me").2 = true ∧
      t.transcripts.map (·.sent.length) = [0, 20] ∧
      ∀ more, ∀ c ∈ (t'.run more).transcripts, ∀ r ∈ c.whole (t'.run more).engine, r.owner ≠ some 0 := by
  intro s t t'
  have h : s.Initial := ⟨rfl, rfl, rfl, rfl, rfl, rfl⟩
  have hrun : ((t.engine.cancel 0 "me").2, t.transcripts.map (·.sent.length), t.lane.queue.writeQueue,
      t.engine.members 0) = (true, [0, 20], [0], []) := by decide +kernel
  simp only [Prod.mk.injEq] at hrun
  obtain ⟨hunsent, hlengths, hqueue, hmembers⟩ := hrun
  obtain ⟨-, hkept, -⟩ := promise s h rfl [.create (.get "a" false) .silent, .submit 0, .copyInput, .pack,
    .take 20, .resend "down"] 0 "me" hunsent
  refine ⟨h, rfl, hunsent, hlengths, fun more c hc r hr => (hkept (fun b hb => ?_) more c hc r hr).1⟩
  change b ∈ t.lane.queue.writeQueue at hb
  rw [hqueue, List.mem_singleton] at hb
  rw [hb]
  exact hmembers ▸ List.not_mem_nil

/-- A batch of two gets is rewound when the first of them is written in full. Cancelling that one
reports that the server never saw it, and the next connection carries it once more. -/
theorem promise_broken_by_rewound_batch :
    let s : Lane :=
      { queue := { settings := ⟨64, 40, 10, true, 10, 1000⟩, node := 0, inputCapacity := 10 }, engine := {} }
    let t := (start s).run [.create (.get "a" false) .silent, .create (.get "b" false) .silent, .submit 0,
      .submit 1, .copyInput, .pack, .take 40, .resend "down"]
    let t' := (t.step (.cancel 0 "me")).run [.pack]
    s.Initial ∧ s.queue.writeBuffer = [] ∧ (t.engine.cancel 0 "me").2 = true ∧
      (∃ c ∈ t.transcripts, ∃ r ∈ c.whole t.engine, r.owner = some 0) ∧
      ∃ r ∈ t'.transcript.whole t'.engine, r.owner = some 0 := by
  intro s t t'
  have hrun : ((t.engine.cancel 0 "me").2, t.transcripts.map fun c => (c.whole t.engine).map (·.owner),
      (t'.transcript.whole t'.engine).map (·.owner)) = (true, [[], [some 0]], [some 0]) := by
    decide +kernel
  simp only [Prod.mk.injEq] at hrun
  obtain ⟨hunsent, hbefore, hafter⟩ := hrun
  refine ⟨⟨rfl, rfl, rfl, rfl, rfl, rfl⟩, rfl, hunsent, ?_, ?_⟩
  · obtain ⟨c, hc, hwhole⟩ := List.mem_map.1
      (hbefore ▸ List.mem_cons_of_mem _ (List.mem_singleton_self [some 0]))
    obtain ⟨r, hr, howner⟩ := List.mem_map.1 (hwhole ▸ List.mem_singleton_self (some 0))
    exact ⟨c, hc, r, hr, howner⟩
  · obtain ⟨r, hr, howner⟩ := List.mem_map.1 (hafter ▸ List.mem_singleton_self (some 0))
    exact ⟨r, hr, howner⟩

end Traffic

end ShardedCache

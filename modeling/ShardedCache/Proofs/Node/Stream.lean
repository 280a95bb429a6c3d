import ShardedCache.Proofs.Node.Traffic
import ShardedCache.Proofs.Wire.Reread

/-!
# The stream of a connection

Of the bytes of a connection, those of the requests that have been handed on come first, and what
follows is the beginning of one more request (`Aligned.sent_prefix`). Nothing that has been begun is
taken back before the connection is lost (`step_grows`), so a request that has been begun is
written to its end.
-/

namespace ShardedCache

open Wire (Frame)

namespace Queue

section Aligned

variable {accepted order : List Nat} {taken : Bytes} {q : Queue} {e : Engine}

theorem begun_of_nil (hq : q.writeQueue = []) : q.begun e = q.readQueue := by
  rw [begun, hq, List.filter_nil, List.append_nil]

/-- Only the head of the write queue can have been begun. -/
theorem Aligned.begun_of_cons (h : Aligned accepted taken order q e) {id : Nat} {rest : List Nat}
    (hq : q.writeQueue = id :: rest) :
    q.begun e = q.readQueue ++ if isStarted e id then [id] else [] := by
  have hrest : rest.filter (isStarted e) = [] := List.filter_eq_nil_iff.2 fun x hx => by
    simp [h.behind x (by rwa [hq])]
  rw [begun, hq, List.filter_cons, hrest]

theorem Aligned.copied_prefix (h : Aligned accepted taken order q e) {id : Nat}
    (hid : id ∈ q.writeQueue) : e.copied id <+: encodeSlots (e.slots id) := by
  cases hr : e.request? id with
  | none => exact Engine.copied_of_none hr ▸ List.nil_prefix
  | some r =>
    rw [Engine.copied_of_some hr, (h.encoded id hid r hr).1]
    exact List.take_prefix _ _

theorem Aligned.copied_eq_nil (h : Aligned accepted taken order q e) {id : Nat}
    (hid : id ∈ q.writeQueue) : e.copied id = [] ↔ isStarted e id = false := by
  refine ⟨fun hnil => ?_, Engine.copied_of_not_isStarted⟩
  cases hr : e.request? id with
  | none => exact Engine.isStarted_of_none hr
  | some r =>
    have hle := (h.encoded id hid r hr).2
    rw [Engine.copied_of_some hr] at hnil
    have hlen := congrArg List.length hnil
    rw [List.length_take, List.length_nil] at hlen
    rw [Engine.isStarted_eq, hr, Option.any_some, decide_eq_false_iff_not]
    omega

/-- The requests that have been handed on are written, and beyond them only what has been begun. -/
theorem Aligned.sent_prefix (h : Aligned accepted taken order q e) :
    encodeSlots (q.readQueue.flatMap e.slots) <+: taken ++ q.writeBuffer ∧
      taken ++ q.writeBuffer <+: encodeSlots ((q.begun e).flatMap e.slots) ∧
      (q.begun e).flatMap e.slots <+: q.requests e := by
  cases hq : q.writeQueue with
  | nil =>
    rw [begun_of_nil hq, h.bytes, hq, List.flatMap_nil, List.append_nil, requests,
      List.flatMap_append]
    exact ⟨List.prefix_rfl, List.prefix_rfl, List.prefix_append _ _⟩
  | cons id rest =>
    have hid : id ∈ q.writeQueue := hq ▸ List.mem_cons_self
    rw [h.begun_of_cons hq, h.copied_of_cons hq, requests, hq]
    refine ⟨List.prefix_append _ _, ?_⟩
    cases hs : isStarted e id with
    | false =>
      rw [(h.copied_eq_nil hid).2 hs]
      simp
    | true =>
      rw [if_pos rfl, List.flatMap_append, encodeSlots_append, List.flatMap_singleton,
        List.prefix_append_right_inj]
      refine ⟨h.copied_prefix hid, ?_⟩
      simp

/-- What has been begun stays begun while nothing more is written. -/
theorem Aligned.begun_prefix {accepted' order' : List Nat} {taken' : Bytes} {q' : Queue} {e' : Engine}
    (h : Aligned accepted taken order q e) (h' : Aligned accepted' taken' order' q' e')
    (hfollows : e.Follows e') (hread : q'.readQueue = q.readQueue)
    (hwrite : q.writeQueue <+: q'.writeQueue)
    (hsent : taken' ++ q'.writeBuffer = taken ++ q.writeBuffer) : q.begun e <+: q'.begun e' := by
  cases hq : q.writeQueue with
  | nil =>
    rw [begun_of_nil hq, ← hread]
    exact List.prefix_append _ _
  | cons id rest =>
    obtain ⟨more, hmore⟩ := hwrite
    rw [hq, List.cons_append] at hmore
    have hcopied : e'.copied id = e.copied id := by
      have hslots : q.readQueue.flatMap e'.slots = q.readQueue.flatMap e.slots :=
        hfollows.flatMap_slots_eq h.custody.sound fun x hx => h.lt_size (List.mem_append_left _ hx)
      rw [h.copied_of_cons hq, h'.copied_of_cons hmore.symm, hread, hslots] at hsent
      exact List.append_cancel_left hsent
    have hstarted : isStarted e' id = isStarted e id := by
      have hnil := (h'.copied_eq_nil (hmore ▸ List.mem_cons_self)).symm.trans
        (hcopied ▸ h.copied_eq_nil (hq ▸ List.mem_cons_self))
      rw [Bool.eq_iff_iff, ← not_iff_not, Bool.not_eq_true, Bool.not_eq_true]
      exact hnil
    have hsame : q'.begun e' = q.begun e := by
      rw [h.begun_of_cons hq, h'.begun_of_cons hmore.symm, hread, hstarted]
    exact hsame ▸ List.prefix_rfl

/-! ## Packing -/

theorem isStarted_fill (hflat : e.Flat) {id : Nat} (room : Nat) (h : isStarted e id = true) :
    isStarted (e.fill id room).1 id = true := by
  obtain ⟨op, hop, hwritten⟩ := (Option.any_eq_true _ _).1 h
  obtain ⟨r, hr, hpos⟩ := (Option.any_eq_true _ _).1 hwritten
  have hrequest : (e.requestOf op) = r := by rw [Engine.requestOf, hr]; rfl
  rw [Engine.isStarted_eq, Engine.request?_fill hflat hop room, hrequest, Option.any_some]
  simp only [decide_eq_true_eq] at hpos ⊢
  omega

/-- Packing only adds to what has been begun and written. -/
theorem AtRest.pack_grows (h : AtRest accepted taken order q e) :
    q.begun e <+: (q.pack e).1.begun (q.pack e).2 ∧ q.writeBuffer <+: (q.pack e).1.writeBuffer := by
  let Grown (q' : Queue) (e' : Engine) : Prop :=
    q.begun e <+: q'.begun e' ∧ q.writeBuffer <+: q'.writeBuffer
  refine (pack_rounds (P := fun q' e' => AtRest accepted taken order q' e' ∧ Grown q' e')
    (R := fun q' e' => AtHand accepted taken order q' e' ∧ Grown q' e')
    (fun {q' e' id rest} hq hstarted hcancelled ⟨h, hbegun, hbuffer⟩ => ?_)
    (fun {q' e' id rest} hq hdue ⟨h, hbegun, hbuffer⟩ => ?_)
    (fun {q' e' id rest} hq _ _ hleft ⟨h, hbegun, hbuffer⟩ => ?_)
    (fun {q' e' id rest} hq _ _ hleft ⟨h, hbegun, hbuffer⟩ => ?_)
    q e ⟨h, List.prefix_rfl, List.prefix_rfl⟩).2
  · rw [h.begun_of_cons hq, hstarted, if_neg Bool.false_ne_true, List.append_nil] at hbegun
    exact ⟨h.drop hq hstarted hcancelled, hbegun.trans (List.prefix_append _ _), hbuffer⟩
  · refine ⟨h.regroup hq hdue, ?_, by rw [regroup_eq]; exact hbuffer⟩
    rcases regroup_cases q' e' id with heq | ⟨⟨-, hstarted⟩, -⟩
    · rw [heq]
      exact hbegun
    · rw [h.begun_of_cons hq, hstarted, if_neg Bool.false_ne_true, List.append_nil] at hbegun
      refine hbegun.trans ?_
      rw [regroup_eq]
      exact List.prefix_append _ _
  · obtain ⟨hfilled, hpaused, r, hr⟩ := h.fill hq
    refine ⟨hfilled.stay hq hpaused hr hleft, hbegun.trans ?_, hbuffer.trans (List.prefix_append _ _)⟩
    rw [h.begun_of_cons hq, hfilled.begun_of_cons hq]
    cases hs : isStarted e' id with
    | false => simp
    | true => simp [isStarted_fill h.custody.sound.flat _ hs]
  · obtain ⟨hfilled, hpaused, r, hr⟩ := h.fill hq
    refine ⟨hfilled.handOn hq hpaused hr hleft, hbegun.trans ?_,
      hbuffer.trans (List.prefix_append _ _)⟩
    refine List.IsPrefix.trans ?_ (List.prefix_append (q'.readQueue ++ [id]) _)
    rw [h.begun_of_cons hq]
    cases isStarted e' id <;> simp

/-- Bytes are left unwritten only if there is no more room for them. -/
theorem length_fill_of_left (hflat : e.Flat) {id room : Nat}
    (hleft : (e.fill id room).1.unwritten id ≠ []) : (e.fill id room).2.length = room := by
  cases hop : e.get? id with
  | none =>
    have hsame : (e.fill id room).1 = e := by
      simp [Engine.fill, Engine.prepare, Engine.unwritten, Engine.count, hop,
        Engine.modify_of_none hop]
    rw [hsame, Engine.unwritten, hop] at hleft
    exact absurd rfl hleft
  | some op =>
    rw [Engine.unwritten_eq, Engine.request?_fill hflat hop room, Option.map_some, Option.getD_some,
      Request.left, ne_eq, List.drop_eq_nil_iff] at hleft
    rw [Engine.fill_snd hop]
    simp only [Engine.piece, Request.left, List.length_take, List.length_drop] at hleft ⊢
    omega

/-- Packing stops only when the buffer is full or nothing waits to be written. -/
theorem pack_stops (q : Queue) {e : Engine} (he : e.Sound) :
    q.settings.writeBufferSize ≤ (q.pack e).1.writeBuffer.length ∨ (q.pack e).1.writeQueue = [] := by
  fun_induction pack q e with
  | case1 q e hroom hq => exact .inr hq
  | case2 q e hroom id rest hq hskip ih => exact ih he
  | case3 q e hroom id rest hq hdue regrouped hr => exact .inr hr
  | case4 q e hroom id rest hq hdue regrouped head rest' hr room filled copied heq q' hleft ih =>
    have hgoes := (goes_packing (.regroup hq (isDue_of_not hdue)) he).1
    have hfilled : filled.Sound := by
      have := (Engine.goes_fill hgoes.sound head room).sound
      rwa [heq] at this
    have hsettings : q'.settings = q.settings := by
      change regrouped.1.settings = _
      rw [regroup_eq q e id]
    rw [← hsettings]
    exact ih (Engine.goes_finishWriting hfilled head).sound
  | case5 q e hroom id rest hq hdue regrouped head rest' hr room filled copied heq q' hleft =>
    have hgoes := (goes_packing (.regroup hq (isDue_of_not hdue)) he).1
    have hlength : (regrouped.2.fill head room).2.length = room :=
      length_fill_of_left hgoes.sound.flat (by
        rw [heq]
        exact fun hnil => hleft (List.isEmpty_iff.2 hnil))
    rw [heq] at hlength
    refine .inl ?_
    change _ ≤ (q.writeBuffer ++ copied).length
    rw [List.length_append, hlength]
    omega
  | case6 q e hfull => exact .inl (Nat.le_of_not_lt hfull)

end Aligned

end Queue

namespace Traffic

/-! ## Nothing is taken back -/

/-- What has been begun, written and handed on stays so. -/
structure Grows (t t' : Traffic) : Prop where
  begun : t.begun <+: t'.begun
  sent : t.sent <+: t'.sent
  handed : t.handed <+: t'.handed

theorem Grows.refl (t : Traffic) : t.Grows t := ⟨List.prefix_rfl, List.prefix_rfl, List.prefix_rfl⟩

theorem Grows.trans {t t' t'' : Traffic} (h : t.Grows t') (h' : t'.Grows t'') : t.Grows t'' :=
  ⟨h.begun.trans h'.begun, h.sent.trans h'.sent, h.handed.trans h'.handed⟩

/-- A step that writes nothing takes nothing back. -/
theorem grows_of_sent {t t' : Traffic} (h : t.Sound) (h' : t'.Sound) (hgoes : t.engine.Goes t'.engine)
    (hhanded : t'.handed = t.handed)
    (hwrite : t.lane.queue.writeQueue <+: t'.lane.queue.writeQueue) (hsent : t'.sent = t.sent) :
    t.Grows t' :=
  ⟨h.atRest.toAligned.begun_prefix h'.atRest.toAligned hgoes.follows hhanded hwrite hsent,
    hsent ▸ List.prefix_rfl, hhanded ▸ List.prefix_rfl⟩

theorem step_grows {t : Traffic} (h : t.Sound) {a : Action} (ha : a.isResend = false) :
    t.Grows (t.step a) := by
  have hstep := grows_of_sent h (sound_step t a h) (goes_step h a).1
  cases a with
  | resend cause => cases ha
  | create command callback => exact hstep rfl List.prefix_rfl rfl
  | cancel id cause => exact hstep rfl List.prefix_rfl rfl
  | copyInput => exact hstep rfl (List.prefix_append _ _) rfl
  | take n =>
    refine hstep rfl List.prefix_rfl ?_
    simp [sent, step, Lane.step, Queue.takeWritten]
  | submit id =>
    have hqueue : (t.lane.step (.submit id)).queue.writeQueue = t.lane.queue.writeQueue ∧
        (t.lane.step (.submit id)).queue.writeBuffer = t.lane.queue.writeBuffer := by
      rcases t.lane.step_submit id with ⟨-, heq⟩ | ⟨_, heq⟩ | heq <;> rw [heq] <;> exact ⟨rfl, rfl⟩
    exact hstep rfl ⟨[], (List.append_nil _).trans hqueue.1.symm⟩
      (congrArg (t.taken ++ ·) hqueue.2)
  | receive bytes =>
    have hwrite := congrArg Queue.writeQueue (h.processed bytes).same
    have hbuffer := congrArg Queue.writeBuffer (h.processed bytes).same
    exact hstep rfl ⟨[], (List.append_nil _).trans hwrite.symm⟩ (congrArg (t.taken ++ ·) hbuffer)
  | pack =>
    obtain ⟨hledger, hengine, new, -, hhanded⟩ := t.ledger_pack
    obtain ⟨hbegun, hbuffer⟩ := h.atRest.pack_grows
    refine ⟨?_, ?_, hhanded ▸ List.prefix_append _ _⟩
    · rw [Traffic.begun, Traffic.begun, hledger, hengine]
      exact hbegun
    · have hwritten : (t.step .pack).lane.queue.writeBuffer = (t.ledger.pack t.engine).1.writeBuffer := by
        rw [← hledger]
        rfl
      rw [Traffic.sent, Traffic.sent, hwritten]
      exact (List.prefix_append_right_inj _).2 hbuffer
  | pushFront id =>
    simp only [step] at hstep ⊢
    split
    · next hempty =>
      have hnil := List.isEmpty_iff.1 hempty
      obtain ⟨hread, hunstarted⟩ := h.atRest.unbegun hnil
      have hbegun : t.begun = [] := by
        rw [Traffic.begun, Queue.begun, hread, List.nil_append]
        exact List.filter_eq_nil_iff.2 fun x hx => by simp [hunstarted x hx]
      refine ⟨hbegun ▸ List.nil_prefix, hnil ▸ List.nil_prefix, ?_⟩
      exact List.prefix_rfl
    · exact Grows.refl t

theorem run_grows {actions : List Action} (hactions : ∀ a ∈ actions, a.isResend = false) :
    ∀ {t : Traffic}, t.Sound → t.Grows (t.run actions) := by
  induction actions with
  | nil => exact fun {t} _ => Grows.refl t
  | cons a actions ih =>
    exact fun {t} h => (step_grows h (hactions a List.mem_cons_self)).trans
      (ih (fun b hb => hactions b (List.mem_cons_of_mem a hb)) (sound_step t a h))

/-! ## What has been begun is written to its end -/

/-- The server takes all that is in the write buffer, and more is written. -/
def round (settings : QueueSettings) : List Action := [.take settings.writeBufferSize, .pack]

theorem not_isResend_of_mem_round {settings : QueueSettings} {a : Action} (h : a ∈ round settings) :
    a.isResend = false := by
  simp only [round, List.mem_cons, List.not_mem_nil, or_false] at h
  rcases h with rfl | rfl <;> rfl

theorem begun_eq_handed {t : Traffic} (h : t.lane.queue.writeQueue = []) : t.begun = t.handed :=
  Queue.begun_of_nil (q := t.ledger) h

/-- In a round all that waits is handed on, or the buffer is filled once more. -/
theorem run_round {t : Traffic} (h : t.Sound) :
    (t.run (round t.lane.queue.settings)).lane.queue.writeQueue = [] ∨
      t.sent.length + t.lane.queue.settings.writeBufferSize ≤
        (t.run (round t.lane.queue.settings)).sent.length := by
  let size := t.lane.queue.settings.writeBufferSize
  let between := t.step (.take size)
  have hbetween : between.Sound := sound_step t (.take size) h
  have hroom : t.lane.queue.writeBuffer.length ≤ size := h.atRest.room
  have htaken : between.taken = t.sent := by
    change t.taken ++ t.lane.queue.writeBuffer.take size = t.sent
    rw [List.take_of_length_le hroom]
    rfl
  rcases between.lane.queue.pack_stops hbetween.custody.sound with hfull | hnil
  · refine .inr ?_
    change t.sent.length + size ≤ (between.taken ++ (between.step .pack).lane.queue.writeBuffer).length
    rw [htaken, List.length_append]
    exact Nat.add_le_add_left hfull _
  · exact .inl hnil

theorem not_isResend_of_mem_rounds {settings : QueueSettings} {n : Nat} {a : Action}
    (h : a ∈ (List.replicate n (round settings)).flatten) : a.isResend = false := by
  obtain ⟨actions, hmem, ha⟩ := List.mem_flatten.1 h
  exact not_isResend_of_mem_round (List.eq_of_mem_replicate hmem ▸ ha)

theorem run_rounds {t : Traffic} (h : t.Sound) (n : Nat) :
    let t' := t.run (List.replicate n (round t.lane.queue.settings)).flatten
    t.begun <+: t'.handed ∨ t.sent.length + n * t.lane.queue.settings.writeBufferSize ≤ t'.sent.length := by
  induction n with
  | zero => exact .inr (by simp [run])
  | succ n ih =>
    let settings := t.lane.queue.settings
    let before := t.run (List.replicate n (round settings)).flatten
    have hbefore : before.Sound := h.run _
    have hsettings : before.lane.queue.settings = settings := (goes_run _ h).2
    have hnext : t.run (List.replicate (n + 1) (round settings)).flatten =
        before.run (round settings) := by
      rw [List.replicate_succ', List.flatten_append, List.flatten_singleton, run_append]
    have hgrows : before.Grows (before.run (round settings)) :=
      run_grows (fun _ => not_isResend_of_mem_round) hbefore
    intro t'
    rw [show t' = before.run (round settings) from hnext]
    rcases ih with hhanded | hlength
    · exact .inl (hhanded.trans hgrows.handed)
    · have hround := run_round hbefore
      rw [hsettings] at hround
      rcases hround with hnil | hmore
      · refine .inl ?_
        rw [← begun_eq_handed hnil]
        exact (run_grows (fun _ => not_isResend_of_mem_rounds) h).begun.trans hgrows.begun
      · refine .inr (Nat.le_trans ?_ hmore)
        rw [Nat.succ_mul, ← Nat.add_assoc]
        exact Nat.add_le_add_right hlength _

/-- At most one operation has been begun and not been handed on. -/
theorem begun_cases {t : Traffic} (h : t.Sound) :
    t.begun = t.handed ∨ ∃ id, t.begun = t.handed ++ [id] := by
  cases hq : t.lane.queue.writeQueue with
  | nil => exact .inl (begun_eq_handed hq)
  | cons id rest =>
    have hbegun : t.begun = _ := h.atRest.begun_of_cons (q := t.ledger) hq
    rw [hbegun]
    cases Queue.isStarted t.engine id with
    | false => exact .inl (List.append_nil _)
    | true => exact .inr ⟨id, rfl⟩

theorem Sound.sent_prefix {t : Traffic} (h : t.Sound) :
    t.sent <+: encodeSlots (t.begun.flatMap t.engine.slots) := h.atRest.toAligned.sent_prefix.2.1

/-- Whatever has been begun is written to its end, if the server takes what is written. -/
theorem exists_handed {t : Traffic} (h : t.Sound)
    (hsize : 0 < t.lane.queue.settings.writeBufferSize) :
    ∃ n, t.begun <+: (t.run (List.replicate n (round t.lane.queue.settings)).flatten).handed := by
  let limit := (encodeSlots (t.begun.flatMap t.engine.slots)).length
  let t' := t.run (List.replicate (limit + 1) (round t.lane.queue.settings)).flatten
  refine ⟨limit + 1, ?_⟩
  rcases run_rounds h (limit + 1) with hhanded | hlength
  · exact hhanded
  · have ht' : t'.Sound := h.run _
    have hbegun : t.begun <+: t'.begun :=
      (run_grows (fun _ => not_isResend_of_mem_rounds) h).begun
    rcases begun_cases ht' with heq | ⟨id, heq⟩
    · exact heq ▸ hbegun
    · rw [heq, List.prefix_concat_iff] at hbegun
      refine hbegun.resolve_left fun hsame => ?_
      -- The bytes of what has been begun would exceed themselves.
      have hslots : t'.begun.flatMap t'.engine.slots = t.begun.flatMap t.engine.slots := by
        rw [heq, ← hsame]
        exact (goes_run _ h).1.follows.flatMap_slots_eq h.custody.sound fun _ => h.lt_size
      have hle := ht'.sent_prefix.length_le
      rw [hslots] at hle
      have hmore : limit + 1 ≤ (limit + 1) * t.lane.queue.settings.writeBufferSize :=
        Nat.le_mul_of_pos_right _ hsize
      change _ ≤ t'.sent.length at hlength
      omega

end Traffic

/-! ## The stream -/

/-- Requests can be read, though one with a long key is not parted where its key ends. -/
theorem Command.readable_reread (c : Command) {f : Frame} {tag : UInt32}
    (hf : f = c.request tag ∨ f = c.quiet tag) (hlimit : f.body.length ≤ Wire.maxBodyLength) :
    f.reread.Readable Wire.requestMagic := by
  obtain ⟨o, -, hrequest⟩ := c.request_eq
  obtain ⟨o', -, hquiet⟩ := c.quiet_eq
  rcases hf with rfl | rfl
  · rw [hrequest tag] at hlimit ⊢
    exact Frame.readable_reread_build _ _ _ _ _ _ _ _ hlimit
  · rw [hquiet tag] at hlimit ⊢
    exact Frame.readable_reread_build _ _ _ _ _ _ _ _ hlimit

theorem Engine.readable_reread_of_mem_slots {e : Engine} (hflat : e.Flat) {id : Nat} {r : Slot}
    (hr : r ∈ e.slots id) (hlimit : r.frame.body.length ≤ Wire.maxBodyLength) :
    r.frame.reread.Readable Wire.requestMagic := by
  have hdescribes := describes_of_mem_slots hflat hr
  unfold Describes at hdescribes
  split at hdescribes
  · obtain ⟨n, c, -, -, hframe⟩ := hdescribes
    exact c.readable_reread hframe hlimit
  · obtain ⟨tag, hframe⟩ := hdescribes
    exact Command.noop.readable_reread (.inl hframe) hlimit

namespace Traffic

/-- What the server has been sent is in step with the requests of the connection. -/
structure InStep (t : Traffic) : Prop where
  /-- What has been written is a beginning of all requests in turn. -/
  sent : t.sent <+: encodeSlots t.requests
  /-- The requests come in the order in which operations were submitted. -/
  ordered : (owners t.requests).Sublist t.order
  /-- Only operations are left out that were cancelled before a byte of theirs was written. -/
  omitted : ∀ id ∈ t.order, id ∉ owners t.requests →
    t.engine.isCancelled id = true ∧ id ∉ owners (t.begun.flatMap t.engine.slots)
  /-- Operations that have been handed on are written in full. -/
  whole : encodeSlots (t.handed.flatMap t.engine.slots) <+: t.sent
  /-- Nothing is written but of operations that have been begun, and they are the first ones. -/
  begun : t.sent <+: encodeSlots (t.begun.flatMap t.engine.slots) ∧
    t.begun.flatMap t.engine.slots <+: t.requests
  /-- A reader finds whole requests and perhaps the beginning of one more. -/
  read : (∀ r ∈ t.begun.flatMap t.engine.slots, r.frame.body.length ≤ Wire.maxBodyLength) →
    ∃ n tail, let read := (t.requests.take n).map (·.frame)
      Frame.drain Wire.requestMagic t.sent = (read.map (.ok ·.reread), tail) ∧
        Frame.encodeAll read ++ tail = t.sent ∧
        Frame.parse Wire.requestMagic tail = .incomplete
  room : t.lane.queue.writeBuffer.length ≤ t.lane.queue.settings.writeBufferSize

theorem Sound.inStep {t : Traffic} (h : t.Sound) : t.InStep := by
  obtain ⟨hwhole, hbegun, hfirst⟩ := h.atRest.sent_prefix
  have hencode : ∀ {slots slots' : List Slot}, slots <+: slots' →
      encodeSlots slots <+: encodeSlots slots' := fun ⟨more, hmore⟩ =>
    ⟨encodeSlots more, by rw [← hmore, encodeSlots_append]⟩
  refine ⟨hbegun.trans (hencode hfirst), h.atRest.listed,
    fun id hid hnot => ⟨h.atRest.omitted id hid hnot, fun hmem => hnot ?_⟩, hwhole, ⟨hbegun, hfirst⟩,
    fun hlimit => ?_, h.atRest.room⟩
  · obtain ⟨more, hmore⟩ := hfirst
    change id ∈ owners (t.ledger.requests t.engine)
    rw [← hmore, owners_append]
    exact List.mem_append_left _ hmem
  · let slots := t.begun.flatMap t.engine.slots
    obtain ⟨n, hn, tail, hdrain, hsent, htail⟩ :=
      @Frame.drain_reread Wire.requestMagic (slots.map (·.frame)) (fun f hf => by
        obtain ⟨r, hr, rfl⟩ := List.mem_map.1 hf
        obtain ⟨id, -, hid⟩ := List.mem_flatMap.1 hr
        exact Engine.readable_reread_of_mem_slots h.custody.sound.flat hid (hlimit r hr)) _ hbegun
    have htake : (t.requests.take n).map (·.frame) = (slots.map (·.frame)).take n := by
      obtain ⟨more, hmore⟩ := hfirst
      rw [List.length_map] at hn
      rw [← List.map_take, show t.requests = slots ++ more from hmore.symm,
        List.take_append_of_le_length hn]
    refine ⟨n, tail, ?_⟩
    rw [htake]
    exact ⟨hdrain, hsent, htail⟩

/-- Those that are left when the connection is lost keep their order. -/
theorem resend_order {t : Traffic} (h : t.Sound) (cause : String) :
    (t.step (.resend cause)).order.Sublist t.order := by
  have hrequests : (t.ledger.readQueue ++ (t.ledger.writeQueue ++ t.ledger.input)).flatMap
      (t.step (.resend cause)).engine.slots = t.requests :=
    (goes_step h (.resend cause)).1.follows.flatMap_slots_eq h.custody.sound fun _ => h.atRest.lt_size
  obtain ⟨kept, e', hstep, hledger⟩ := t.ledger_resend cause
  have hline : (kept.filter (!e'.isCancelled ·) ++ t.lane.queue.input).Sublist
      (t.ledger.readQueue ++ (t.ledger.writeQueue ++ t.ledger.input)) :=
    ((List.filter_sublist.trans hstep.sublist).append (List.Sublist.refl _)).trans
      (List.sublist_append_right _ _)
  refine List.Sublist.trans ?_ h.atRest.listed
  change (owners ((t.step (.resend cause)).ledger.requests _)).Sublist (owners t.requests)
  rw [← hrequests, hledger]
  exact (hline.flatMap _).filterMap _

/-- **The stream of a connection is never out of step.** After any run what the server has been
sent on the connection is in step with the requests of the operations submitted; packing stops
only when the buffer is full or nothing waits to be written; nothing is taken back until the
connection is lost, and then the order is kept; and what has been begun, be it cancelled since, is
written to its end if the server goes on taking what is written. -/
theorem stream_in_step (s : Lane) (h : s.Initial) (hempty : s.queue.writeBuffer = [])
    (actions : List Action) :
    let t := (start s).run actions
    t.InStep ∧ t.lane.queue.settings = s.queue.settings ∧
    ((t.step .pack).lane.queue.writeBuffer.length = s.queue.settings.writeBufferSize ∨
      (t.step .pack).lane.queue.writeQueue = []) ∧
    (∀ more : List Action, (∀ a ∈ more, a.isResend = false) → t.Grows (t.run more) ∧
      ((t.run more).lane.queue.writeQueue = [] → t.begun <+: (t.run more).handed)) ∧
    (∀ cause, (t.step (.resend cause)).order.Sublist t.order) ∧
    (0 < s.queue.settings.writeBufferSize →
      ∃ n, t.begun <+: (t.run (List.replicate n (round s.queue.settings)).flatten).handed) := by
  intro t
  have hstart : (start s).Sound := sound_of_initial h hempty
  have ht : t.Sound := hstart.run actions
  have hsettings : t.lane.queue.settings = s.queue.settings := (goes_run actions hstart).2
  refine ⟨ht.inStep, hsettings, ?_, fun more hmore => ?_, resend_order ht, fun hsize => ?_⟩
  · have hroom := (sound_step t .pack ht).inStep.room
    rw [(goes_step ht .pack).2, hsettings] at hroom
    rcases t.lane.queue.pack_stops ht.custody.sound with hfull | hnil
    · rw [hsettings] at hfull
      exact .inl (Nat.le_antisymm hroom hfull)
    · exact .inr hnil
  · have hgrows := run_grows hmore ht
    exact ⟨hgrows, fun hnil => begun_eq_handed hnil ▸ hgrows.begun⟩
  · rw [← hsettings] at hsize ⊢
    exact exists_handed ht hsize

/-- Of two gets the second is cancelled when five bytes of its request are written. -/
theorem stream_in_step_of_half_written :
    let s : Lane :=
      { queue := { settings := ⟨64, 30, 10, false, 10, 1000⟩, node := 0, inputCapacity := 10 }, engine := {} }
    let t := (start s).run [.create (.get "a" false) .silent, .create (.get "b" false) .silent,
      .submit 0, .submit 1, .copyInput, .pack, .cancel 1 "gone"]
    s.Initial ∧ s.queue.writeBuffer = [] ∧ t.engine.isCancelled 1 = true ∧ t.sent.length = 30 ∧
      t.InStep ∧ ∃ n, [0, 1] <+: (t.run (List.replicate n (round s.queue.settings)).flatten).handed := by
  intro s t
  have h : s.Initial := ⟨rfl, rfl, rfl, rfl, rfl, rfl⟩
  have hrun : (t.engine.isCancelled 1, t.sent.length, t.begun) = (true, 30, [0, 1]) := by
    decide +kernel
  simp only [Prod.mk.injEq] at hrun
  obtain ⟨hcancelled, hlength, hbegun⟩ := hrun
  obtain ⟨hstep, -, -, -, -, hend⟩ := stream_in_step s h rfl [.create (.get "a" false) .silent,
    .create (.get "b" false) .silent, .submit 0, .submit 1, .copyInput, .pack, .cancel 1 "gone"]
  refine ⟨h, rfl, hcancelled, hlength, hstep, ?_⟩
  rw [← hbegun]
  exact hend (by decide)

/-- The first bytes of a node are those of the first request. -/
theorem sent_first (c : Command) :
    let s : Lane :=
      { queue := { settings := ⟨64, 24, 10, false, 10, 1000⟩, node := 0, inputCapacity := 10 }, engine := {} }
    ((start s).run [.create c .silent, .submit 0, .copyInput, .pack]).sent =
      (c.request 1).encode.take 24 := by
  intro s
  let op : Operation :=
    { tag := 1, work := .single c, idempotent := c.kind.isIdempotent, callback := .silent }
  let q : Queue := { s.queue with writeQueue := [0] }
  let e : Engine := { operations := [op], nextTag := 2 }
  have hop : e.get? 0 = some op := rfl
  have hpack : (q.pack e).1.writeBuffer = (e.fill 0 24).2 := by
    have hroom : q.writeBuffer.length < q.settings.writeBufferSize := Nat.zero_lt_succ 23
    have hregroup : q.regroup e 0 = (q, e) := rfl
    have hfill : (q.regroup e 0).2.fill 0 (q.settings.writeBufferSize - q.writeBuffer.length) =
        ((e.fill 0 24).1, (e.fill 0 24).2) := by
      have hspace : q.settings.writeBufferSize - q.writeBuffer.length = 24 := rfl
      rw [hregroup, hspace]
    have hq : (q.regroup e 0).1.writeQueue = [0] := by rw [hregroup]
    generalize e.fill 0 24 = filled at hfill ⊢
    rw [Queue.pack_of_write hroom rfl (fun h => by cases h) hq hfill]
    split
    · rw [Queue.pack_of_nil rfl]
      rfl
    · rfl
  change (q.pack e).1.writeBuffer = _
  rw [hpack, Engine.fill_snd hop]
  simp [Engine.piece, Engine.requestOf, Request.left, Engine.encode, op]

/-- If the header of the first request announces too long a body, not even the header can be read. -/
theorem unread_of_long {c : Command}
    (hlong : Wire.maxBodyLength < (c.request 1).header.bodyLength.toNat) :
    let s : Lane :=
      { queue := { settings := ⟨64, 24, 10, false, 10, 1000⟩, node := 0, inputCapacity := 10 }, engine := {} }
    let t := (start s).run [.create c .silent, .submit 0, .copyInput, .pack]
    ¬ ∃ frames : List Frame, ∃ tail, Frame.drain Wire.requestMagic t.sent = (frames.map .ok, tail) := by
  intro s t
  have hsent : t.sent = (c.request 1).header.encode := by
    rw [sent_first, Frame.encode_eq]
    exact List.take_left' (Wire.Header.length_encode _)
  rintro ⟨frames, tail, hdrain⟩
  rw [hsent, Frame.drain_header_of_long _ hlong, Prod.mk.injEq] at hdrain
  cases frames with
  | nil => cases hdrain.1
  | cons f frames => cases hdrain.1

theorem long_of_data {data : Bytes} (h : data.length = Wire.maxBodyLength + 1) : Wire.maxBodyLength <
    ((Command.store ⟨.set, "k", 0, 0, data, 0⟩).request 1).header.bodyLength.toNat := by
  change Wire.maxBodyLength < (UInt32.ofNat (8 + 1 + data.length)).toNat
  rw [h]
  decide

/-- A value of more than 64 MiB makes the stream unreadable. -/
theorem unread_of_long_value :
    let s : Lane :=
      { queue := { settings := ⟨64, 24, 10, false, 10, 1000⟩, node := 0, inputCapacity := 10 }, engine := {} }
    let t := (start s).run [
      .create (.store ⟨.set, "k", 0, 0, List.replicate (Wire.maxBodyLength + 1) 0, 0⟩) .silent, .submit 0,
      .copyInput, .pack]
    s.Initial ∧ s.queue.writeBuffer = [] ∧
      ¬ ∃ frames : List Frame, ∃ tail, Frame.drain Wire.requestMagic t.sent = (frames.map .ok, tail) :=
  ⟨⟨rfl, rfl, rfl, rfl, rfl, rfl⟩, rfl, unread_of_long (long_of_data List.length_replicate)⟩

end Traffic

end ShardedCache

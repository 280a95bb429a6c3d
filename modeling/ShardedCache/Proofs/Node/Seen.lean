import ShardedCache.Proofs.Engine.Onward
import ShardedCache.Proofs.Node.InFull
import ShardedCache.Proofs.Node.Once
import ShardedCache.Proofs.Node.Response

/-!
# What the server has seen

An operation of which nothing has been seen is missing from all requests that have been written in
full (`Transcript.Omits`). Whoever still has to be written, and is in no batch that waits, is such an
operation (`Traffic.Unseen`): what has been handed on is past being written, and a batch that leaves
the write queue takes its members along (`Queue.Passes`).
-/

namespace ShardedCache

open Wire (Frame)

namespace Queue

/-! ## Leaving the write queue -/

/-- There is no way back, and the members of a batch that has left the write queue are past being
written. -/
structure Passes (q : Queue) (e : Engine) (q' : Queue) (e' : Engine) : Prop where
  onward : e.Onward e'
  members : ∀ b ∈ q.writeQueue, ∀ x ∈ e.members b, b ∈ q'.writeQueue ∨ e'.isUnwritten x = false

/-- Whoever has been handed on is past being written, with all members. -/
def Reached (q : Queue) (e : Engine) : Prop :=
  ∀ b ∈ q.readQueue, ∀ j ∈ b :: e.members b, e.isUnwritten j = false

section Passes

variable {q q' q'' : Queue} {e e' e'' : Engine}

theorem passes_of_subset (h : e.Onward e') (hsub : ∀ b ∈ q.writeQueue, b ∈ q'.writeQueue) :
    Passes q e q' e' := ⟨h, fun b hb _ _ => .inl (hsub b hb)⟩

theorem Passes.trans (h : Passes q e q' e') (h' : Passes q' e' q'' e'') (hfollows : e.Follows e')
    (hflat : e.Flat) (hknown : ∀ b ∈ q.writeQueue, b < e.size) : Passes q e q'' e'' := by
  have hsize := hfollows.size_le
  refine ⟨h.onward.trans h'.onward hsize, fun b hb x hx => ?_⟩
  rcases h.members b hb x hx with hb' | hpast
  · exact h'.members b hb' x (by rwa [hfollows.members_eq (hknown b hb)])
  · refine .inr (Bool.eq_false_iff.2 fun hwaits => ?_)
    have hx' := Nat.lt_of_lt_of_le (Nat.lt_trans (hflat b x hx).1 (hknown b hb)) hsize
    rw [h'.onward x hx' hwaits] at hpast
    cases hpast

/-- What has been handed on stays past being written. -/
theorem Reached.onward (h : Reached q e) (hflat : e.Flat) (hfollows : e.Follows e')
    (hknown : ∀ b ∈ q.readQueue, b < e.size) (honward : e.Onward e')
    (hread : ∀ b ∈ q'.readQueue, b ∈ q.readQueue) : Reached q' e' := by
  intro b hb j hj
  have hlt := hknown b (hread b hb)
  rw [hfollows.members_eq hlt] at hj
  refine Bool.eq_false_iff.2 fun hwaits => ?_
  have hj' : j < e.size := by
    rcases List.mem_cons.1 hj with rfl | hm
    · exact hlt
    · exact Nat.lt_trans (hflat b j hm).1 hlt
  have hpast := h b (hread b hb) j hj
  rw [honward j hj' hwaits] at hpast
  cases hpast

end Passes

section Packing

variable {accepted order : List Nat} {taken : Bytes} {q q' : Queue} {e e' : Engine}

/-- What every round keeps while the stream is aligned, packing keeps. -/
theorem AtRest.pack_induction {P : Queue → Engine → Prop}
    (hstep : ∀ {q e q' e'}, Packing q e q' e' → Aligned accepted taken order q e → P q e → P q' e')
    (h : AtRest accepted taken order q e) (hP : P q e) : P (q.pack e).1 (q.pack e).2 := by
  refine (pack_rounds (P := fun q e => AtRest accepted taken order q e ∧ P q e)
    (R := fun q e => AtHand accepted taken order q e ∧ P q e)
    (fun hq hstarted hcancelled ⟨h, hP⟩ =>
      ⟨h.drop hq hstarted hcancelled, hstep (.drop hq hstarted hcancelled) h.toAligned hP⟩)
    (fun hq hdue ⟨h, hP⟩ => ⟨h.regroup hq hdue, hstep (.regroup hq hdue) h.toAligned hP⟩)
    (fun hq hdue hroom hleft ⟨h, hP⟩ => ?_) (fun hq hdue hroom hleft ⟨h, hP⟩ => ?_) q e ⟨h, hP⟩).2
  · obtain ⟨hfilled, hpaused, r, hr⟩ := h.fill hq
    exact ⟨hfilled.stay hq hpaused hr hleft, hstep (.fill hq hdue hroom hleft) h.toAligned hP⟩
  · obtain ⟨hfilled, hpaused, r, hr⟩ := h.fill hq
    exact ⟨hfilled.handOn hq hpaused hr hleft, hstep (.handOn hq hdue hroom hleft) h.toAligned hP⟩

theorem passes_packing (hstep : Packing q e q' e') (h : Aligned accepted taken order q e) :
    Passes q e q' e' := by
  have hsound := h.custody.sound
  cases hstep with
  | @drop id rest hq hstarted hcancelled =>
    refine ⟨.refl e, fun b hb x hx => ?_⟩
    rw [hq] at hb
    rcases List.mem_cons.1 hb with rfl | hb
    · exact .inr (Engine.isUnwritten_of_isTerminal
        (hsound.settled (isTerminal_of_isCancelled hcancelled) x hx))
    · exact .inl hb
  | @regroup id rest hq hdue =>
    rcases regroup_cases q e id with heq | ⟨-, heq⟩
    · rw [heq]
      exact passes_of_subset (.refl e) fun _ hb => hb
    · rw [heq]
      rcases optimize_cases q e with heq | ⟨family, n, e', hregrouped, heq⟩
      · rw [heq]
        exact passes_of_subset (.refl e) fun _ hb => hb
      · rw [heq]
        refine ⟨fun j hj hwaits => (hregrouped.keeps hj).unwritten.symm.trans hwaits, fun b hb x hx => ?_⟩
        rw [← List.take_append_drop n q.writeQueue] at hb
        rcases List.mem_append.1 hb with hb | hb
        · rw [Engine.members_of_isSingle (hregrouped.isSingle hb)] at hx
          cases hx
        · exact .inl (List.mem_cons_of_mem _ hb)
  | fill hq hdue hroom hleft =>
    exact passes_of_subset (.of_level fun j => (Engine.level_fill hsound.flat _ _ j).1) fun _ hb => hb
  | @handOn id rest hq hdue hroom hleft =>
    let room := q.settings.writeBufferSize - q.writeBuffer.length
    have hlevel := Engine.level_fill hsound.flat id room
    have hfilled := Engine.goes_fill hsound id room
    have hid : id ∈ q.writeQueue := hq ▸ List.mem_cons_self
    refine ⟨(Engine.Onward.of_level fun j => (hlevel j).1).trans
      (Engine.onward_finishWriting hfilled.sound.flat id) hfilled.follows.size_le, fun b hb x hx => ?_⟩
    rw [hq] at hb
    rcases List.mem_cons.1 hb with rfl | hb
    · refine .inr (Engine.isUnwritten_finishWriting hfilled.sound ?_ (List.mem_cons_of_mem b ?_))
      · rw [(hlevel b).1, (hlevel b).2]
        exact h.waiting b (mem_unsent_of_mem_writeQueue hid)
      · rwa [hfilled.follows.members_eq (h.lt_size_of_mem_writeQueue hid)]
    · exact .inl hb

theorem reached_packing (hstep : Packing q e q' e') (h : Aligned accepted taken order q e)
    (hreached : Reached q e) : Reached q' e' := by
  have hsound := h.custody.sound
  have hknown : ∀ b ∈ q.readQueue, b < e.size := fun b hb => h.lt_size (List.mem_append_left _ hb)
  have hpasses := passes_packing hstep h
  have hfollows := (goes_packing hstep hsound).1.follows
  have hstay : (∀ b ∈ q'.readQueue, b ∈ q.readQueue) → Reached q' e' :=
    hreached.onward hsound.flat hfollows hknown hpasses.onward
  cases hstep with
  | drop hq hstarted hcancelled => exact hstay fun _ hb => hb
  | @regroup id rest hq hdue =>
    refine hstay fun b hb => ?_
    rwa [regroup_eq q e id] at hb
  | fill hq hdue hroom hleft => exact hstay fun _ hb => hb
  | @handOn id rest hq hdue hroom hleft =>
    let room := q.settings.writeBufferSize - q.writeBuffer.length
    have hlevel := Engine.level_fill hsound.flat id room
    have hfilled := Engine.goes_fill hsound id room
    have hid : id ∈ q.writeQueue := hq ▸ List.mem_cons_self
    have hstays : Reached q _ :=
      hreached.onward hsound.flat hfollows hknown hpasses.onward fun _ hb => hb
    intro b hb j hj
    rcases List.mem_append.1 hb with hb | hb
    · exact hstays b hb j hj
    · rw [List.mem_singleton.1 hb, hfollows.members_eq (h.lt_size_of_mem_writeQueue hid),
        ← hfilled.follows.members_eq (h.lt_size_of_mem_writeQueue hid)] at hj
      refine Engine.isUnwritten_finishWriting hfilled.sound ?_ hj
      rw [(hlevel id).1, (hlevel id).2]
      exact h.waiting id (mem_unsent_of_mem_writeQueue hid)

end Packing

end Queue

/-! ## Requests of others -/

namespace Engine

/-- All requests of an operation but its last one are for members. -/
theorem mem_dropLast_slots {e : Engine} {id : Nat} {r : Slot} (hr : r ∈ (e.slots id).dropLast) :
    ∃ m ∈ e.members id, r = e.memberSlot m := by
  cases hn : e.nature? id with
  | none => simp [slots, hn] at hr
  | some n =>
    cases hwork : n.work with
    | single c => simp [slots_single hn hwork] at hr
    | batch b =>
      rw [slots_batch hn hwork, List.dropLast_concat] at hr
      obtain ⟨m, hm, rfl⟩ := List.mem_map.1 hr
      exact ⟨m, by rwa [members_of_nature? hn, hwork], rfl⟩

/-- A request that is for others than `x`, and has the tag of another. -/
def Foreign (e : Engine) (x : Nat) (r : Slot) : Prop :=
  r.owner ≠ some x ∧ ∃ j n, j ≠ x ∧ e.nature? j = some n ∧ r.frame.tag = n.tag

theorem foreign_of_mem_slots {e : Engine} (hflat : e.Flat) {id x : Nat} (hx : x ∉ id :: e.members id)
    {r : Slot} (hr : r ∈ e.slots id) : e.Foreign x r := by
  refine ⟨fun howner => hx ?_, ?_⟩
  · rcases mem_of_mem_owners_slots (mem_owners.2 ⟨r, hr, howner⟩) with rfl | hm
    · exact List.mem_cons_self
    · exact List.mem_cons_of_mem id hm
  · obtain ⟨j, n, hj, hn, htag⟩ := tag_of_mem_slots hflat hr
    exact ⟨j, n, fun hjx => hx (hjx ▸ hj), hn, htag.symm⟩

theorem foreign_memberSlot {e : Engine} (hflat : e.Flat) {id m x : Nat} (hm : m ∈ e.members id)
    (hx : m ≠ x) : e.Foreign x (e.memberSlot m) := by
  obtain ⟨n, hn, htag⟩ := tag_memberSlot hflat hm
  exact ⟨fun howner => hx (Option.some.inj howner), m, n, hx, hn, htag.symm⟩

theorem Foreign.follows {e e' : Engine} (h : e.Follows e') {x : Nat} {r : Slot} (hr : e.Foreign x r) :
    e'.Foreign x r := by
  obtain ⟨howner, j, n, hj, hn, htag⟩ := hr
  exact ⟨howner, j, n, hj, (h.nature?_eq (lt_size_of_nature? hn)).trans hn, htag⟩

/-- While tags are distinct, a request of others has another tag. -/
theorem Foreign.tag_ne {e : Engine} (htags : e.TagsDistinct) {x : Nat} {r : Slot} (hr : e.Foreign x r)
    {n : Nature} (hn : e.nature? x = some n) : r.frame.tag ≠ n.tag := by
  obtain ⟨-, j, n', hj, hn', htag⟩ := hr
  exact fun heq => hj (htags hn' hn (htag.symm.trans heq))

end Engine

namespace Transcript

/-- All requests that have been written in full are for others. -/
def Omits (c : Transcript) (e : Engine) (x : Nat) : Prop := ∀ r ∈ c.whole e, e.Foreign x r

theorem whole_congr {c : Transcript} {e e' : Engine} (h : e.Follows e') (he : e.Sound)
    (hknown : ∀ b ∈ c.begun, b < e.size) : c.whole e' = c.whole e := by
  rw [whole, whole, h.flatMap_slots_eq he hknown]

theorem Omits.follows {c : Transcript} {e e' : Engine} {x : Nat} (hx : c.Omits e x) (h : e.Follows e')
    (he : e.Sound) (hknown : ∀ b ∈ c.begun, b < e.size) : c.Omits e' x := by
  intro r hr
  rw [whole_congr h he hknown] at hr
  exact (hx r hr).follows h

/-- Whoever is new has not been written before. -/
theorem omits_of_size_le {c : Transcript} {e : Engine} (he : e.Sound)
    (hknown : ∀ b ∈ c.begun, b < e.size) {x : Nat} (hx : e.size ≤ x) : c.Omits e x := by
  intro r hr
  obtain ⟨b, hb, hr⟩ := List.mem_flatMap.1 ((isPrefix_inFull _ _).subset hr)
  refine Engine.foreign_of_mem_slots he.flat (fun hmem => ?_) hr
  have hlt := hknown b hb
  rcases List.mem_cons.1 hmem with rfl | hm
  · omega
  · have := (he.flat b x hm).1
    omega

end Transcript

namespace Traffic

/-- Whoever has not been handed on, and is in no batch that waits or has been handed on, has not been
written in full. -/
theorem Sound.omits {t : Traffic} (h : t.Sound) {x : Nat} (hhanded : x ∉ t.handed)
    (hmembers : ∀ b ∈ t.ledger.line, x ∉ t.engine.members b) : t.transcript.Omits t.engine x := by
  have hflat := h.custody.sound.flat
  have hforeign : ∀ r ∈ t.handed.flatMap t.engine.slots, t.engine.Foreign x r := fun r hr => by
    obtain ⟨b, hb, hr⟩ := List.mem_flatMap.1 hr
    refine Engine.foreign_of_mem_slots hflat (fun hmem => ?_) hr
    rcases List.mem_cons.1 hmem with rfl | hm
    · exact hhanded hb
    · exact hmembers b (mem_ledger_line.2 (.inr (.inr hb))) hm
  intro r hr
  rcases h.whole_cases with hwhole | ⟨b, hb, -, hwhole⟩
  · exact hforeign r (hwhole ▸ hr)
  · rcases List.mem_append.1 (hwhole.subset hr) with hr | hr
    · exact hforeign r hr
    · obtain ⟨m, hm, rfl⟩ := Engine.mem_dropLast_slots hr
      refine Engine.foreign_memberSlot hflat hm fun hmx => ?_
      exact hmembers b (mem_ledger_line.2 (.inr (.inl hb))) (hmx ▸ hm)

/-! ## Step by step -/

theorem handed_step {t : Traffic} {a : Action} (ha : a ≠ .pack) {b : Nat}
    (hb : b ∈ (t.step a).handed) : b ∈ t.handed := by
  cases a with
  | pack => exact absurd rfl ha
  | resend cause => cases hb
  | pushFront id =>
    simp only [step] at hb
    split at hb <;> exact hb
  | _ => exact hb

theorem onward_resending {e e' : Engine} {cause : String} {ids kept : List Nat} (he : e.Sound)
    (h : Queue.Resending e cause ids kept e') : e.Onward e' := by
  cases h with
  | stays hstarted => exact .refl e
  | @repeats id rest hmay => exact .of_level fun j => (Engine.level_reset he.flat id j).1
  | @givesUp id rest hmay => exact Engine.onward_cancel he.flat id cause

theorem onward_cancelEach {cause : String} : ∀ {ids : List Nat} {e : Engine}, e.Sound →
    e.Onward (Queue.cancelEach e ids cause)
  | [], e, _ => .refl e
  | id :: ids, e, he => by
    have hgoes := (Engine.goes_cancel he id cause).1
    exact (Engine.onward_cancel he.flat id cause).trans (@onward_cancelEach cause ids _ hgoes.sound)
      hgoes.follows.size_le

theorem onward_process (q : Queue) {e : Engine} (he : e.Sound) : e.Onward (q.process e).2.1 := by
  refine (Queue.process_induction (P := fun _ e' => e.Goes e' ∧ e.Onward e')
    (fun {q e' q' e''} hstep ⟨hgoes, h⟩ => ?_) q e ⟨Engine.Goes.refl he, .refl e⟩).2
  refine ⟨hgoes.trans (Queue.goes_processing hstep hgoes.sound).1, h.trans ?_ hgoes.follows.size_le⟩
  have hflat := hgoes.sound.flat
  cases hstep with
  | stray hparse hq => exact .refl e'
  | strayFault hparse hq => exact .refl e'
  | pending hparse hq hreceive => exact Engine.onward_receive hflat _ _
  | last hparse hq hreceive => exact Engine.onward_receive hflat _ _
  | fault hparse hq => exact Engine.onward_fail hflat _ _

/-- A batch whose connection is lost waits on, or its members have ended. -/
theorem passes_resend {t : Traffic} (h : t.Sound) (cause : String) :
    Queue.Passes t.ledger t.engine (t.step (.resend cause)).ledger (t.step (.resend cause)).engine := by
  have hsound := h.custody.sound
  let after := Queue.cancelEach t.engine t.lane.queue.readQueue cause
  have hafter : t.engine.Goes after := (Queue.goes_cancelEach hsound fun id hid =>
    h.ledger_custody.lt_size (mem_ledger_line.2 (.inr (.inr (h.reading id hid))))).1
  obtain ⟨kept, e', hstep, heq⟩ := Queue.resending t.lane.queue t.engine cause
  have hengine : (t.step (.resend cause)).engine = e' := congrArg Prod.snd heq
  have hwrite : (t.step (.resend cause)).ledger.writeQueue = kept.filter (!e'.isCancelled ·) :=
    congrArg (fun r : Queue × Engine => r.1.writeQueue) heq
  have hgoes : t.engine.Goes e' := hengine ▸ (goes_step h (.resend cause)).1
  have hmember : ∀ {b x : Nat}, b ∈ t.ledger.writeQueue → x ∈ t.engine.members b →
      e'.isTerminal b = true → e'.isUnwritten x = false := fun {b x} hb hx hend => by
    refine Engine.isUnwritten_of_isTerminal (hgoes.sound.settled hend x ?_)
    rwa [hgoes.follows.members_eq (h.atRest.lt_size_of_mem_writeQueue hb)]
  rw [hengine]
  refine ⟨(onward_cancelEach hsound).trans (onward_resending hafter.sound hstep)
    hafter.follows.size_le, fun b hb x hx => ?_⟩
  rw [hwrite]
  cases hc : e'.isCancelled b with
  | true => exact .inr (hmember hb hx (Queue.isTerminal_of_isCancelled hc))
  | false =>
    by_cases hkept : b ∈ kept
    · exact .inl (List.mem_filter.2 ⟨hkept, by simp [hc]⟩)
    · refine .inr (hmember hb hx ?_)
      change b ∈ t.lane.queue.writeQueue at hb
      generalize t.lane.queue.writeQueue = ids at hb hstep
      cases hstep with
      | stays hstarted => exact absurd hb hkept
      | repeats hmay => exact absurd hb hkept
      | @givesUp id rest hmay =>
        have hid : b = id := (List.mem_cons.1 hb).resolve_right hkept
        rw [hid]
        exact (Engine.goes_cancel hafter.sound id cause).2

theorem passes_step {t : Traffic} (h : t.Sound) (a : Action) :
    Queue.Passes t.ledger t.engine (t.step a).ledger (t.step a).engine := by
  have hsound := h.custody.sound
  cases a with
  | resend cause => exact passes_resend h cause
  | create command callback =>
    refine Queue.passes_of_subset (fun id hid hwaits => ?_) fun _ hb => hb
    have hget : (t.engine.create command callback).1.get? id = t.engine.get? id :=
      (Engine.get?_add t.engine _ _ callback id).trans (if_neg (Nat.ne_of_lt hid))
    change (t.engine.create command callback).1.isUnwritten id = true at hwaits
    rwa [Engine.isUnwritten, hget] at hwaits
  | cancel id cause => exact Queue.passes_of_subset (Engine.onward_cancel hsound.flat id cause) fun _ hb => hb
  | copyInput => exact Queue.passes_of_subset (.refl _) fun _ hb => List.mem_append_left _ hb
  | take n => exact Queue.passes_of_subset (.refl _) fun _ hb => hb
  | submit id =>
    simp only [step]
    rcases t.lane.step_submit id with ⟨-, hstep⟩ | ⟨cause, hstep⟩ | hstep <;> rw [hstep]
    · exact Queue.passes_of_subset (.refl _) fun _ hb => hb
    · exact Queue.passes_of_subset (Engine.onward_cancel hsound.flat id cause) fun _ hb => hb
    · exact Queue.passes_of_subset (.refl _) fun _ hb => hb
  | pushFront id =>
    simp only [step]
    split
    · rcases t.lane.step_pushFront id with ⟨-, hstep⟩ | hstep <;> rw [hstep]
      · exact Queue.passes_of_subset (.refl _) fun _ hb => List.mem_cons_of_mem id hb
      · exact Queue.passes_of_subset (.refl _) fun _ hb => hb
    · exact Queue.passes_of_subset (.refl _) fun _ hb => hb
  | receive bytes =>
    have hwrite := congrArg Queue.writeQueue (h.processed bytes).same
    refine Queue.passes_of_subset (onward_process _ hsound) fun b hb => ?_
    change b ∈ (t.step (.receive bytes)).lane.queue.writeQueue
    rwa [hwrite]
  | pack =>
    obtain ⟨hledger, hengine, -⟩ := t.ledger_pack
    rw [hledger, hengine]
    refine (h.atRest.pack_induction (P := fun q e => t.engine.Follows e ∧
      Queue.Passes t.ledger t.engine q e) (fun hstep haligned hkept => ?_)
      ⟨Engine.Follows.refl _, Queue.passes_of_subset (.refl _) fun _ hb => hb⟩).2
    obtain ⟨hfollows, hpasses⟩ := hkept
    refine ⟨hfollows.trans (Queue.goes_packing hstep haligned.custody.sound).1.follows, ?_⟩
    exact hpasses.trans (Queue.passes_packing hstep haligned) hfollows hsound.flat
      fun _ hb => h.atRest.lt_size_of_mem_writeQueue hb

/-- What the server has seen of operations that still have to be written: nothing, but for members of
batches that wait. -/
structure Unseen (t : Traffic) : Prop where
  reached : t.ledger.Reached t.engine
  earlier : ∀ c ∈ t.earlier, ∀ x, t.engine.isUnwritten x = true →
    (∀ b ∈ t.lane.queue.writeQueue, x ∉ t.engine.members b) → c.Omits t.engine x

section Unseen

variable {t : Traffic} (h : t.Sound) (hu : t.Unseen) {x : Nat} (hwaits : t.engine.isUnwritten x = true)
  (hbatch : ∀ b ∈ t.lane.queue.writeQueue, x ∉ t.engine.members b)

include h hu hwaits hbatch

/-- Whoever has to be written, and is in no batch that waits, is nowhere that it could be seen. -/
theorem Unseen.apart : x ∉ t.handed ∧ ∀ b ∈ t.ledger.line, x ∉ t.engine.members b := by
  have hpast : ∀ b ∈ t.handed, x ∉ b :: t.engine.members b := fun b hb hx => by
    rw [hu.reached b hb x hx] at hwaits
    cases hwaits
  refine ⟨fun hx => hpast x hx List.mem_cons_self, fun b hb hx => ?_⟩
  rcases mem_ledger_line.1 hb with hb | hb | hb
  · rw [Engine.members_of_isSingle (h.ledger_custody.input b hb)] at hx
    cases hx
  · exact hbatch b hb hx
  · exact hpast b hb (List.mem_cons_of_mem b hx)

theorem Unseen.omits : ∀ c ∈ t.transcripts, c.Omits t.engine x := by
  intro c hc
  rcases List.mem_cons.1 hc with rfl | hc
  · obtain ⟨hhanded, hmembers⟩ := hu.apart h hwaits hbatch
    exact h.omits hhanded hmembers
  · exact hu.earlier c hc x hwaits hbatch

end Unseen

theorem reached_step {t : Traffic} (h : t.Sound) (hreached : t.ledger.Reached t.engine) (a : Action) :
    (t.step a).ledger.Reached (t.step a).engine := by
  by_cases ha : a = .pack
  · subst ha
    obtain ⟨hledger, hengine, -⟩ := t.ledger_pack
    rw [hledger, hengine]
    exact h.atRest.pack_induction Queue.reached_packing hreached
  · exact hreached.onward h.custody.sound.flat (goes_step h a).1.follows
      (fun _ hb => h.lt_size_of_handed hb) (passes_step h a).onward fun _ hb => handed_step ha hb

theorem unseen_step {t : Traffic} (h : t.Sound) (ho : t.Once) (hu : t.Unseen) (a : Action) :
    (t.step a).Unseen := by
  have hfollows := (goes_step h a).1.follows
  have hpasses := passes_step h a
  have hsound := h.custody.sound
  refine ⟨reached_step h hu.reached a, fun c hc x hwaits hbatch => ?_⟩
  have hc := (earlier_sublist t a).subset hc
  have hknown := known_transcripts h ho c hc
  suffices c.Omits t.engine x from this.follows hfollows hsound hknown
  by_cases hx : x < t.engine.size
  · refine hu.omits h (hpasses.onward x hx hwaits) (fun b hb hmem => ?_) c hc
    rcases hpasses.members b hb x hmem with hb' | hpast
    · refine hbatch b hb' ?_
      rwa [hfollows.members_eq (h.atRest.lt_size_of_mem_writeQueue hb)]
    · rw [hpast] at hwaits
      cases hwaits
  · exact Transcript.omits_of_size_le hsound hknown (Nat.not_lt.1 hx)

theorem unseen_of_initial (s : Lane) : (start s).Unseen :=
  ⟨fun _ hb => absurd hb List.not_mem_nil, fun _ hc => absurd hc List.not_mem_nil⟩

end Traffic

end ShardedCache

import ShardedCache.Proofs.Node.Filling

/-!
# Every action keeps the stream aligned

Between two rounds of packing anything may happen: operations are made, submitted, taken in and
cancelled, bytes leave the buffer, and responses come in. After a fault the next connection starts
with nothing written (`AtRest.resend`).
-/

namespace ShardedCache

open Wire (Frame)

namespace Queue

variable {accepted order : List Nat} {taken : Bytes} {q : Queue} {e : Engine}

/-! ## Making and cancelling -/

theorem AtRest.create (h : AtRest accepted taken order q e) (command : Command)
    (callback : Callback) : AtRest accepted taken order q (e.create command callback).1 := by
  have hget := Engine.get?_add e (.single command) command.kind.isIdempotent callback
  have hkeeps : ∀ {id}, id ≠ e.size → e.Keeps (e.create command callback).1 id := fun hid =>
    Engine.keeps_of_life?_eq (Engine.life?_add e _ _ callback hid)
  refine h.goes (Engine.goes_create h.custody.sound command callback) (fun id hid => ?_)
    (fun id hsingle _ => ?_) q.readBuffer
  · exact .kept (hkeeps (Nat.ne_of_lt (h.custody.known id (mem_held_of_mem_unsent hid))))
  · by_cases hid : id = e.size
    · have hnew := hget id
      rw [if_pos hid] at hnew
      exact .inr ⟨Engine.request?_of_get? hnew, (Engine.isUnwritten_of_get? hnew).2 (.inl rfl)⟩
    · refine .inl ⟨?_, .kept (hkeeps hid)⟩
      have hold := hget id
      rw [if_neg hid] at hold
      rwa [Engine.IsSingle, Engine.nature?, ← hold]

theorem size_cancel (he : e.Sound) (id : Nat) (cause : String) :
    (e.cancel id cause).1.size = e.size := (Engine.becomes_cancel he.flat id cause).size_eq

theorem AtRest.cancel (h : AtRest accepted taken order q e) (id : Nat) (cause : String) :
    AtRest accepted taken order q (e.cancel id cause).1 :=
  h.spare (Engine.goes_cancel h.custody.sound id cause).1 (size_cancel h.custody.sound id cause)
    (fun j _ => Engine.spares_cancel h.custody.sound id cause j) q.readBuffer

theorem AtRest.cancelEach {cause : String} : ∀ {ids : List Nat} {e : Engine},
    AtRest accepted taken order q e → AtRest accepted taken order q (Queue.cancelEach e ids cause)
  | [], _, h => h
  | id :: ids, e, h => @AtRest.cancelEach cause ids (e.cancel id cause).1 (h.cancel id cause)

/-! ## Submitting -/

theorem AtRest.submit (h : AtRest accepted taken order q e) {id : Nat} (hsingle : e.IsSingle id)
    (hnew : id ∉ accepted) :
    AtRest (id :: accepted) taken (order ++ [id]) { q with input := q.input ++ [id] } e := by
  have hrequests : ({ q with input := q.input ++ [id] } : Queue).requests e =
      q.requests e ++ e.slots id := by
    simp only [requests, ← List.append_assoc, List.flatMap_append, List.flatMap_cons,
      List.flatMap_nil, List.append_nil]
  obtain ⟨hnone, hwaiting⟩ := h.untouched id hsingle hnew
  refine ⟨⟨custody_submit h.custody hsingle hnew, h.room, h.bytes, fun x hx => ?_, h.encoded,
    h.behind, fun x hx => ?_, h.joined, ?_, fun x hx hnot => ?_, fun x hx hnot => ?_⟩, h.paused⟩
  · have hmem : x = id ∨ x ∈ q.unsent e := by
      simp only [unsent, List.mem_append, List.mem_singleton] at hx ⊢
      grind
    rcases hmem with rfl | hmem
    · exact hwaiting
    · exact h.waiting x hmem
  · rcases List.mem_append.1 hx with hx | hx
    · exact h.input x hx
    · rwa [List.mem_singleton.1 hx]
  · rw [hrequests, owners_append, Engine.owners_slots_single hsingle]
    exact h.listed.append (List.Sublist.refl [id])
  · rw [hrequests, owners_append, Engine.owners_slots_single hsingle, List.mem_append, not_or] at hnot
    exact h.omitted x ((List.mem_append.1 hx).resolve_right hnot.2) hnot.1
  · exact h.untouched x hx fun hmem => hnot (List.mem_cons_of_mem id hmem)

/-- When nothing has been written nothing has been handed on, and nothing has begun. -/
theorem AtRest.unbegun (h : AtRest accepted taken order q e) (hempty : taken ++ q.writeBuffer = []) :
    q.readQueue = [] ∧ ∀ id ∈ q.writeQueue, isStarted e id = false := by
  have hbytes := h.bytes
  rw [hempty, eq_comm, List.append_eq_nil_iff, encodeSlots_eq_nil, List.flatMap_eq_nil_iff,
    List.flatMap_eq_nil_iff] at hbytes
  obtain ⟨hread, hwrite⟩ := hbytes
  refine ⟨List.eq_nil_iff_forall_not_mem.2 fun id hid => ?_, fun id hid => ?_⟩
  · exact Engine.slots_ne_nil (h.lt_size (List.mem_append_left _ hid)) (hread id hid)
  · cases hr : e.request? id with
    | none => exact Engine.isStarted_of_none hr
    | some r =>
      have hleft := (h.paused id hid).left r hr
      have hcopied := hwrite id hid
      rw [Engine.copied_of_some hr, List.take_eq_nil_iff] at hcopied
      have hzero : r.written = 0 := hcopied.resolve_right fun hnil => by
        rw [hnil] at hleft
        exact Nat.not_lt_zero _ hleft
      rw [Engine.isStarted_eq, hr]
      simp [hzero]

theorem AtRest.pushFront (h : AtRest accepted taken order q e) {id : Nat} (hsingle : e.IsSingle id)
    (hnew : id ∉ accepted) (hempty : taken ++ q.writeBuffer = []) :
    AtRest (id :: accepted) taken (id :: order) (q.pushFront id) e := by
  obtain ⟨hread, hunstarted⟩ := h.unbegun hempty
  obtain ⟨hnone, hwaiting⟩ := h.untouched id hsingle hnew
  have howners : owners ((q.pushFront id).requests e) = id :: owners (q.requests e) := by
    simp only [requests, Queue.pushFront, hread, List.nil_append, List.cons_append, List.flatMap_cons,
      owners_append, Engine.owners_slots_single hsingle]
  refine ⟨⟨custody_pushFront h.custody hsingle hnew, h.room, ?_, fun x hx => ?_, fun x hx r hr => ?_,
    hunstarted, h.input, fun x hx => ?_, ?_, fun x hx hnot => ?_, fun x hx hnot => ?_⟩,
    fun x hx => ?_⟩
  · refine h.bytes.trans ?_
    simp only [Queue.pushFront, List.flatMap_cons, Engine.copied_of_none hnone, List.nil_append]
  · have hmem : x = id ∨ x ∈ q.unsent e := by
      simp only [unsent, Queue.pushFront, List.flatMap_cons, Engine.members_of_isSingle hsingle,
        List.mem_append, List.mem_cons, List.not_mem_nil] at hx ⊢
      grind
    rcases hmem with rfl | hmem
    · exact hwaiting
    · exact h.waiting x hmem
  · rcases List.mem_cons.1 hx with rfl | hx
    · rw [hnone] at hr
      cases hr
    · exact h.encoded x hx r hr
  · rcases List.mem_cons.1 hx with rfl | hx
    · exact Engine.joined_of_isSingle hsingle
    · exact h.joined x hx
  · rw [howners]
    exact h.listed.cons_cons id
  · rw [howners, List.mem_cons, not_or] at hnot
    exact h.omitted x ((List.mem_cons.1 hx).resolve_left hnot.1) hnot.2
  · exact h.untouched x hx fun hmem => hnot (List.mem_cons_of_mem id hmem)
  · rcases List.mem_cons.1 hx with rfl | hx
    · refine ⟨fun _ => .inl (Engine.members_of_isSingle hsingle), fun r hr => ?_⟩
      rw [hnone] at hr
      cases hr
    · exact h.paused x hx

/-! ## Taking submissions in -/

theorem takeInput_sublist (e : Engine) (room : Nat) (input : List Nat) :
    ((takeInput e room input).1 ++ (takeInput e room input).2).Sublist input := by
  fun_induction takeInput e room input with
  | case1 input => exact List.Sublist.refl _
  | case2 room => exact List.Sublist.refl _
  | case3 room id rest hcancelled ih => exact ih.cons id
  | case4 room id rest hopen taken left htake ih =>
    rw [htake] at ih
    exact ih.cons_cons id

theorem AtRest.copyInput (h : AtRest accepted taken order q e) :
    AtRest accepted taken order (q.copyInput e).1 e := by
  let room := q.settings.writeQueueCapacity - q.writeQueue.length
  let moved := (takeInput e room q.input).1
  let left := (takeInput e room q.input).2
  have hsub : (moved ++ left).Sublist q.input := takeInput_sublist e room q.input
  have hmoved : ∀ x ∈ moved, x ∈ q.input := fun x hx => hsub.subset (List.mem_append_left _ hx)
  have hleft : ∀ x ∈ left, x ∈ q.input := fun x hx => hsub.subset (List.mem_append_right _ hx)
  have hnone : ∀ x ∈ moved, e.request? x = none := fun x hx => h.input x (hmoved x hx)
  have hsingle : ∀ x ∈ moved, e.IsSingle x := fun x hx => h.custody.input x (hmoved x hx)
  have hcopy : (q.copyInput e).1 = { q with writeQueue := q.writeQueue ++ moved, input := left } := rfl
  have hcustody := custody_copyInput h.custody
  rw [hcopy] at hcustody ⊢
  obtain ⟨hlisted, homitted⟩ := @Aligned.release _ _ _ _ _
    { q with writeQueue := q.writeQueue ++ moved, input := left } h.toAligned
    (by simpa only [List.append_assoc] using ((hsub.append_left q.writeQueue).append_left q.readQueue))
    fun x hx hnot => by
      obtain ⟨gone, hperm, hgone⟩ := takeInput_perm e room q.input
      simp only [List.mem_append, not_or] at hx hnot
      have hinput : x ∈ q.input := by grind
      refine ⟨List.mem_append_right _ hinput, hgone x ?_⟩
      have hmem := hperm.mem_iff.2 hinput
      simp only [List.mem_append] at hmem
      exact hmem.resolve_left fun hkept => hkept.elim hnot.2.1.2 hnot.2.2
  refine ⟨⟨hcustody, h.room, ?_, fun x hx => h.waiting x ?_, fun x hx r hr => ?_, fun x hx => ?_,
    fun x hx => h.input x (hleft x hx), fun x hx => ?_, hlisted, homitted, h.untouched⟩,
    fun x hx => ?_⟩
  · refine h.bytes.trans ?_
    have hnil : moved.flatMap e.copied = [] :=
      List.flatMap_eq_nil_iff.2 fun x hx => Engine.copied_of_none (hnone x hx)
    simp only [List.flatMap_append, hnil, List.append_nil]
  · have hnil : moved.flatMap e.members = [] :=
      List.flatMap_eq_nil_iff.2 fun x hx => Engine.members_of_isSingle (hsingle x hx)
    simp only [unsent, List.flatMap_append, hnil, List.append_nil, List.mem_append] at hx ⊢
    grind
  · rcases List.mem_append.1 hx with hx | hx
    · exact h.encoded x hx r hr
    · rw [hnone x hx] at hr
      cases hr
  · have hmem : x ∈ q.writeQueue.tail ∨ x ∈ moved := by
      change x ∈ (q.writeQueue ++ moved).tail at hx
      cases hw : q.writeQueue with
      | nil => rw [hw] at hx; exact .inr (List.mem_of_mem_tail hx)
      | cons head rest => rw [hw] at hx; exact List.mem_append.1 hx
    exact hmem.elim (h.behind x) fun hx => Engine.isStarted_of_none (hnone x hx)
  · exact (List.mem_append.1 hx).elim (h.joined x) fun hx => Engine.joined_of_isSingle (hsingle x hx)
  · rcases List.mem_append.1 hx with hx | hx
    · exact h.paused x hx
    · refine ⟨fun _ => .inl (Engine.members_of_isSingle (hsingle x hx)), fun r hr => ?_⟩
      rw [hnone x hx] at hr
      cases hr

/-! ## Bytes that leave and bytes that come -/

theorem AtRest.take (h : AtRest accepted taken order q e) (n : Nat) :
    AtRest accepted (taken ++ (q.takeWritten n).2) order (q.takeWritten n).1 e := by
  refine ⟨⟨h.custody.goes (Engine.Goes.refl h.custody.sound) rfl rfl, ?_, ?_, h.waiting, h.encoded,
    h.behind, h.input, h.joined, h.listed, h.omitted, h.untouched⟩, h.paused⟩
  · have := h.room
    simp only [takeWritten, List.length_drop]
    omega
  · refine Eq.trans ?_ h.bytes
    simp only [takeWritten, List.append_assoc, List.take_append_drop]

/-- Processing pops operations that have ended off the read queue, and touches no other. -/
structure Processed (q : Queue) (e : Engine) (q' : Queue) (e' : Engine) : Prop where
  goes : e.Goes e'
  same : q' = { q with readQueue := q'.readQueue, readBuffer := q'.readBuffer }
  popped : ∀ id ∈ q.readQueue, id ∈ q'.readQueue ∨ e'.isTerminal id = true
  reading : ∀ id ∈ q'.readQueue, id ∈ q.readQueue
  others : ∀ j, (∀ id ∈ q.readQueue, j ∉ id :: e.members id) → e'.life? j = e.life? j

theorem Processed.step {q' q'' : Queue} {e' e'' : Engine} (h : Processed q e q' e')
    (hknown : ∀ id ∈ q.readQueue, id < e.size) {id : Nat} {waiting : List Nat}
    (hq : q'.readQueue = id :: waiting) (hgoes : e'.Goes e'')
    (hothers : ∀ j, j ∉ id :: e'.members id → e''.life? j = e'.life? j)
    (hsame : q'' = { q' with readQueue := q''.readQueue, readBuffer := q''.readBuffer })
    (hread : q''.readQueue = id :: waiting ∨ q''.readQueue = waiting ∧ e''.isTerminal id = true) :
    Processed q e q'' e'' := by
  have hid : id ∈ q.readQueue := h.reading id (hq ▸ List.mem_cons_self)
  refine ⟨h.goes.trans hgoes, ?_, fun x hx => ?_, fun x hx => h.reading x ?_, fun j hj => ?_⟩
  · rw [hsame, h.same]
  · rcases h.popped x hx with hmem | hend
    · rw [hq] at hmem
      rcases hread with hread | ⟨hread, hend⟩
      · exact .inl (hread ▸ hmem)
      · rw [hread]
        rcases List.mem_cons.1 hmem with rfl | hmem
        · exact .inr hend
        · exact .inl hmem
    · refine .inr (hgoes.follows.isTerminal ?_ hend)
      exact Nat.lt_of_lt_of_le (hknown x hx) h.goes.follows.size_le
  · rw [hq]
    rcases hread with hread | ⟨hread, -⟩
    · exact hread ▸ hx
    · exact List.mem_cons_of_mem id (hread ▸ hx)
  · rw [hothers j, h.others j hj]
    rw [h.goes.follows.members_eq (hknown id hid)]
    exact hj id hid

theorem processed (q : Queue) {e : Engine} (he : e.Sound) (hknown : ∀ id ∈ q.readQueue, id < e.size) :
    Processed q e (q.process e).1 (q.process e).2.1 := by
  refine process_induction (P := Processed q e) (fun hstep h => ?_) q e
    ⟨Engine.Goes.refl he, rfl, fun id hid => .inl hid, fun id hid => hid, fun _ _ => rfl⟩
  have hflat := h.goes.sound.flat
  cases hstep with
  | stray hparse hq => exact ⟨h.goes, by rw [h.same], h.popped, h.reading, h.others⟩
  | strayFault hparse hq => exact ⟨h.goes, by rw [h.same], h.popped, h.reading, h.others⟩
  | pending hparse hq hreceive =>
    exact h.step hknown hq (Engine.goes_receive h.goes.sound _ _).1
      (fun j hj => Engine.life?_receive hflat hj _) rfl (.inl hq)
  | last hparse hq hreceive =>
    obtain ⟨hgoes, hend⟩ := Engine.goes_receive h.goes.sound _ _
    exact h.step hknown hq hgoes (fun j hj => Engine.life?_receive hflat hj _) rfl
      (.inr ⟨rfl, hend hreceive⟩)
  | fault hparse hq =>
    obtain ⟨hgoes, hend⟩ := Engine.goes_fail h.goes.sound _ _
    exact h.step hknown hq hgoes (fun j hj => Engine.life?_fail hflat hj _) rfl (.inr ⟨rfl, hend⟩)

/-! ## A record of what has been handed on -/

/-- The queues with other operations in the read queue. -/
def withRead (q : Queue) (ids : List Nat) : Queue := { q with readQueue := ids }

theorem regroup_withRead (q : Queue) (e : Engine) (id : Nat) (ids : List Nat) :
    (q.withRead ids).regroup e id = ((q.regroup e id).1.withRead ids, (q.regroup e id).2) := by
  unfold regroup withRead
  dsimp only
  split
  · unfold optimize
    dsimp only
    split
    · rfl
    · split <;> rfl
  · rfl

/-- Packing appends to the read queue, whatever is in it. -/
theorem pack_withRead (q : Queue) (e : Engine) (ids : List Nat) :
    ∃ new, (q.pack e).1.readQueue = q.readQueue ++ new ∧
      (q.withRead ids).pack e = ((q.pack e).1.withRead (ids ++ new), (q.pack e).2) := by
  fun_induction pack q e generalizing ids with
  | case1 q e hroom hq =>
    exact ⟨[], by simp, by rw [pack_of_nil (q := q.withRead ids) hq, List.append_nil]⟩
  | case2 q e hroom id rest hq hskip ih =>
    obtain ⟨new, hnew, heq⟩ := ih ids
    exact ⟨new, hnew, (pack_of_drop (q := q.withRead ids) hroom hq hskip).trans heq⟩
  | case3 q e hroom id rest hq _ regrouped hr => exact absurd hr (regroup_ne_nil hq)
  | case4 q e hroom id rest hq hdue regrouped head rest' hr room filled copied heq q' hleft ih =>
    obtain ⟨new, hnew, hpack⟩ := ih (ids ++ [head])
    have hread : regrouped.1.readQueue = q.readQueue := by rw [regroup_eq q e id]
    have hregroup := regroup_withRead q e id ids
    refine ⟨head :: new, by rw [hnew]; simp [q', hread], ?_⟩
    have hwrite : ((q.withRead ids).regroup e id).1.writeQueue = head :: rest' := by
      rw [hregroup]
      exact hr
    have hfill : ((q.withRead ids).regroup e id).2.fill head room = (filled, copied) := by
      rw [hregroup]
      exact heq
    have hstep := pack_of_write (q := q.withRead ids) hroom hq hdue hwrite hfill
    rw [if_pos hleft, hregroup] at hstep
    rw [List.append_assoc] at hpack
    exact hstep.trans hpack
  | case5 q e hroom id rest hq hdue regrouped head rest' hr room filled copied heq q' hleft =>
    have hread : regrouped.1.readQueue = q.readQueue := by rw [regroup_eq q e id]
    have hregroup := regroup_withRead q e id ids
    have hwrite : ((q.withRead ids).regroup e id).1.writeQueue = head :: rest' := by
      rw [hregroup]
      exact hr
    have hfill : ((q.withRead ids).regroup e id).2.fill head room = (filled, copied) := by
      rw [hregroup]
      exact heq
    have hstep := pack_of_write (q := q.withRead ids) hroom hq hdue hwrite hfill
    rw [if_neg hleft, hregroup] at hstep
    exact ⟨[], by simp [q', hread], by rw [List.append_nil]; exact hstep⟩
  | case6 q e hroom =>
    refine ⟨[], by simp, ?_⟩
    rw [pack, if_neg (by exact hroom), List.append_nil]

theorem AtRest.process {handed : List Nat}
    (h : AtRest accepted taken order (q.withRead handed) e) (hread : ∀ id ∈ q.readQueue, id ∈ handed) :
    AtRest accepted taken order ((q.process e).1.withRead handed) (q.process e).2.1 := by
  have hknown : ∀ id ∈ q.readQueue, id < e.size := fun id hid =>
    h.lt_size (List.mem_append_left _ (hread id hid))
  have hprocessed := processed q h.custody.sound hknown
  have hsame : (q.process e).1.withRead handed =
      { q.withRead handed with readBuffer := (q.process e).1.readBuffer } := by
    conv => lhs; rw [hprocessed.same]
    rfl
  have hsize : (q.process e).2.1.size = e.size := by
    refine Nat.le_antisymm ?_ hprocessed.goes.follows.size_le
    have hnew := hprocessed.others e.size fun id hid hmem => by
      rcases List.mem_cons.1 hmem with heq | hmem
      · exact Nat.lt_irrefl _ (heq ▸ hknown id hid)
      · have := (h.custody.sound.flat id _ hmem).1
        exact Nat.lt_irrefl _ (Nat.lt_trans this (hknown id hid))
    have hnone : e.get? e.size = none := Engine.get?_eq_none_iff.2 (Nat.le_refl _)
    exact Engine.get?_eq_none_iff.1 (Engine.get?_eq_none.2 (hnew.trans (Engine.get?_eq_none.1 hnone)))
  rw [hsame]
  refine h.spare hprocessed.goes hsize (fun j hj => .kept (Engine.keeps_of_life?_eq ?_)) _
  exact hprocessed.others j fun id hid hmem => h.custody.not_awaits (hread id hid) hmem hj

/-! ## The next connection -/

/-- The next connection starts from the front, with what has not been let go of. -/
theorem AtRest.restart {q' : Queue} {e' : Engine} (h : AtRest accepted taken order q e)
    (hgoes : e.Goes e') (hsize : e'.size = e.size) (hresumes : ∀ id, e.Resumes e' id)
    (hcustody : Custody accepted q' e') (hread : q'.readQueue = []) (hbuffer : q'.writeBuffer = [])
    (hinput : q'.input = q.input) (hwrite : ∀ id ∈ q'.writeQueue, id ∈ q.writeQueue)
    (hunstarted : ∀ id ∈ q'.writeQueue, isStarted e' id = false) :
    AtRest accepted [] (owners (q'.requests e')) q' e' := by
  have hsound := h.custody.sound
  have hfollows := hgoes.follows
  have hmembers : ∀ id ∈ q'.writeQueue, e'.members id = e.members id := fun id hid =>
    hfollows.members_eq (h.lt_size_of_mem_writeQueue (hwrite id hid))
  have hencoded : ∀ id ∈ q'.writeQueue, ∀ r, e'.request? id = some r →
      r.bytes = encodeSlots (e'.slots id) ∧ r.written = 0 := fun id hid r hr => by
    obtain ⟨r', hr', hbytes⟩ := (hresumes id).bytes r hr
    have hzero := hunstarted id hid
    rw [Engine.isStarted_eq, hr] at hzero
    rw [hbytes, hfollows.slots_eq hsound (h.lt_size_of_mem_writeQueue (hwrite id hid))]
    exact ⟨(h.encoded id (hwrite id hid) r' hr').1, by simpa using hzero⟩
  refine ⟨⟨hcustody, by rw [hbuffer]; exact Nat.zero_le _, ?_, fun id hid => (hresumes id).waiting ?_,
    fun id hid r hr => ?_, fun id hid => hunstarted id (List.mem_of_mem_tail hid), fun id hid => ?_,
    fun id hid => ?_, List.Sublist.refl _, fun id hid hnot => absurd hid hnot, fun id hid hnew => ?_⟩,
    fun id hid => ⟨fun hnone => ?_, fun r hr => ?_⟩⟩
  · have hnil : q'.writeQueue.flatMap e'.copied = [] := List.flatMap_eq_nil_iff.2 fun id hid =>
      Engine.copied_of_not_isStarted (hunstarted id hid)
    rw [hbuffer, hread, hnil]
    rfl
  · refine h.waiting id ?_
    rw [unsent, List.flatMap_congr hmembers, hinput] at hid
    simp only [unsent, List.mem_append, List.mem_flatMap] at hid ⊢
    rcases hid with hid | hid | ⟨b, hb, hid⟩
    · exact .inl hid
    · exact .inr (.inl (hwrite id hid))
    · exact .inr (.inr ⟨b, hwrite b hb, hid⟩)
  · obtain ⟨hbytes, hzero⟩ := hencoded id hid r hr
    exact ⟨hbytes, hzero ▸ Nat.zero_le _⟩
  · rw [hinput] at hid
    exact (hresumes id).unrequested (h.input id hid)
  · exact hfollows.joined hsound (h.lt_size_of_mem_writeQueue (hwrite id hid)) (h.joined id (hwrite id hid))
  · obtain ⟨hnone, hwaiting⟩ := h.untouched id (Engine.isSingle_of_follows hfollows hsize hid) hnew
    exact ⟨(hresumes id).unrequested hnone, (hresumes id).waiting hwaiting⟩
  · rcases (hresumes id).lost hnone with hold | hcancelled
    · rw [hmembers id hid]
      exact ((h.paused id (hwrite id hid)).encoded hold).imp_right
        (Engine.isCancelled_of_follows hfollows)
    · exact .inr hcancelled
  · obtain ⟨hbytes, hzero⟩ := hencoded id hid r hr
    rw [hzero, hbytes, List.length_pos_iff, ne_eq, encodeSlots_eq_nil]
    refine Engine.slots_ne_nil (Nat.lt_of_lt_of_le ?_ hfollows.size_le)
    exact h.lt_size_of_mem_writeQueue (hwrite id hid)

/-- What becomes of the write queue on a fault, and of its head above all. -/
inductive Resending (e : Engine) (cause : String) : List Nat → List Nat → Engine → Prop where
  /-- Nothing has been written of the head. -/
  | stays {ids : List Nat} (hstarted : ∀ id ∈ ids.head?, isStarted e id = false) :
    Resending e cause ids ids e
  | repeats {id : Nat} {rest : List Nat} (hmay : mayRepeat e id = true) :
    Resending e cause (id :: rest) (id :: rest) (e.reset id).1
  | givesUp {id : Nat} {rest : List Nat} (hmay : mayRepeat e id = false) :
    Resending e cause (id :: rest) rest (e.cancel id cause).1

theorem Resending.sublist {e e' : Engine} {cause : String} {ids kept : List Nat}
    (h : Resending e cause ids kept e') : kept.Sublist ids := by
  cases h with
  | stays _ => exact List.Sublist.refl _
  | repeats _ => exact List.Sublist.refl _
  | givesUp _ => exact List.sublist_cons_self _ _

theorem resending (q : Queue) (e : Engine) (cause : String) : ∃ kept e',
    Resending (Queue.cancelEach e q.readQueue cause) cause q.writeQueue kept e' ∧
      q.resend e cause =
        ({ q with
            readQueue := [], writeQueue := kept.filter (!e'.isCancelled ·), writeBuffer := []
            readBuffer := [] }, e') := by
  unfold resend
  generalize Queue.cancelEach e q.readQueue cause = after
  cases q.writeQueue with
  | nil => exact ⟨[], after, .stays (by simp), rfl⟩
  | cons id rest =>
    dsimp only
    split
    · next hstarted =>
      refine ⟨id :: rest, after, .stays fun x hx => ?_, rfl⟩
      cases hx
      simpa using hstarted
    · split
      · next hmay => exact ⟨id :: rest, _, .repeats hmay, rfl⟩
      · next hmay => exact ⟨rest, _, .givesUp (by simpa using hmay), rfl⟩

/-- Whoever may be sent again has not been written in full. -/
theorem Aligned.isUnwritten_of_mayRepeat (h : Aligned accepted taken order q e) {id : Nat}
    (hid : id ∈ q.writeQueue) (hmay : mayRepeat e id = true) : e.isUnwritten id = true := by
  refine (h.waiting id (mem_unsent_of_mem_writeQueue hid)).resolve_right fun hc => ?_
  obtain ⟨op, hop, hmay⟩ := (Option.any_eq_true _ _).1 hmay
  simp only [Bool.and_eq_true, Bool.not_eq_true'] at hmay
  rw [Engine.isCancelled, hop, Option.map_some, Option.getD_some, hmay.2] at hc
  cases hc

theorem AtRest.resending {kept : List Nat} {e' : Engine} {cause : String}
    (h : AtRest accepted taken order q e) (hstep : Resending e cause q.writeQueue kept e') :
    (e.Goes e' ∧ e'.size = e.size ∧ ∀ id, e.Resumes e' id) ∧
      ∀ id ∈ kept, id ∈ q.writeQueue ∧ isStarted e' id = false := by
  have hsound := h.custody.sound
  generalize hq : q.writeQueue = ids at hstep ⊢
  have hbehind : ∀ id ∈ ids.tail, isStarted e id = false := fun id hid => h.behind id (by rwa [hq])
  cases hstep with
  | stays hstarted =>
    refine ⟨⟨Engine.Goes.refl hsound, rfl, fun id => (Engine.Spares.kept (.refl e id)).resumes⟩,
      fun x hx => ⟨hx, ?_⟩⟩
    cases kept with
    | nil => cases hx
    | cons id rest =>
      rcases List.mem_cons.1 hx with rfl | hx
      · exact hstarted x rfl
      · exact hbehind x hx
  | @repeats id rest hmay =>
    have hwaits := h.isUnwritten_of_mayRepeat (hq ▸ List.mem_cons_self) hmay
    have hreset := Engine.keeps_or_rewinds_reset hsound.flat id
    refine ⟨⟨Engine.goes_reset hsound id, (Engine.becomes_reset hsound.flat id).size_eq, fun x =>
      (hreset x).elim (fun hk => (Engine.Spares.kept hk).resumes) fun hr => hr.resumes⟩,
      fun x hx => ⟨hx, ?_⟩⟩
    rcases List.mem_cons.1 hx with rfl | hx
    · exact (Engine.rewinds_reset hsound.flat hwaits List.mem_cons_self hwaits).isStarted
    · rcases hreset x with hk | hr
      · rw [Engine.isStarted_eq, hk.request, ← Engine.isStarted_eq]
        exact hbehind x hx
      · exact hr.isStarted
  | @givesUp id rest hmay =>
    have hspares := Engine.spares_cancel hsound id cause
    refine ⟨⟨(Engine.goes_cancel hsound id cause).1, size_cancel hsound id cause,
      fun x => (hspares x).resumes⟩, fun x hx => ⟨List.mem_cons_of_mem id hx, ?_⟩⟩
    have hmem : x ∈ q.writeQueue := by
      rw [hq]
      exact List.mem_cons_of_mem id hx
    rw [((hspares x).copied (h.paused x hmem)).2]
    exact hbehind x hx

theorem AtRest.resend {handed : List Nat} (h : AtRest accepted taken order (q.withRead handed) e)
    (hcustody : Custody accepted q e) (cause : String) :
    AtRest accepted [] (owners ((q.resend e cause).1.requests (q.resend e cause).2))
      (q.resend e cause).1 (q.resend e cause).2 := by
  have hlater := custody_resend hcustody cause
  have hafter : AtRest accepted taken order (q.withRead handed) (Queue.cancelEach e q.readQueue cause) :=
    h.cancelEach
  obtain ⟨kept, e', hstep, heq⟩ := Queue.resending q e cause
  obtain ⟨⟨hgoes, hsize, hresumes⟩, hkept⟩ := hafter.resending hstep
  rw [heq] at hlater ⊢
  exact hafter.restart hgoes hsize hresumes hlater rfl rfl rfl
    (fun id hid => (hkept id (List.mem_of_mem_filter hid)).1)
    fun id hid => (hkept id (List.mem_of_mem_filter hid)).2

end Queue

end ShardedCache

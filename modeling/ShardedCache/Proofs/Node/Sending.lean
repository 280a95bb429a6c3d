import ShardedCache.Proofs.Node.Transit

/-!
# On the way to the server

Making, submitting and taking in operations, packing their requests, and the server's taking and
answering them keep everything where it belongs. Packing is taken round by round: what is copied
leaves the operation and enters the buffer, and a run that becomes a batch has not begun to be
written.
-/

namespace ShardedCache

open Wire (Frame)

namespace Engine

/-- What is left of a request, be it encoded or not. -/
theorem requestOf_left {e : Engine} {id : Nat} {op : Operation} (hop : e.get? id = some op)
    (hjoined : e.Joined id) (hopen : ∀ m ∈ e.members id, e.isTerminal m = false) :
    (e.requestOf op).left = e.outstanding id := by
  rw [outstanding, request?_of_get? hop, requestOf]
  cases op.request with
  | some r => rfl
  | none => simp [Request.left, encode_eq_encodeSlots hop hjoined hopen]

/-- What there is room for is copied out, and counted. -/
theorem fill_spec {e : Engine} (hflat : e.Flat) {id : Nat} {op : Operation}
    (hop : e.get? id = some op) (hjoined : e.Joined id)
    (hopen : ∀ m ∈ e.members id, e.isTerminal m = false) {room : Nat} (hroom : room ≠ 0) :
    (e.fill id room).2 = (e.outstanding id).take room ∧
      ∃ r, (e.fill id room).1.request? id = some r ∧ r.left = (e.outstanding id).drop room ∧
        (e.outstanding id ≠ [] → 0 < r.written) := by
  have hleft := requestOf_left hop hjoined hopen
  have hpiece : e.piece op room = (e.outstanding id).take room := by rw [piece, hleft]
  refine ⟨by rw [fill_snd hop, hpiece], _, request?_fill hflat hop room, ?_, fun hne => ?_⟩
  · rw [hpiece, ← hleft]
    simp only [Request.left, List.drop_drop, List.length_take]
    by_cases hle : room ≤ ((e.requestOf op).bytes.drop (e.requestOf op).written).length
    · rw [Nat.min_eq_left hle]
    · rw [Nat.min_eq_right (Nat.le_of_not_le hle), List.drop_eq_nil_of_le, List.drop_eq_nil_of_le]
      · rw [List.length_drop] at hle
        omega
      · rw [List.length_drop]
        omega
  · have hlen := List.length_pos_iff.2 hne
    rw [hpiece]
    simp only [List.length_take]
    omega

theorem unwritten_eq (e : Engine) (id : Nat) :
    e.unwritten id = ((e.request? id).map (·.left)).getD [] := rfl

end Engine

/-- Regrouping leaves the operations that exist as they are. -/
theorem Queue.Regrouped.same {q : Queue} {e e' : Engine} {family : BatchFamily} {n : Nat}
    (h : Regrouped q e family n e') {id : Nat} (hid : id < e.size) :
    e.Same e' id ∧ e'.request? id = e.request? id := by
  obtain ⟨hsame, hrequest⟩ := Engine.same_batch hid family .silent fun _ hm => h.isSingle hm
  have hget := h.get?_of_lt hid
  refine ⟨⟨?_, ?_, ?_⟩, ?_⟩
  · rw [Engine.nature?, hget, ← Engine.nature?, hsame.nature]
  · rw [Engine.isTerminal, hget, ← Engine.isTerminal, hsame.terminal]
  · rw [← hsame.heard, Engine.heardOf, Engine.heardOf, Reports.heard, Reports.heard, h.journal]
    rfl
  · rw [Engine.request?, hget, ← Engine.request?, hrequest]

theorem Queue.Regrouped.size_eq {q : Queue} {e e' : Engine} {family : BatchFamily} {n : Nat}
    (h : Regrouped q e family n e') : e'.size = e.size + 1 := by
  obtain ⟨multiplexer, idempotent, hbatch⟩ := Engine.batch_eq e family (q.writeQueue.take n) .silent
  obtain ⟨listener, hjoined⟩ := Engine.becomes_joined (e := e) .silent fun _ hm => h.isSingle hm
  have hsize := hjoined.size_eq
  rw [Engine.size, h.operations, hbatch]
  simpa [Engine.size, Engine.modify, Engine.add, Engine.freshTag] using hsize

/-- What is new is a batch. -/
theorem Queue.Regrouped.lt_size_of_isSingle {q : Queue} {e e' : Engine} {family : BatchFamily}
    {n : Nat} (h : Regrouped q e family n e') {x : Nat} (hx : e'.IsSingle x) : x < e.size := by
  have hlt : x < e'.size := Engine.lt_size_of_isSingle hx
  obtain ⟨n', c, hn', hc⟩ := hx
  obtain ⟨_, _, _, hbatch⟩ := h.get?_size
  have hne : x ≠ e.size := by
    rintro rfl
    rw [Engine.nature?_of_get? hbatch] at hn'
    cases hn'
    cases hc
  rw [h.size_eq] at hlt
  omega

theorem Queue.command?_of_fits {e : Engine} {family : BatchFamily} {id : Nat}
    (h : fits e family id = true) : ∃ c, e.command? id = some c ∧ c.family? = some family := by
  obtain ⟨op, hop, hfits⟩ := (Option.any_eq_true _ _).1 h
  simp only [Bool.and_eq_true, beq_iff_eq] at hfits
  cases hwork : op.work with
  | single c =>
    refine ⟨c, ?_, by simpa [hwork, Work.family?] using hfits.2⟩
    simp [Engine.command?, Engine.nature?, hop, Operation.nature, hwork, Work.command?]
  | batch b =>
    rw [hwork] at hfits
    cases hfits.2

namespace Transit

variable {server : Server} {accepted : List Nat} {p : Peer} {q : Queue} {e : Engine} {k : Course}

theorem isTerminal_of_mem_writeQueue (h : Transit server accepted p q e k) {id : Nat}
    (hid : id ∈ q.writeQueue) : e.isTerminal id = false :=
  h.receiving.waiting id (List.mem_append_right _ (List.mem_append_left _ hid))

/-- No member of a batch that has not been handed on has been answered. -/
theorem members_open (h : Transit server accepted p q e k) {id : Nat} (hid : id ∈ q.writeQueue) :
    ∀ m ∈ e.members id, e.isTerminal m = false := by
  intro m hm
  obtain ⟨rest, -, hback⟩ := h.ordered.read_slots
  refine h.receiving.unanswered m ?_
  rw [hback, owners_append]
  refine List.mem_append_right _ ?_
  cases hn : e.nature? id with
  | none => simp [Engine.members_eq_nature?, hn] at hm
  | some n =>
    cases hwork : n.work with
    | single c => simp [Engine.members_eq_nature?, hn, hwork, Work.members] at hm
    | batch b =>
      rw [← Engine.owners_slots_batch hn hwork] at hm
      obtain ⟨s, hs, howner⟩ := mem_owners.1 hm
      exact mem_owners.2 ⟨s, List.mem_flatMap.2 ⟨id, hid, hs⟩, howner⟩

theorem get?_of_mem_queues (h : Transit server accepted p q e k) {id : Nat}
    (hid : id ∈ q.readQueue ++ q.writeQueue) : ∃ op, e.get? id = some op :=
  Engine.get?_of_lt_size (h.custody.known id (mem_held_of_mem_queues hid))

/-! ## Making and submitting -/

theorem create (h : Transit server accepted p q e k) (command : Command) (callback : Callback) :
    Transit server accepted p q (e.create command callback).1 k := by
  have hsame : ∀ {id}, id < e.size → e.Same (e.create command callback).1 id ∧
      (e.create command callback).1.request? id = e.request? id := fun hid =>
    ⟨Engine.same_add hid _ _ callback, Engine.request?_add hid _ _ callback⟩
  refine h.congr (Engine.goes_create h.custody.sound command callback)
    (fun id hid => (hsame (h.custody.made id hid)).1) (fun id hid => (hsame (h.custody.known id hid)).1)
    (fun id hid => (hsame (h.custody.known id hid)).2) fun id hsingle hid => ?_
  have hget := Engine.get?_add e (.single command) command.kind.isIdempotent callback id
  by_cases hnew : id = e.size
  · rw [if_pos hnew] at hget
    exact Engine.request?_of_get? hget
  · rw [if_neg hnew] at hget
    have hold : e.IsSingle id := by
      obtain ⟨n, c, hn, hc⟩ := hsingle
      refine ⟨n, c, ?_, hc⟩
      rw [Engine.nature?, ← hget]
      exact hn
    have hnone := h.sending.untouched id hold hid
    rw [Engine.request?] at hnone ⊢
    rw [← hnone]
    exact congrArg (·.bind (·.request)) hget

/-- An operation that is turned away is cancelled. -/
theorem refuse (h : Transit server accepted p q e k) {id : Nat} (hsingle : e.IsSingle id)
    (hid : id ∉ accepted) (cause : String) :
    Transit server accepted p q (e.cancel id cause).1 k := by
  have hne : ∀ {j}, j ∈ accepted ∨ j ∈ q.held e → j ≠ id := by
    rintro j hj rfl
    exact hid (hj.elim (fun hj => hj) fun hj => h.custody.owned j hj hsingle)
  have hsame : ∀ {j}, j ≠ id → _ := fun hj => Engine.same_cancel_of_ne hsingle cause hj
  have hgoes := (Engine.goes_cancel h.custody.sound id cause).1
  refine h.congr hgoes (fun j hj => (hsame (hne (.inl hj))).1) (fun j hj => (hsame (hne (.inr hj))).1)
    (fun j hj => (hsame (hne (.inr hj))).2) fun j hj hnot => ?_
  by_cases hji : j = id
  · rw [hji]
    exact Engine.request?_cancel hsingle cause (h.sending.untouched id hsingle hid)
  · rw [(hsame hji).2]
    refine h.sending.untouched j ?_ hnot
    rwa [Engine.IsSingle, ← (hsame hji).1.nature]

theorem submit (h : Transit server accepted p q e k) {id : Nat} (hsingle : e.IsSingle id)
    (hid : id ∉ accepted) (hopen : e.isTerminal id = false) {c : Command}
    (hc : e.command? id = some c) (hfits : c.Fits) :
    Transit server (id :: accepted) p { q with input := q.input ++ [id] } e k := by
  obtain ⟨hcustody, ho, hs, hr⟩ := h
  have hpast : ∀ {x}, x ∈ accepted → e.past (id :: accepted) x = e.past accepted x :=
    Engine.past_cons
  refine ⟨Queue.custody_submit hcustody hsingle hid, ?_, ?_, ?_⟩
  · refine ⟨List.nodup_cons.2 ⟨hid, ho.nodup⟩, fun x hx => ?_, ?_, ho.slots, ho.heading, ho.joined,
      ho.plain⟩
    · rcases List.mem_cons.1 hx with rfl | hx
      · exact ⟨c, hc, hfits⟩
      · exact ho.fits x hx
    · rw [List.reverse_cons, ho.order]
      simp only [List.append_assoc]
  · refine ⟨hs.bytes, hs.begun, hs.head, fun x hx => ?_, fun x hx hnot => ?_⟩
    · rw [← List.append_assoc] at hx
      rcases List.mem_append.1 hx with hx | hx
      · exact hs.fresh x hx
      · rw [List.mem_singleton.1 hx]
        exact hs.untouched id hsingle hid
    · exact hs.untouched x hx fun hmem => hnot (List.mem_cons_of_mem _ hmem)
  · have howner : ∀ {s x}, s ∈ k.slots → s.owner = some x → x ∈ accepted := fun hs hx =>
      ho.mem_accepted_of_owner (mem_owners.2 ⟨_, hs, hx⟩)
    refine ⟨hr.bytes, fun t ht => ?_, hr.past, hr.done, fun x hx => ?_, hr.unanswered,
      fun s hs x hx hopen => ?_, fun x hx hend => ?_⟩
    · obtain ⟨past, hreply, heq⟩ := hr.replies t ht
      refine ⟨past, hreply, fun x hx => ?_⟩
      have hslot : t.slot ∈ k.slots :=
        List.mem_append_right _ (List.mem_append_left _ (List.mem_map.2 ⟨t, ht, rfl⟩))
      rw [hpast (howner hslot hx), heq x hx]
    · rcases List.mem_append.1 hx with hx | hx
      · rcases List.mem_append.1 hx with hx | hx
        · exact hr.waiting x (List.mem_append_left _ hx)
        · rwa [List.mem_singleton.1 hx]
      · exact hr.waiting x (List.mem_append_right _ hx)
    · rw [hpast (howner (List.mem_append_left _ hs) hx)]
      exact hr.silent s hs x hx hopen
    · rcases List.mem_cons.1 hx with rfl | hx
      · rw [hopen] at hend
        cases hend
      · rw [Engine.Tells, hpast hx]
        exact hr.answered x hx hend

/-! ## Taking submissions in -/

/-- If nothing has been cancelled, nothing is dropped. -/
theorem takeInput_eq {e : Engine} : ∀ {input : List Nat} (room : Nat),
    (∀ id ∈ input, e.isCancelled id = false) →
      (Queue.takeInput e room input).1 ++ (Queue.takeInput e room input).2 = input
  | input, 0, _ => by simp [Queue.takeInput]
  | [], room + 1, _ => by simp [Queue.takeInput]
  | id :: rest, room + 1, h => by
    have hrest := takeInput_eq room fun x hx => h x (List.mem_cons_of_mem id hx)
    have hid := h id List.mem_cons_self
    simp [Queue.takeInput, hid, hrest]

theorem isCancelled_of_open {e : Engine} {id : Nat} (h : e.isTerminal id = false) :
    e.isCancelled id = false := by
  cases hc : e.isCancelled id with
  | false => rfl
  | true =>
    rw [Queue.isTerminal_of_isCancelled hc] at h
    cases h

theorem copyInput (h : Transit server accepted p q e k) :
    ∃ k', Transit server accepted p (q.copyInput e).1 e k' := by
  obtain ⟨hcustody, ho, hs, hr⟩ := h
  let room := q.settings.writeQueueCapacity - q.writeQueue.length
  let taken := (Queue.takeInput e room q.input).1
  let left := (Queue.takeInput e room q.input).2
  have hinput : taken ++ left = q.input := takeInput_eq room fun id hid =>
    isCancelled_of_open (hr.waiting id (List.mem_append_left _ hid))
  have htaken : ∀ id ∈ taken, id ∈ q.input := fun id hid => hinput ▸ List.mem_append_left _ hid
  have hleft : ∀ id ∈ left, id ∈ q.input := fun id hid => hinput ▸ List.mem_append_right _ hid
  have hsingle : ∀ id ∈ taken, e.IsSingle id := fun id hid => hcustody.input id (htaken id hid)
  have hnone : ∀ id ∈ taken, e.request? id = none := fun id hid =>
    hs.fresh id (List.mem_append_right _ (htaken id hid))
  have howners : owners (taken.flatMap e.slots) = taken := Engine.owners_flatMap_slots hsingle
  have hcopied := Queue.custody_copyInput hcustody
  have hcopy : (q.copyInput e).1 = { q with writeQueue := q.writeQueue ++ taken, input := left } := rfl
  rw [hcopy] at hcopied ⊢
  refine ⟨k.await (taken.flatMap e.slots), hcopied, ?_, ?_, ?_⟩
  · refine ⟨ho.nodup, ho.fits, ?_, ?_, ho.heading, fun id hid => ?_, fun hplain id hid => ?_⟩
    · rw [Course.slots_await, owners_append, howners, ho.order, ← hinput]
      simp only [List.append_assoc]
      rfl
    · dsimp only
      rw [Course.slots_await, ← ho.slots, ← List.flatMap_append, ← List.append_assoc]
    · dsimp only at hid
      rw [← List.append_assoc] at hid
      rcases List.mem_append.1 hid with hid | hid
      · exact ho.joined id hid
      · exact Engine.joined_of_isSingle (hsingle id hid)
    · rcases List.mem_append.1 hid with hid | hid
      · exact ho.plain hplain id hid
      · exact hsingle id hid
  · refine ⟨?_, hs.begun, fun id rest r hq hreq => ?_, fun id hid => ?_, hs.untouched⟩
    · change p.begun ++ (q.writeBuffer ++ (q.writeQueue ++ taken).flatMap e.outstanding) =
        encodeSlots (k.unsent ++ taken.flatMap e.slots)
      rw [List.flatMap_append, Engine.flatMap_outstanding hnone, encodeSlots_append, ← hs.bytes]
      simp only [List.append_assoc]
    · change q.writeQueue ++ taken = id :: rest at hq
      cases hw : q.writeQueue with
      | nil =>
        rw [hw, List.nil_append] at hq
        rw [hnone id (hq ▸ List.mem_cons_self)] at hreq
        cases hreq
      | cons head tail =>
        rw [hw, List.cons_append, List.cons.injEq] at hq
        exact hs.head id tail r (hq.1 ▸ hw) hreq
    · change id ∈ (q.writeQueue ++ taken).tail ++ left at hid
      rcases List.mem_append.1 hid with hid | hid
      · cases hw : q.writeQueue with
        | nil =>
          rw [hw, List.nil_append] at hid
          exact hnone id (List.mem_of_mem_tail hid)
        | cons head tail =>
          rw [hw, List.cons_append, List.tail_cons] at hid
          rcases List.mem_append.1 hid with hid | hid
          · exact hs.fresh id (by rw [hw]; exact List.mem_append_left _ hid)
          · exact hnone id hid
      · exact hs.fresh id (List.mem_append_right _ (hleft id hid))
  · refine ⟨hr.bytes, hr.replies, hr.past, hr.done, fun id hid => ?_, fun id hid => ?_, hr.silent,
      hr.answered⟩
    · change id ∈ left ++ ((q.writeQueue ++ taken) ++ q.readQueue) at hid
      refine hr.waiting id ?_
      simp only [Queue.line, List.mem_append] at hid ⊢
      rcases hid with hid | (hid | hid) | hid
      · exact .inl (hleft id hid)
      · exact .inr (.inl hid)
      · exact .inl (htaken id hid)
      · exact .inr (.inr hid)
    · change id ∈ owners (k.served ++ (k.unsent ++ taken.flatMap e.slots)) at hid
      rw [← List.append_assoc, owners_append, howners] at hid
      rcases List.mem_append.1 hid with hid | hid
      · exact hr.unanswered id hid
      · exact hr.waiting id (List.mem_append_left _ (htaken id hid))

/-! ## Packing -/

/-- A run at the front that has not begun to be written may go as a batch. -/
theorem join (h : Transit server accepted p q e k) {batch n : Nat} {nature : Nature} {b : Batch}
    (hn : e.nature? batch = some nature) (hb : nature.work = .batch b)
    (hmembers : b.members = q.writeQueue.take n) (hsome : n ≠ 0)
    (hfamily : ∀ m ∈ b.members, ∃ c, e.command? m = some c ∧ c.family? = some b.family)
    (hsingle : ∀ m ∈ b.members, e.IsSingle m) (hopen : e.isTerminal batch = false)
    (hnew : e.request? batch = none) (hnone : ∀ id ∈ q.writeQueue, e.request? id = none)
    (hopt : q.settings.optimize = true)
    (hcustody : Queue.Custody accepted { q with writeQueue := batch :: q.writeQueue.drop n } e) :
    ∃ k', Transit server accepted p { q with writeQueue := batch :: q.writeQueue.drop n } e k' := by
  obtain ⟨-, ho, hs, hr⟩ := h
  have hdrop : ∀ id ∈ q.writeQueue.drop n, id ∈ q.writeQueue.tail := fun id hid => by
    obtain ⟨m, rfl⟩ := Nat.exists_eq_succ_of_ne_zero hsome
    have htail : q.writeQueue.drop (m + 1) = q.writeQueue.tail.drop m := by
      rw [← List.drop_one, List.drop_drop, Nat.add_comm]
    rw [htail] at hid
    exact List.mem_of_mem_drop hid
  have hwhole : k.slots = (k.answered ++ k.served) ++ k.unsent := (List.append_assoc ..).symm
  have hqueues : k.slots = q.readQueue.flatMap e.slots ++ q.writeQueue.flatMap e.slots := by
    rw [← ho.slots, List.flatMap_append]
  have hbytes := hs.bytes
  rw [Engine.flatMap_outstanding hnone] at hbytes
  obtain ⟨front, hfront⟩ := suffix_of_length_encodeSlots hwhole hqueues (by
    rw [← hbytes]
    simp only [List.length_append]
    omega)
  have hread : q.readQueue.flatMap e.slots = (k.answered ++ k.served) ++ front := by
    rw [hwhole, hfront, ← List.append_assoc] at hqueues
    exact (List.append_cancel_right hqueues).symm
  have hbatch : owners (e.slots batch) = q.writeQueue.take n := by
    rw [Engine.owners_slots_batch hn hb, Engine.members_of_nature? hn, hb]
    exact hmembers
  have howners : owners (e.slots batch ++ (q.writeQueue.drop n).flatMap e.slots) =
      owners (q.writeQueue.flatMap e.slots) := by
    rw [owners_append, hbatch, ← Engine.owners_flatMap_slots fun id hid => hsingle id (hmembers ▸ hid),
      ← owners_append, ← List.flatMap_append, List.take_append_drop]
  refine ⟨{ k with unsent := front ++ (e.slots batch ++ (q.writeQueue.drop n).flatMap e.slots) },
    hcustody, ?_, ?_, ?_⟩
  · refine ⟨ho.nodup, ho.fits, ?_, ?_, ho.heading, fun id hid => ?_, fun hplain => ?_⟩
    · rw [ho.order]
      simp only [Course.slots, hfront, owners_append, Course.served] at howners ⊢
      rw [howners]
    · rw [List.flatMap_append, List.flatMap_cons, hread]
      simp only [Course.slots, List.append_assoc, Course.served]
    · rcases List.mem_append.1 hid with hid | hid
      · exact ho.joined id (List.mem_append_left _ hid)
      · rcases List.mem_cons.1 hid with rfl | hid
        · intro n' b' hn' hb' m hm
          rw [hn] at hn'
          cases hn'
          rw [hb] at hb'
          cases hb'
          exact hfamily m hm
        · exact ho.joined id (List.mem_append_right _ (List.mem_of_mem_drop hid))
    · rw [hopt] at hplain
      cases hplain
  · refine ⟨?_, hs.begun, fun id rest r hq hreq => ?_, fun id hid => ?_, hs.untouched⟩
    · rw [hfront, encodeSlots_append, ← List.append_assoc] at hbytes
      have hready := List.append_cancel_right hbytes
      rw [List.flatMap_cons, Engine.outstanding_of_none hnew,
        Engine.flatMap_outstanding fun id hid => hnone id (List.mem_of_mem_drop hid)]
      simp only [encodeSlots_append, ← hready, List.append_assoc]
    · cases hq
      rw [hnew] at hreq
      cases hreq
    · refine hs.fresh id ?_
      rcases List.mem_append.1 hid with hid | hid
      · exact List.mem_append_left _ (hdrop id hid)
      · exact List.mem_append_right _ hid
  · refine ⟨hr.bytes, hr.replies, hr.past, hr.done, fun id hid => ?_, fun id hid => ?_, hr.silent,
      hr.answered⟩
    · simp only [Queue.line, List.mem_append, List.mem_cons] at hid
      rcases hid with hid | (rfl | hid) | hid
      · exact hr.waiting id (List.mem_append_left _ hid)
      · exact hopen
      · exact hr.waiting id (List.mem_append_right _ (List.mem_append_left _ (List.mem_of_mem_drop hid)))
      · exact hr.waiting id (List.mem_append_right _ (List.mem_append_right _ hid))
    · refine hr.unanswered id ?_
      rw [hfront]
      simp only [Course.served, owners_append] at hid howners ⊢
      rwa [howners] at hid

theorem optimize (h : Transit server accepted p q e k) {id : Nat} {rest : List Nat}
    (hq : q.writeQueue = id :: rest) (hopt : q.settings.optimize = true)
    (hstarted : Queue.isStarted e id = false) :
    ∃ k', Transit server accepted p (q.optimize e).1 (q.optimize e).2 k' := by
  have hcustody := Queue.custody_optimize h.custody
  rcases Queue.optimize_cases q e with heq | ⟨family, n, e', hregrouped, heq⟩
  · rw [heq]
    exact ⟨k, h⟩
  rw [heq] at hcustody ⊢
  obtain ⟨tag, multiplexer, idempotent, hbatch⟩ := hregrouped.get?_size
  have hmoved : Transit server accepted p q e' k := by
    refine h.congr (hregrouped.goes h.custody.sound)
      (fun x hx => (hregrouped.same (h.custody.made x hx)).1)
      (fun x hx => (hregrouped.same (h.custody.known x hx)).1)
      (fun x hx => (hregrouped.same (h.custody.known x hx)).2) fun x hx hnot => ?_
    obtain ⟨hsame, hrequest⟩ := hregrouped.same (hregrouped.lt_size_of_isSingle hx)
    rw [hrequest]
    refine h.sending.untouched x ?_ hnot
    rwa [Engine.IsSingle, ← hsame.nature]
  have hnone : ∀ x ∈ q.writeQueue, e'.request? x = none := fun x hx => by
    have hmem := hx
    rw [hq] at hx
    rcases List.mem_cons.1 hx with rfl | hx
    · have hsize := h.custody.known x (mem_held_of_mem_queues (List.mem_append_right _ hmem))
      rw [(hregrouped.same hsize).2]
      cases hr : e.request? x with
      | none => rfl
      | some r =>
        obtain ⟨hwritten, -⟩ := h.sending.head x rest r hq hr
        simp [Engine.isStarted_eq, hr, Nat.ne_of_gt hwritten] at hstarted
    · exact hmoved.sending.fresh x (by rw [hq]; exact List.mem_append_left _ hx)
  have hmember : ∀ m ∈ q.writeQueue.take n, e.Same e' m := fun m hm => (hregrouped.same
    (h.custody.known m (mem_held_of_mem_queues
      (List.mem_append_right _ (List.mem_of_mem_take hm))))).1
  have hnature : e'.nature? e.size = some ⟨tag, .batch ⟨family, q.writeQueue.take n, multiplexer⟩,
      idempotent, .silent⟩ := Engine.nature?_of_get? hbatch
  refine hmoved.join hnature rfl rfl ?_ (fun m hm => ?_) (fun m hm => ?_) ?_ ?_ hnone hopt hcustody
  · have := hregrouped.two_le
    omega
  · rw [(hmember m hm).command?_eq]
    exact Queue.command?_of_fits (hregrouped.fits m hm)
  · rw [Engine.IsSingle, (hmember m hm).nature]
    exact hregrouped.isSingle hm
  · rw [Engine.isTerminal, hbatch]
    rfl
  · rw [Engine.request?, hbatch]
    rfl

/-- The head has been written as far as there was room, and nothing else has happened. -/
structure Filled (server : Server) (accepted : List Nat) (p : Peer) (q : Queue) (e : Engine)
    (k : Course) (id : Nat) (rest : List Nat) (copied : Bytes) : Prop where
  sound : e.Sound
  head : q.writeQueue = id :: rest
  held : id ∈ accepted ∨ ¬ e.IsSingle id
  notBehind : id ∉ rest ++ q.input
  ordered : Ordered accepted q e k
  receiving : Receiving server accepted p q e k
  begun : Frame.parse Wire.requestMagic p.begun = .incomplete
  started : ∃ r, e.request? id = some r ∧ 0 < r.written
  behind : ∀ x ∈ rest ++ q.input, e.request? x = none
  untouched : ∀ x, e.IsSingle x → x ∉ accepted → e.request? x = none
  bytes : p.begun ++ ((q.writeBuffer ++ copied) ++ q.writeQueue.flatMap e.outstanding) =
    encodeSlots k.unsent

theorem outstanding_ne_nil (h : Transit server accepted p q e k) {id : Nat} {rest : List Nat}
    (hq : q.writeQueue = id :: rest) : e.outstanding id ≠ [] := by
  obtain ⟨op, hop⟩ := h.get?_of_mem_queues (List.mem_append_right _ (hq ▸ List.mem_cons_self))
  cases hreq : e.request? id with
  | none =>
    rw [Engine.outstanding_of_none hreq, ne_eq, encodeSlots_eq_nil]
    intro hnil
    have hn := Engine.nature?_of_get? hop
    cases hwork : op.work with
    | single c => rw [Engine.slots_single hn hwork] at hnil; cases hnil
    | batch b => simp [Engine.slots_batch hn hwork] at hnil
  | some r =>
    rw [Engine.outstanding, hreq]
    exact (h.sending.head id rest r hq hreq).2

theorem fill (h : Transit server accepted p q e k) {id : Nat} {rest : List Nat}
    (hq : q.writeQueue = id :: rest) {room : Nat} (hroom : room ≠ 0) :
    Filled server accepted p q (e.fill id room).1 k id rest (e.fill id room).2 := by
  have hid : id ∈ q.writeQueue := hq ▸ List.mem_cons_self
  have hheld := mem_held_of_mem_queues (q := q) (e := e) (List.mem_append_right _ hid)
  have hgoes := Engine.goes_fill h.custody.sound id room
  have hflat := h.custody.sound.flat
  obtain ⟨op, hop⟩ := h.get?_of_mem_queues (List.mem_append_right _ hid)
  obtain ⟨hcopied, r, hr, hleft, hwritten⟩ := Engine.fill_spec hflat hop
    (h.ordered.joined id (List.mem_append_right _ hid)) (h.members_open hid) hroom
  have hsame : ∀ x, e.Same (e.fill id room).1 x := Engine.same_fill hflat id room
  have hsingle : ∀ x, (e.fill id room).1.IsSingle x ↔ e.IsSingle x := fun x => by
    rw [Engine.IsSingle, (hsame x).nature, ← Engine.IsSingle]
  have hother : ∀ x, x ≠ id → (e.fill id room).1.request? x = e.request? x := fun x hx =>
    Engine.request?_fill_of_ne hflat hx room
  have hnot := h.custody.not_mem_behind hq
  have hbehind : ∀ x ∈ rest ++ q.input, (e.fill id room).1.request? x = none := fun x hx => by
    rw [hother x (ne_of_mem_of_not_mem hx hnot)]
    exact h.sending.fresh x (by rwa [hq])
  refine ⟨hgoes.sound, hq, ?_, hnot, h.ordered.congr (fun x _ => (hsame x).nature)
    fun x _ => (hsame x).nature, h.receiving.congr h.ordered (fun x _ => hsame x) fun x _ => hsame x,
    h.sending.begun, ⟨r, hr, hwritten (h.outstanding_ne_nil hq)⟩, hbehind, fun x hx hnew => ?_, ?_⟩
  · rw [hsingle]
    exact (em (e.IsSingle id)).imp_left (h.custody.owned id hheld)
  · rw [hsingle] at hx
    rw [hother x fun hxid => hnew (h.custody.owned x (hxid ▸ hheld) hx)]
    exact h.sending.untouched x hx hnew
  · have hrest : rest.flatMap (e.fill id room).1.outstanding = rest.flatMap e.outstanding := by
      rw [Engine.flatMap_outstanding fun x hx => hbehind x (List.mem_append_left _ hx),
        Engine.flatMap_outstanding fun x hx => h.sending.fresh x (by
          rw [hq]
          exact List.mem_append_left _ hx)]
      rw [flatMap_slots_congr (q := q) (fun x _ => (hsame x).nature) fun x hx => ?_]
      rw [hq]
      exact List.mem_append_right _ (List.mem_cons_of_mem _ hx)
    have hhead : (e.fill id room).1.outstanding id = (e.outstanding id).drop room := by
      rw [Engine.outstanding, hr]
      exact hleft
    rw [← h.sending.bytes, hq, List.flatMap_cons, List.flatMap_cons, hrest, hhead, hcopied]
    conv => rhs; rw [← List.take_append_drop room (e.outstanding id)]
    simp only [List.append_assoc]

namespace Filled

variable {id : Nat} {rest : List Nat} {copied : Bytes}

/-- Some of it is left, so the head stays where it is. -/
theorem stay (h : Filled server accepted p q e k id rest copied) (hleft : e.unwritten id ≠ [])
    (hcustody : Queue.Custody accepted { q with writeBuffer := q.writeBuffer ++ copied } e) :
    Transit server accepted p { q with writeBuffer := q.writeBuffer ++ copied } e k := by
  obtain ⟨r, hr, hwritten⟩ := h.started
  refine ⟨hcustody, h.ordered.requeue rfl (fun _ rest hq => ⟨rest, hq⟩) (fun _ hx => hx) rfl rfl,
    ⟨h.bytes, h.begun, fun x rest' r' hx hr' => ?_, ?_, h.untouched⟩,
    h.receiving.requeue rfl fun _ hx => hx⟩
  · rw [h.head] at hx
    cases hx
    rw [hr] at hr'
    cases hr'
    refine ⟨hwritten, fun hnil => hleft ?_⟩
    rw [Engine.unwritten_eq, hr]
    exact hnil
  · rw [h.head]
    exact h.behind

/-- Nothing of it is left, and it goes on to wait for its responses. -/
theorem handOn (h : Filled server accepted p q e k id rest copied) (hleft : e.unwritten id = [])
    (hcustody : Queue.Custody accepted { q with
      writeQueue := rest, readQueue := q.readQueue ++ [id]
      writeBuffer := q.writeBuffer ++ copied } (e.finishWriting id)) :
    Transit server accepted p { q with
      writeQueue := rest, readQueue := q.readQueue ++ [id]
      writeBuffer := q.writeBuffer ++ copied } (e.finishWriting id) k := by
  have hflat := h.sound.flat
  have hsame : ∀ x, e.Same (e.finishWriting id) x := Engine.same_finishWriting hflat id
  have hsingle : ∀ x, (e.finishWriting id).IsSingle x ↔ e.IsSingle x := fun x => by
    rw [Engine.IsSingle, (hsame x).nature, ← Engine.IsSingle]
  have hbehind : ∀ x ∈ rest ++ q.input, (e.finishWriting id).request? x = none := fun x hx => by
    rw [Engine.request?_finishWriting_of_ne hflat (ne_of_mem_of_not_mem hx h.notBehind)]
    exact h.behind x hx
  refine ⟨hcustody, ?_, ⟨?_, h.begun, fun x rest' r' hx hr' => ?_, fun x hx => ?_,
    fun x hx hnew => ?_⟩, ?_⟩
  · refine (h.ordered.congr (fun x _ => (hsame x).nature) fun x _ => (hsame x).nature).requeue ?_
      (fun x rest' hx => ⟨rest' ++ [id], by rw [hx]; rfl⟩) (fun x hx => ?_) rfl rfl
    · simp [h.head]
    · rw [h.head]
      exact List.mem_cons_of_mem _ hx
  · obtain ⟨r, hr, -⟩ := h.started
    have hnil : e.outstanding id = [] := by
      rw [Engine.unwritten_eq, hr] at hleft
      rw [Engine.outstanding, hr]
      exact hleft
    have hbytes := h.bytes
    rw [h.head, List.flatMap_cons, hnil, List.nil_append,
      Engine.flatMap_outstanding fun x hx => h.behind x (List.mem_append_left _ hx)] at hbytes
    rw [Engine.flatMap_outstanding fun x hx => hbehind x (List.mem_append_left _ hx), ← hbytes,
      flatMap_slots_congr (q := q) (fun x _ => (hsame x).nature) fun x hx => ?_]
    rw [h.head]
    exact List.mem_append_right _ (List.mem_cons_of_mem _ hx)
  · change rest = x :: rest' at hx
    rw [hbehind x (List.mem_append_left _ (hx ▸ List.mem_cons_self))] at hr'
    cases hr'
  · refine hbehind x ?_
    rcases List.mem_append.1 hx with hx | hx
    · exact List.mem_append_left _ (List.mem_of_mem_tail hx)
    · exact List.mem_append_right _ hx
  · rw [hsingle] at hx
    have hxid : x ≠ id := by
      rintro rfl
      exact h.held.elim hnew fun hbatch => hbatch hx
    rw [Engine.request?_finishWriting_of_ne hflat hxid]
    exact h.untouched x hx hnew
  · refine (h.receiving.congr h.ordered (fun x _ => hsame x) fun x _ => hsame x).requeue rfl ?_
    intro x hx
    simp only [Queue.line, h.head, List.mem_append, List.mem_cons, List.not_mem_nil,
      or_false] at hx ⊢
    rcases hx with hx | hx | hx | hx
    · exact .inl hx
    · exact .inr (.inl (.inr hx))
    · exact .inr (.inr hx)
    · exact .inr (.inl (.inl hx))

end Filled

/-- One round of packing. -/
theorem packing {q' : Queue} {e' : Engine} (hstep : Queue.Packing q e q' e')
    (h : ∃ k, Transit server accepted p q e k) : ∃ k', Transit server accepted p q' e' k' := by
  obtain ⟨k, h⟩ := h
  have hcustody := Queue.custody_packing hstep h.custody
  cases hstep with
  | @drop id rest hq hstarted hcancelled =>
    have hopen := h.isTerminal_of_mem_writeQueue (hq ▸ List.mem_cons_self)
    rw [Queue.isTerminal_of_isCancelled hcancelled] at hopen
    cases hopen
  | @regroup id rest hq hdue =>
    rcases Queue.regroup_cases q e id with heq | ⟨⟨hopt, hstarted⟩, heq⟩
    · rw [heq]
      exact ⟨k, h⟩
    · rw [heq]
      exact h.optimize hq hopt hstarted
  | @fill id rest hq hdue hroom hleft =>
    exact ⟨k, (h.fill hq (Nat.sub_ne_zero_of_lt hroom)).stay hleft hcustody⟩
  | @handOn id rest hq hdue hroom hleft =>
    exact ⟨k, (h.fill hq (Nat.sub_ne_zero_of_lt hroom)).handOn hleft hcustody⟩

theorem pack (h : Transit server accepted p q e k) :
    ∃ k', Transit server accepted p (q.pack e).1 (q.pack e).2 k' :=
  Queue.pack_induction (P := fun q e => ∃ k, Transit server accepted p q e k)
    (fun hstep h => packing hstep h) q e ⟨k, h⟩

/-! ## The server answers -/

theorem record_of_describes {s : Slot} (h : e.Describes s) (ids : List Nat) :
    Server.record (e.asked ids) s.frame = e.asked (ids ++ s.owner.toList) := by
  rw [Engine.asked_append, Server.record]
  cases howner : s.owner with
  | none =>
    obtain ⟨tag, hframe⟩ := Engine.describes_none h howner
    have hnoOp : s.frame.isNoOp = true := by rw [hframe]; rfl
    rw [if_pos hnoOp]
    exact (List.append_nil _).symm
  | some id =>
    obtain ⟨n, c, hn, hc, -, hloud⟩ := Engine.describes_some h howner
    have hcommand : e.command? id = some c := by simp [Engine.command?, hn, hc, Work.command?]
    rw [← Frame.isNoOp_loud, hloud]
    cases hnoOp : (c.request 0).isNoOp <;> simp [Engine.asked, hcommand, hnoOp]

/-- Each response depends on just the requests before. -/
theorem serve_slots (hnodup : accepted.Nodup) : ∀ {slots : List Slot} {before after : List Nat},
    accepted.reverse = before ++ (owners slots ++ after) → (∀ s ∈ slots, e.Describes s) →
      ∃ turns : List Turn, turns.map (·.slot) = slots ∧
        server.serve (e.asked before) (slots.map (·.frame)) =
          (e.asked (before ++ owners slots), turns.map (·.reply)) ∧
        ∀ t ∈ turns, ∃ past, t.reply = server.reply? past t.slot.frame ∧
          ∀ id, t.slot.owner = some id → past = e.past accepted id
  | [], before, after, _, _ => ⟨[], rfl, by simp [Server.serve], by simp⟩
  | s :: slots, before, after, horder, hdescribes => by
    have hs := hdescribes s List.mem_cons_self
    have howners : owners (s :: slots) = s.owner.toList ++ owners slots := by
      unfold owners
      cases howner : s.owner <;> simp [howner]
    rw [howners, List.append_assoc, ← List.append_assoc before] at horder
    obtain ⟨turns, hslots, hserve, hreplies⟩ := serve_slots hnodup horder fun t ht =>
      hdescribes t (List.mem_cons_of_mem s ht)
    refine ⟨⟨s, server.reply? (e.asked before) s.frame⟩ :: turns, by rw [List.map_cons, hslots], ?_,
      fun t ht => ?_⟩
    · rw [List.map_cons, Server.serve, record_of_describes hs, hserve, howners, List.append_assoc]
      rfl
    · rcases List.mem_cons.1 ht with rfl | ht
      · refine ⟨_, rfl, fun id hid => ?_⟩
        rw [hid, Option.toList_some, List.append_assoc] at horder
        exact (Engine.past_eq horder hnodup).symm
      · exact hreplies t ht

theorem take (h : Transit server accepted p q e k) (n : Nat) :
    ∃ k', Transit server accepted (p.receive server (q.takeWritten n).2) (q.takeWritten n).1 e k' := by
  obtain ⟨hcustody, ho, hs, hr⟩ := h
  have hflat := hcustody.sound.flat
  have hstream : (p.begun ++ q.writeBuffer.take n) ++
      (q.writeBuffer.drop n ++ q.writeQueue.flatMap e.outstanding) =
        Frame.encodeAll (k.unsent.map (·.frame)) := by
    refine Eq.trans ?_ hs.bytes
    conv => rhs; rw [← List.take_append_drop n q.writeBuffer]
    simp only [List.append_assoc]
  have hmem : ∀ s ∈ k.unsent, s ∈ k.slots := fun s hs =>
    List.mem_append_right _ (List.mem_append_right _ hs)
  have hreadable : ∀ f ∈ k.unsent.map (·.frame), f.Readable Wire.requestMagic := fun f hf => by
    obtain ⟨s, hs, rfl⟩ := List.mem_map.1 hf
    exact ho.readable hflat (hmem s hs)
  obtain ⟨read, unread, hsplit, hfound, hleft, hidle⟩ := Frame.drain_stream hreadable hstream
  obtain ⟨seen, unseen, hunsent, rfl, rfl⟩ := List.map_eq_append_iff.1 hsplit
  have horder : accepted.reverse = (k.done ++ owners (k.answered ++ k.served)) ++
      (owners seen ++ (owners unseen ++ q.input)) := by
    rw [ho.order, Course.slots, hunsent]
    simp only [owners_append, List.append_assoc]
  obtain ⟨turns, hturns, hserve, hreplies⟩ := @serve_slots server accepted e ho.nodup _ _ _ horder
    fun s hs => ho.describes hflat (hmem s (hunsent ▸ List.mem_append_left _ hs))
  rw [← hr.past] at hserve
  have hreceive : p.receive server (q.takeWritten n).2 =
      { begun := (Frame.drain Wire.requestMagic (p.begun ++ q.writeBuffer.take n)).2
        past := e.asked ((k.done ++ owners (k.answered ++ k.served)) ++ owners seen)
        outbox := p.outbox ++ Frame.encodeAll ((turns.map (·.reply)).filterMap id) } := by
    have hread : ((seen.map (·.frame)).map Except.ok).filterMap
        (Except.toOption (ε := Wire.FrameFault)) = seen.map (·.frame) := by
      simp [List.filterMap_map, Function.comp_def, Except.toOption]
    simp only [Peer.receive, Queue.takeWritten, hfound, hread, hserve]
  have hslots : k.slots = k.answered ++ ((k.underWay ++ turns).map (·.slot) ++ unseen) := by
    rw [Course.slots, Course.served, hunsent, List.map_append, hturns]
    simp only [List.append_assoc]
  rw [hreceive]
  refine ⟨{ k with underWay := k.underWay ++ turns, unsent := unseen },
    hcustody.goes (Engine.Goes.refl hcustody.sound) rfl rfl, ?_, ?_, ?_⟩
  · refine ⟨ho.nodup, ho.fits, ?_, ho.slots.trans hslots, ho.heading, ho.joined, ho.plain⟩
    rw [ho.order, hslots]
    rfl
  · exact ⟨hleft, hidle, hs.head, hs.fresh, hs.untouched⟩
  · refine ⟨?_, fun t ht => ?_, ?_, hr.done, hr.waiting, fun id hid => ?_, hr.silent, hr.answered⟩
    · change q.readBuffer ++ (p.outbox ++ _) = _
      rw [← List.append_assoc, hr.bytes, ← Frame.encodeAll_append]
      simp [Course.replies, List.filterMap_map]
    · rcases List.mem_append.1 ht with ht | ht
      · exact hr.replies t ht
      · exact hreplies t ht
    · simp only [Course.served, List.map_append, hturns, owners_append, List.append_assoc]
    · refine hr.unanswered id ?_
      rw [hunsent, Course.served]
      simpa only [Course.served, List.map_append, hturns, List.append_assoc] using hid

end Transit

end ShardedCache

import ShardedCache.Proofs.Node.Response
import ShardedCache.Proofs.Node.Sending

/-!
# On the way back

Responses arrive in the order of the requests that they answer, so each is for the operation at the
head of the read queue, unless the read queue is empty: then its operation is a batch of which the
server has seen a beginning, and that is still in the write queue. Processing faults in just that
case (`Transit.process`).
-/

namespace ShardedCache

open Wire (Frame)

/-! ## Who is held apart from whom -/

namespace Queue

variable {accepted : List Nat} {q : Queue} {e : Engine}

/-- Members of a batch do not wait in the queues themselves. -/
theorem Custody.not_mem_members (h : Custody accepted q e) {x id : Nat} (hx : x ∈ q.line)
    (hid : id ∈ q.writeQueue ++ q.readQueue) : x ∉ e.members id := fun hm =>
  (List.nodup_append.1 h.nodup).2.2 x hx x (List.mem_flatMap.2 ⟨id, hid, hm⟩) rfl

/-- The head of the read queue waits nowhere else. -/
theorem Custody.ne_of_mem_line (h : Custody accepted q e) {id : Nat} {waiting : List Nat}
    (hq : q.readQueue = id :: waiting) {x : Nat} (hx : x ∈ q.input ++ (q.writeQueue ++ waiting)) :
    x ≠ id := by
  have hline : q.line.Nodup := (List.nodup_append.1 h.nodup).1
  rw [line, hq, ← List.append_assoc] at hline
  rw [← List.append_assoc] at hx
  exact ne_of_mem_of_not_mem hx (List.nodup_cons.1 (List.perm_middle.nodup_iff.1 hline)).1

/-- What is in a batch that waits to be answered is not in one that waits to be written. -/
theorem Custody.members_apart (h : Custody accepted q e) {id batch m : Nat} {waiting : List Nat}
    (hq : q.readQueue = id :: waiting) (hbatch : batch ∈ q.writeQueue) (hm : m ∈ e.members batch) :
    m ∉ id :: e.members id := by
  have hflat := (List.nodup_append.1 h.nodup).2.1
  rw [List.flatMap_append] at hflat
  intro hmem
  rcases List.mem_cons.1 hmem with rfl | hmem
  · refine h.not_mem_members ?_ (List.mem_append_left _ hbatch) hm
    exact List.mem_append_right _ (List.mem_append_right _ (hq ▸ List.mem_cons_self))
  · refine (List.nodup_append.1 hflat).2.2 m (List.mem_flatMap.2 ⟨batch, hbatch, hm⟩) m ?_ rfl
    exact List.mem_flatMap.2 ⟨id, hq ▸ List.mem_cons_self, hmem⟩

end Queue

namespace Transit

variable {server : Server} {accepted : List Nat} {p : Peer} {q : Queue} {e : Engine} {k : Course}
  {silent later : List Turn} {t : Turn}

/-! ## The request that a response is for -/

/-- Of the requests of the operation at the head some are not over with. -/
theorem slots_ahead (h : Transit server accepted p q e k) {id : Nat} {waiting : List Nat}
    (hq : q.readQueue = id :: waiting) :
    ∃ ahead owner c tag, e.slots id = k.answered ++ (ahead ++ [⟨owner, Command.request c tag⟩]) ∧
      ahead ++ ⟨owner, Command.request c tag⟩ :: (waiting ++ q.writeQueue).flatMap e.slots =
        k.served ++ k.unsent := by
  obtain ⟨op, hop⟩ := h.get?_of_mem_queues (List.mem_append_left _ (hq ▸ List.mem_cons_self))
  have hn := Engine.nature?_of_get? hop
  obtain ⟨front, owner, c, hlast⟩ := Engine.slots_eq_append hn
  have hall := h.ordered.slots
  rw [hq, List.cons_append, List.flatMap_cons, Course.slots] at hall
  have hlength : k.answered.length < (e.slots id).length := by
    rcases h.ordered.heading with hnil | ⟨id', rest, hq', hlt⟩
    · rw [hnil, hlast]
      simp
    · rw [hq] at hq'
      cases hq'
      exact hlt
  rcases List.append_eq_append_iff.1 hall with ⟨gap, hanswered, -⟩ | ⟨ahead, hslots, hrest⟩
  · rw [hanswered, List.length_append] at hlength
    omega
  have hne : ahead ≠ [] := by
    rintro rfl
    rw [hslots, List.append_nil] at hlength
    exact Nat.lt_irrefl _ hlength
  have hend : ahead.getLast? = some ⟨owner, Command.request c op.nature.tag⟩ := by
    rw [← List.getLast?_append_of_ne_nil k.answered hne, ← hslots, hlast]
    simp
  obtain ⟨start, rfl⟩ := List.getLast?_eq_some_iff.1 hend
  refine ⟨start, owner, c, op.nature.tag, hslots, ?_⟩
  rw [hrest, List.append_assoc]
  rfl

/-- The next response is for a request of the operation at the head, as the last of these requests is
not among those that are left unanswered. -/
theorem slots_head (h : Transit server accepted p q e k) {id : Nat} {waiting : List Nat}
    (hq : q.readQueue = id :: waiting) (hk : k.underWay = silent ++ t :: later)
    (hsilent : ∀ s ∈ silent, s.reply = none) :
    ∃ tail, e.slots id = k.answered ++ (silent.map (·.slot) ++ t.slot :: tail) ∧
      tail ++ (waiting ++ q.writeQueue).flatMap e.slots = later.map (·.slot) ++ k.unsent := by
  obtain ⟨ahead, owner, c, tag, hslots, hrest⟩ := h.slots_ahead hq
  have hloud : ⟨owner, Command.request c tag⟩ ∉ silent.map (·.slot) := fun hmem => by
    obtain ⟨s, hs, hslot⟩ := List.mem_map.1 hmem
    obtain ⟨past, hreply, -⟩ := h.receiving.replies s (hk ▸ List.mem_append_left _ hs)
    rw [hsilent s hs, hslot] at hreply
    exact Server.reply?_request server past c tag hreply.symm
  rw [Course.served, hk, List.map_append, List.map_cons, List.append_assoc, List.cons_append] at hrest
  -- It is the turn's request or a later one, then, and the turn's is one of the operation's.
  rcases List.append_eq_append_iff.1 hrest with ⟨gap, hgap, hturn⟩ | ⟨gap, hgap, hturn⟩
  · cases gap with
    | nil =>
      rw [List.nil_append, List.cons.injEq] at hturn
      refine ⟨[], ?_, hturn.2.symm ▸ rfl⟩
      rw [hslots, hgap, hturn.1, List.append_nil]
    | cons s gap =>
      rw [List.cons_append, List.cons.injEq] at hturn
      refine absurd ?_ hloud
      rw [hgap, hturn.1]
      simp
  · cases gap with
    | nil =>
      rw [List.nil_append, List.cons.injEq] at hturn
      refine ⟨[], ?_, hturn.2 ▸ rfl⟩
      rw [hslots, hgap, hturn.1, List.append_nil]
    | cons s gap =>
      rw [List.cons_append, List.cons.injEq] at hturn
      refine ⟨gap ++ [⟨owner, Command.request c tag⟩], ?_, ?_⟩
      · rw [hslots, hgap, hturn.1]
        simp only [List.append_assoc, List.cons_append]
      · rw [hturn.2, List.append_assoc]
        rfl

/-! ## One response -/

/-- Whoever a request is for is an operation for one command. -/
theorem isSingle_of_mem_owners (h : Transit server accepted p q e k) {id : Nat}
    (hid : id ∈ owners k.slots) : e.IsSingle id := by
  obtain ⟨s, hs, howner⟩ := mem_owners.1 hid
  obtain ⟨n, c, hn, hc, -⟩ := Engine.describes_some
    (h.ordered.describes h.custody.sound.flat hs) howner
  exact ⟨n, c, hn, hc⟩

/-- A response has been processed, and with it the requests up to the one that it answers are over
with. -/
theorem advance (h : Transit server accepted p q e k) (hk : k.underWay = silent ++ t :: later)
    (done : List Nat) (answered : List Slot) {e' : Engine} {ids readQueue : List Nat} {rest : Bytes}
    (hheeded : Engine.Heeded server accepted e e' ids)
    (hcustody : Queue.Custody accepted { q with readBuffer := rest, readQueue } e')
    (hbytes : rest ++ p.outbox = Frame.encodeAll (later.filterMap (·.reply)))
    (hdone : done ++ owners answered =
      k.done ++ owners (k.answered ++ (silent.map (·.slot) ++ [t.slot])))
    (hslots : (readQueue ++ q.writeQueue).flatMap e.slots =
      answered ++ (later.map (·.slot) ++ k.unsent))
    (hheading : answered = [] ∨ ∃ id rest, readQueue = id :: rest ∧
      answered.length < (e.slots id).length)
    (hqueue : ∀ id ∈ readQueue, id ∈ q.readQueue)
    (hapart : ∀ id ∈ q.input ++ (q.writeQueue ++ readQueue), id ∉ ids)
    (hids : ∀ id ∈ ids, e.IsSingle id →
      id ∈ owners (k.answered ++ (silent.map (·.slot) ++ [t.slot])))
    (hended : ∀ id ∈ done, id ∈ k.done ∨ id ∈ ids)
    (hsilent : ∀ s ∈ answered, ∀ id, s.owner = some id → id ∉ ids → e.isTerminal id = false →
      server.reply? (e.past accepted id) s.frame = none) :
    Transit server accepted p { q with readBuffer := rest, readQueue } e'
      ⟨done, answered, later, k.unsent⟩ := by
  have hserved : k.answered ++ k.served =
      (k.answered ++ (silent.map (·.slot) ++ [t.slot])) ++ later.map (·.slot) := by
    rw [Course.served, hk, List.map_append, List.map_cons]
    simp only [List.append_assoc, List.cons_append, List.nil_append]
  have hsplit : k.slots = (k.answered ++ (silent.map (·.slot) ++ [t.slot])) ++
      (later.map (·.slot) ++ k.unsent) := by
    rw [Course.slots, ← List.append_assoc, hserved, List.append_assoc]
  have horder : accepted.reverse = (done ++ owners answered) ++
      (owners (later.map (·.slot) ++ k.unsent) ++ q.input) := by
    rw [h.ordered.order, hsplit, hdone, owners_append]
    simp only [List.append_assoc]
  have hfar : ∀ id ∈ owners (later.map (·.slot) ++ k.unsent), id ∉ ids := by
    intro id hid hmem
    have howner : id ∈ owners k.slots := by
      rw [hsplit, owners_append]
      exact List.mem_append_right _ hid
    have hsingle := h.isSingle_of_mem_owners howner
    have hnodup := (List.reverse_perm accepted).nodup_iff.2 h.ordered.nodup
    rw [horder, hdone] at hnodup
    refine (List.nodup_append.1 hnodup).2.2 id ?_ id (List.mem_append_left _ hid) rfl
    exact List.mem_append_right _ (hids id hmem hsingle)
  have hmade : ∀ id ∈ ids, e.IsSingle id → id ∈ accepted := fun id hid hsingle =>
    h.ordered.mem_accepted_of_owner (by
      rw [hsplit, owners_append]
      exact List.mem_append_left _ (hids id hid hsingle))
  have hsame : ∀ id, id ∉ ids → e.Same e' id ∧ e'.request? id = e.request? id := hheeded.same
  have hpast : ∀ id, e'.past accepted id = e.past accepted id :=
    Engine.past_congr fun id _ => hheeded.command?_eq id
  obtain ⟨-, ho, hs, hr⟩ := h
  refine ⟨hcustody, ?_, ?_, ?_⟩
  · refine Ordered.congr (e := e) ⟨ho.nodup, ho.fits, ?_, hslots, hheading, fun id hid => ?_,
      ho.plain⟩ (fun id _ => hheeded.nature id) fun id _ => hheeded.nature id
    · rw [horder]
      simp only [Course.slots, Course.served, owners_append, List.append_assoc]
    · exact ho.joined id (List.mem_append.2 ((List.mem_append.1 hid).imp_left (hqueue id)))
  · have hs' := hs.congr (fun id _ => hheeded.nature id)
      (fun id hid => (hsame id (hapart id (by
        simp only [List.mem_append] at hid ⊢
        exact hid.elim (fun hid => .inr (.inl hid)) .inl))).2)
      fun id hsingle hid => by
        rw [Engine.IsSingle, hheeded.nature, ← Engine.IsSingle] at hsingle
        rw [(hsame id fun hmem => hid (hmade id hmem hsingle)).2]
        exact hs.untouched id hsingle hid
    exact ⟨hs'.bytes, hs'.begun, hs'.head, hs'.fresh, hs'.untouched⟩
  · refine ⟨hbytes, fun t' ht' => ?_, ?_, fun id hid => ?_, fun id hid => ?_, fun id hid => ?_,
      fun s hs id hid hopen => ?_, hheeded.answered hr.answered⟩
    · obtain ⟨past, hreply, heq⟩ := hr.replies t' (by
        rw [hk]
        exact List.mem_append_right _ (List.mem_cons_of_mem t ht'))
      exact ⟨past, hreply, fun id hid => by rw [hpast, heq id hid]⟩
    · rw [hr.past, Engine.asked_congr fun id _ => hheeded.command?_eq id, hserved, owners_append,
        ← List.append_assoc, ← hdone, List.append_assoc, ← owners_append]
      rfl
    · rcases hended id hid with hold | hnew
      · have hmem : id ∈ accepted := ho.mem_accepted_of_done hold
        by_cases hid' : id ∈ ids
        · exact (hheeded.told id hid' hmem).1
        · rw [(hsame id hid').1.terminal]
          exact hr.done id hold
      · refine (hheeded.told id hnew (List.mem_reverse.1 ?_)).1
        rw [horder]
        exact List.mem_append_left _ (List.mem_append_left _ hid)
    · rw [(hsame id (hapart id hid)).1.terminal]
      refine hr.waiting id ?_
      simp only [Queue.line, List.mem_append] at hid ⊢
      rcases hid with hid | hid | hid
      · exact .inl hid
      · exact .inr (.inl hid)
      · exact .inr (.inr (hqueue id hid))
    · rw [(hsame id (hfar id hid)).1.terminal]
      refine hr.unanswered id ?_
      rw [Course.served, hk, List.map_append, List.map_cons]
      simp only [Course.served, owners_append, List.append_assoc, List.mem_append] at hid ⊢
      rcases hid with hid | hid
      · refine .inr (.inl ?_)
        obtain ⟨s, hs, howner⟩ := mem_owners.1 hid
        exact mem_owners.2 ⟨s, List.mem_cons_of_mem _ hs, howner⟩
      · exact .inr (.inr hid)
    · by_cases hmem : id ∈ ids
      · have haccepted : id ∈ accepted := by
          refine List.mem_reverse.1 ?_
          rw [horder]
          exact List.mem_append_left _ (List.mem_append_right _ (mem_owners.2 ⟨s, hs, hid⟩))
        rw [(hheeded.told id hmem haccepted).1] at hopen
        cases hopen
      · rw [(hsame id hmem).1.terminal] at hopen
        rw [hpast]
        exact hsilent s hs id hid hmem hopen

/-- A request that has been passed over was left unanswered, or its operation has ended. -/
theorem reply?_of_passed (h : Transit server accepted p q e k)
    (hk : k.underWay = silent ++ t :: later) (hsilent : ∀ s ∈ silent, s.reply = none) {s : Slot}
    (hs : s ∈ k.answered ++ silent.map (·.slot)) {id : Nat} (hid : s.owner = some id)
    (hopen : e.isTerminal id = false) : server.reply? (e.past accepted id) s.frame = none := by
  rcases List.mem_append.1 hs with hs | hs
  · exact h.receiving.silent s hs id hid hopen
  · obtain ⟨turn, hturn, rfl⟩ := List.mem_map.1 hs
    obtain ⟨past, hreply, hpast⟩ := h.receiving.replies turn (hk ▸ List.mem_append_left _ hturn)
    rw [← hpast id hid, ← hreply]
    exact hsilent turn hturn

section Head

variable (h : Transit server accepted p q e k) {id : Nat} {waiting : List Nat}
  (hq : q.readQueue = id :: waiting) (hk : k.underWay = silent ++ t :: later)
  {f : Frame} {rest : Bytes}
  (hparse : Frame.parse Wire.responseMagic q.readBuffer = .frame f rest)
  (hbytes : rest ++ p.outbox = Frame.encodeAll (later.filterMap (·.reply)))

include h hq hk hparse hbytes

/-- The last response to an operation takes it off the queue. -/
theorem pop (hslots : e.slots id = k.answered ++ (silent.map (·.slot) ++ [t.slot]))
    (hrest : (waiting ++ q.writeQueue).flatMap e.slots = later.map (·.slot) ++ k.unsent)
    (hdone : (e.receive id f).2 = .done)
    (hheeded : Engine.Heeded server accepted e (e.receive id f).1 (id :: e.members id)) :
    ∃ k', Transit server accepted p { q with readBuffer := rest, readQueue := waiting }
      (e.receive id f).1 k' := by
  obtain ⟨op, hop⟩ := h.get?_of_mem_queues (List.mem_append_left _ (hq ▸ List.mem_cons_self))
  have hn := Engine.nature?_of_get? hop
  have howners := @Engine.mem_owners_slots e h.custody.sound.flat id _ hn
  have hcustody := Queue.custody_processing (.last hparse hq (by simp [hdone])) h.custody
  refine ⟨_, h.advance hk (k.done ++ owners (e.slots id)) [] hheeded hcustody hbytes ?_ hrest
    (.inl rfl) (fun x hx => hq ▸ List.mem_cons_of_mem id hx) (fun x hx hmem => ?_)
    (fun x hx hsingle => ?_) (fun x hx => ?_) fun s hs => absurd hs List.not_mem_nil⟩
  · rw [← hslots]
    exact List.append_nil _
  · rcases List.mem_cons.1 hmem with rfl | hmem
    · exact h.custody.ne_of_mem_line hq hx rfl
    · refine h.custody.not_mem_members ?_ (List.mem_append_right _ (hq ▸ List.mem_cons_self)) hmem
      rw [← List.append_assoc] at hx
      rw [Queue.line, hq, ← List.append_assoc]
      exact List.mem_append.2 ((List.mem_append.1 hx).imp_right (List.mem_cons_of_mem id))
  · rw [← hslots]
    exact howners.2 ⟨hx, hsingle⟩
  · exact (List.mem_append.1 hx).imp_right fun hx => (howners.1 hx).1

/-- A response to a member of a batch leaves the batch where it is. -/
theorem stay {tail : List Slot} {m : Nat} (hsilent : ∀ s ∈ silent, s.reply = none)
    (hslots : e.slots id = k.answered ++ (silent.map (·.slot) ++ t.slot :: tail)) (htail : tail ≠ [])
    (hm : m ∈ e.members id) (howner : t.slot.owner = some m) (hpending : (e.receive id f).2 = .pending)
    (hheeded : Engine.Heeded server accepted e (e.receive id f).1 [m]) :
    ∃ k', Transit server accepted p { q with readBuffer := rest } (e.receive id f).1 k' := by
  have hcustody := Queue.custody_processing (.pending hparse hq hpending) h.custody
  have hid : id ∈ q.writeQueue ++ q.readQueue :=
    List.mem_append_right _ (hq ▸ List.mem_cons_self)
  refine ⟨_, h.advance hk k.done (k.answered ++ (silent.map (·.slot) ++ [t.slot])) hheeded hcustody
    hbytes rfl ?_ (.inr ⟨id, waiting, hq, ?_⟩) (fun x hx => hx) (fun x hx hmem => ?_)
    (fun x hx _ => ?_) (fun x hx => .inl hx) fun s hs x hx hnot hopen => ?_⟩
  · rw [h.ordered.slots, Course.slots, Course.served, hk, List.map_append, List.map_cons]
    simp only [List.append_assoc, List.cons_append, List.nil_append]
  · have hpos := List.length_pos_iff.2 htail
    rw [hslots]
    simp only [List.length_append, List.length_cons, List.length_nil]
    omega
  · rw [List.mem_singleton.1 hmem] at hx
    exact h.custody.not_mem_members hx hid hm
  · rw [List.mem_singleton.1 hx]
    refine mem_owners.2 ⟨t.slot, ?_, howner⟩
    simp
  · rw [← List.append_assoc] at hs
    rcases List.mem_append.1 hs with hs | hs
    · exact h.reply?_of_passed hk hsilent hs hx hopen
    · rw [List.mem_singleton.1 hs, howner] at hx
      cases hx
      exact absurd (List.mem_singleton_self m) hnot

end Head

section Receive

variable (h : Transit server accepted p q e k) {id : Nat} {waiting : List Nat}
  (hq : q.readQueue = id :: waiting) (hk : k.underWay = silent ++ t :: later)
  (hsilent : ∀ s ∈ silent, s.reply = none) {f : Frame} (hf : t.reply = some f) {rest : Bytes}
  (hparse : Frame.parse Wire.responseMagic q.readBuffer = .frame f rest)
  (hbytes : rest ++ p.outbox = Frame.encodeAll (later.filterMap (·.reply)))
  {op : Operation} (hop : e.get? id = some op)

include h hq hk hsilent hf hparse hbytes hop

/-- The response to an operation for one command. -/
theorem receive_single {c : Command} (hwork : op.work = .single c) :
    (e.receive id f).2 = .done ∧ (∀ x, (e.receive id f).1.nature? x = e.nature? x) ∧ ∃ k',
      Transit server accepted p { q with readBuffer := rest, readQueue := waiting }
        (e.receive id f).1 k' := by
  have hn := Engine.nature?_of_get? hop
  have hsingle : e.IsSingle id := ⟨_, c, hn, hwork⟩
  obtain ⟨tail, hslots, hrest⟩ := h.slots_head hq hk hsilent
  have hone := hslots
  rw [Engine.slots_single hn hwork] at hone
  have hlen := congrArg List.length hone
  simp only [List.length_append, List.length_cons, List.length_nil] at hlen
  obtain rfl : tail = [] := List.length_eq_zero_iff.1 (by omega)
  have hslot : t.slot = ⟨some id, c.request op.tag⟩ := by
    refine List.mem_singleton.1 ?_
    change t.slot ∈ [(⟨some id, c.request op.nature.tag⟩ : Slot)]
    rw [hone]
    simp
  obtain ⟨past, hreply, hpast⟩ := h.receiving.replies t (by rw [hk]; simp)
  rw [hf, hpast id (by rw [hslot]), hslot] at hreply
  obtain ⟨hbecomes, houtcome⟩ := Engine.receiveTo_single id h.custody.sound.flat hop hwork f
  have hdone : (e.receive id f).2 = .done :=
    houtcome.trans (Engine.frameOutcome_eq_done (Server.not_fatal_of_reply? hreply.symm c op.tag))
  have hopen : e.isTerminal id = false := h.receiving.waiting id
    (List.mem_append_right _ (List.mem_append_right _ (hq ▸ List.mem_cons_self)))
  have hheeded := Engine.heeded_answer h.custody.sound (Engine.goes_receive h.custody.sound id f).1 hop
    hwork hopen (Command.tag_request c _) (Command.loud_request c _) hreply.symm hbecomes
  refine ⟨hdone, hheeded.nature, h.pop hq hk hparse hbytes hslots hrest hdone ?_⟩
  rw [Engine.members_of_isSingle hsingle]
  exact hheeded

/-- The response to the last request of a batch. -/
theorem receive_sentinel {b : Batch} (hwork : op.work = .batch b)
    (hslots : e.slots id = k.answered ++ (silent.map (·.slot) ++ [t.slot]))
    (hrest : (waiting ++ q.writeQueue).flatMap e.slots = later.map (·.slot) ++ k.unsent) :
    (e.receive id f).2 = .done ∧ (∀ x, (e.receive id f).1.nature? x = e.nature? x) ∧ ∃ k',
      Transit server accepted p { q with readBuffer := rest, readQueue := waiting }
        (e.receive id f).1 k' := by
  have hflat := h.custody.sound.flat
  have hread : id ∈ q.readQueue ++ q.writeQueue := List.mem_append_left _ (hq ▸ List.mem_cons_self)
  have hn := Engine.nature?_of_get? hop
  have hmembers : e.members id = b.members := by
    rw [Engine.members_of_nature? hn]
    exact congrArg _ hwork
  have hall := hslots
  rw [Engine.slots_batch hn hwork, ← List.append_assoc] at hall
  obtain ⟨hpassed, hslot⟩ := List.append_inj' hall rfl
  rw [List.cons.injEq] at hslot
  obtain ⟨past, hreply, -⟩ := h.receiving.replies t (by rw [hk]; simp)
  rw [hf, ← hslot.1] at hreply
  have htag : f.tag = op.tag := Server.tag_of_reply? hreply.symm
  obtain ⟨hbecomes, hdone⟩ := Engine.receiveTo_sentinel id hflat hop hwork htag
  have hid : id ∉ accepted := fun hid => by
    obtain ⟨c, hc, -⟩ := h.ordered.fits id hid
    simp [Engine.command?, hn, Operation.nature, hwork, Work.command?] at hc
  have hheeded := Engine.heeded_settle h.custody.sound (Engine.goes_receive h.custody.sound id f).1 hid
    h.receiving.answered (fun m hm _ hopen c hc => ?_) hbecomes
  · refine ⟨hdone, hheeded.nature, h.pop hq hk hparse hbytes hslots hrest hdone ?_⟩
    rw [hmembers]
    exact hheeded
  · obtain ⟨c', hc', hfamily⟩ := h.ordered.joined id hread _ b hn hwork m hm
    rw [hc] at hc'
    cases hc'
    obtain ⟨member, hmember, hsingle⟩ := Engine.get?_of_command? hc
    have hquiet : (e.memberSlot m).frame = c.quiet member.tag := by
      simp [Engine.memberSlot, Engine.nature?, hmember, Operation.nature, hsingle, Work.command?]
    have hnone := h.reply?_of_passed hk hsilent (hpassed ▸ List.mem_map_of_mem hm) rfl hopen
    rw [hquiet] at hnone
    exact Server.conclusion_of_silence hfamily hnone

/-- The response to a request for a member of a batch. -/
theorem receive_member (htags : e.TagsDistinct) {b : Batch} (hwork : op.work = .batch b)
    {tail : List Slot} (htail : tail ≠ [])
    (hslots : e.slots id = k.answered ++ (silent.map (·.slot) ++ t.slot :: tail)) :
    (e.receive id f).2 = .pending ∧ (∀ x, (e.receive id f).1.nature? x = e.nature? x) ∧ ∃ k',
      Transit server accepted p { q with readBuffer := rest } (e.receive id f).1 k' := by
  have hflat := h.custody.sound.flat
  have hn := Engine.nature?_of_get? hop
  have hmembers : e.members id = b.members := by
    rw [Engine.members_of_nature? hn]
    exact congrArg _ hwork
  have hfront : e.slots id = (k.answered ++ (silent.map (·.slot) ++ [t.slot])) ++ tail := by
    rw [hslots]
    simp only [List.append_assoc, List.cons_append, List.nil_append]
  obtain ⟨m, hmember, hslot⟩ := Engine.mem_of_slots_batch hn hwork hfront htail (s := t.slot) (by simp)
  have hm := hmembers ▸ hmember
  obtain ⟨hlt, n, c, hnm, hc⟩ := hflat id m hmember
  obtain ⟨member, hmop, rfl⟩ := Option.map_eq_some_iff.1 hnm
  have hsingle : member.work = .single c := hc
  have hquiet : (e.memberSlot m).frame = c.quiet member.tag := by
    simp [Engine.memberSlot, hnm, hsingle, Work.command?, Operation.nature]
  obtain ⟨past, hreply, hpast⟩ := h.receiving.replies t (by rw [hk]; simp)
  rw [hf, hpast m (by rw [hslot]; rfl), hslot, hquiet] at hreply
  have htag : f.tag = member.tag := by
    rw [Server.tag_of_reply? hreply.symm, Command.tag_quiet]
  have hother : f.tag ≠ op.tag := fun heq =>
    Nat.ne_of_lt hlt (htags hnm hn (htag.symm.trans heq))
  have hfound : e.memberByTag? b f.tag = some m := by
    rw [htag]
    exact Engine.memberByTag?_eq htags hm hmop
  have hopen : e.isTerminal m = false := h.receiving.unanswered m (by
    rw [owners_append]
    refine List.mem_append_left _ (mem_owners.2 ⟨t.slot, ?_, by rw [hslot]; rfl⟩)
    rw [Course.served, hk]
    simp)
  obtain ⟨depth, rfl⟩ := Nat.exists_eq_succ_of_ne_zero (Nat.ne_zero_of_lt hlt)
  obtain ⟨hbecomes, hpending⟩ := (Engine.receiveTo_member depth hflat hop hwork hother hfound hmop hc).1
    (Server.not_fatal_of_reply? hreply.symm c member.tag)
  have hheeded := Engine.heeded_answer h.custody.sound (Engine.goes_receive h.custody.sound _ f).1 hmop
    hc hopen (Command.tag_quiet c _) (Command.loud_quiet c _) hreply.symm hbecomes
  exact ⟨hpending, hheeded.nature, h.stay hq hk hparse hbytes hsilent hslots htail hmember
    (by rw [hslot]; rfl) hpending hheeded⟩

/-- Every response is understood, and is the last one to the operation at the head or not. -/
theorem receive (htags : e.TagsDistinct) :
    (∀ x, (e.receive id f).1.nature? x = e.nature? x) ∧
    (((e.receive id f).2 = .pending ∧ ∃ k',
      Transit server accepted p { q with readBuffer := rest } (e.receive id f).1 k') ∨
    ((e.receive id f).2 = .done ∧ ∃ k',
      Transit server accepted p { q with readBuffer := rest, readQueue := waiting }
        (e.receive id f).1 k')) := by
  cases hwork : op.work with
  | single c =>
    obtain ⟨hdone, hnature, hnext⟩ := h.receive_single hq hk hsilent hf hparse hbytes hop hwork
    exact ⟨hnature, .inr ⟨hdone, hnext⟩⟩
  | batch b =>
    obtain ⟨tail, hslots, hrest⟩ := h.slots_head hq hk hsilent
    by_cases htail : tail = []
    · subst htail
      obtain ⟨hdone, hnature, hnext⟩ :=
        h.receive_sentinel hq hk hsilent hf hparse hbytes hop hwork hslots hrest
      exact ⟨hnature, .inr ⟨hdone, hnext⟩⟩
    · obtain ⟨hpending, hnature, hnext⟩ :=
        h.receive_member hq hk hsilent hf hparse hbytes hop htags hwork htail hslots
      exact ⟨hnature, .inl ⟨hpending, hnext⟩⟩

end Receive

/-! ## All responses that have arrived -/

/-- Nothing can be read yet, or the next response answers a request that the server has seen. -/
theorem next_response (h : Transit server accepted p q e k) :
    (Frame.parse Wire.responseMagic q.readBuffer = .incomplete ∧ (p.outbox = [] → k.replies = [])) ∨
      ∃ f rest silent t later, Frame.parse Wire.responseMagic q.readBuffer = .frame f rest ∧
        k.underWay = silent ++ t :: later ∧ (∀ s ∈ silent, s.reply = none) ∧ t.reply = some f ∧
        rest ++ p.outbox = Frame.encodeAll (later.filterMap (·.reply)) := by
  have hreadable : ∀ f ∈ k.replies, f.Readable Wire.responseMagic := fun f hf => by
    obtain ⟨t, ht, hreply⟩ := List.mem_filterMap.1 hf
    obtain ⟨past, hpast, -⟩ := h.receiving.replies t ht
    exact Server.readable_of_reply? (hpast.symm.trans hreply)
  rcases Frame.parse_stream hreadable h.receiving.bytes with
    hidle | ⟨f, rest, replies, hk, hparse, hrest⟩
  · exact .inl hidle
  · obtain ⟨silent, t, later, hunderWay, hsilent, hf, rfl⟩ := List.filterMap_eq_cons_iff.1 hk
    exact .inr ⟨f, rest, silent, t, later, hparse, hunderWay, hsilent, hf, hrest⟩

/-- A frame that can be read answers a request that the server has seen. -/
theorem turn_of_frame (h : Transit server accepted p q e k) {f : Frame} {rest : Bytes}
    (hparse : Frame.parse Wire.responseMagic q.readBuffer = .frame f rest) :
    ∃ silent t later, k.underWay = silent ++ t :: later ∧ (∀ s ∈ silent, s.reply = none) ∧
      t.reply = some f ∧ rest ++ p.outbox = Frame.encodeAll (later.filterMap (·.reply)) := by
  rcases h.next_response with ⟨hidle, -⟩ | ⟨g, rest', silent, t, later, hparse', hturn⟩
  · rw [hparse] at hidle
    cases hidle
  · rw [hparse] at hparse'
    cases hparse'
    exact ⟨silent, t, later, hturn⟩

/-- What the server sends makes frames. -/
theorem parse_ne_fault (h : Transit server accepted p q e k) {fault : Wire.FrameFault} {rest : Bytes} :
    Frame.parse Wire.responseMagic q.readBuffer ≠ .fault fault rest := by
  intro hparse
  rcases h.next_response with ⟨hidle, -⟩ | ⟨f, rest', silent, t, later, hparse', -⟩
  · rw [hparse] at hidle
    cases hidle
  · rw [hparse] at hparse'
    cases hparse'

/-- If nobody waits in the read queue, a response is for a member of the batch that is being
written. -/
theorem overtaken (h : Transit server accepted p q e k) (hq : q.readQueue = [])
    (hk : k.underWay = silent ++ t :: later) {f : Frame} (hf : t.reply = some f) :
    ∃ batch m n, q.writeQueue.head? = some batch ∧ m ∈ e.members batch ∧ e.nature? m = some n ∧
      n.tag = f.tag := by
  have hserved : t.slot ∈ k.served := by
    rw [Course.served, hk]
    simp
  have hanswered : k.answered = [] := by
    rcases h.ordered.heading with hnil | ⟨id, rest, hq', -⟩
    · exact hnil
    · rw [hq] at hq'
      cases hq'
  have hslots := h.ordered.slots
  rw [hq, List.nil_append] at hslots
  have hwhole : k.slots = k.served ++ k.unsent := by rw [Course.slots, hanswered, List.nil_append]
  cases hw : q.writeQueue with
  | nil =>
    rw [hwhole, hw] at hslots
    rw [(List.append_eq_nil_iff.1 hslots.symm).1] at hserved
    cases hserved
  | cons batch rest =>
    have hmem : batch ∈ q.writeQueue := hw ▸ List.mem_cons_self
    rw [hw, List.flatMap_cons] at hslots
    -- Something of the head of the write queue has not been written.
    have hbytes := h.sending.bytes
    rw [hw, List.flatMap_cons, Engine.flatMap_outstanding fun id hid => h.sending.fresh id (by
      rw [hw]
      exact List.mem_append_left _ hid)] at hbytes
    have hpos := List.length_pos_iff.2 (h.outstanding_ne_nil hw)
    have hlength : (encodeSlots (rest.flatMap e.slots)).length < (encodeSlots k.unsent).length := by
      rw [← hbytes]
      simp only [List.length_append]
      omega
    obtain ⟨between, hbetween⟩ :=
      suffix_of_length_encodeSlots hwhole hslots.symm (Nat.le_of_lt hlength)
    have hne : between ≠ [] := by
      rintro rfl
      rw [hbetween] at hlength
      exact Nat.lt_irrefl _ hlength
    have hhead : e.slots batch = k.served ++ between := by
      rw [hwhole, hbetween, ← List.append_assoc] at hslots
      exact List.append_cancel_right hslots
    obtain ⟨op, hop⟩ := h.get?_of_mem_queues (List.mem_append_right _ hmem)
    have hn := Engine.nature?_of_get? hop
    cases hwork : op.work with
    | single c =>
      have hlen := congrArg List.length hhead
      rw [Engine.slots_single hn hwork, List.length_append] at hlen
      have hserved := List.length_pos_of_mem hserved
      have hbetween := List.length_pos_iff.2 hne
      simp only [List.length_cons, List.length_nil] at hlen
      omega
    | batch b =>
      obtain ⟨m, hm, hslot⟩ := Engine.mem_of_slots_batch hn hwork hhead hne hserved
      obtain ⟨n, hnm, htag⟩ := Engine.tag_memberSlot h.custody.sound.flat hm
      obtain ⟨past, hreply, -⟩ := h.receiving.replies t (by rw [hk]; simp)
      refine ⟨batch, m, n, rfl, hm, hnm, ?_⟩
      rw [Server.tag_of_reply? (hreply.symm.trans hf), hslot, htag]

/-- What a response is for is not held by the write queue. -/
theorem not_overtaken (h : Transit server accepted p q e k) (htags : e.TagsDistinct) {id : Nat}
    {waiting : List Nat} (hq : q.readQueue = id :: waiting) (hk : k.underWay = silent ++ t :: later)
    (hsilent : ∀ s ∈ silent, s.reply = none) {f : Frame} (hf : t.reply = some f) {batch m : Nat}
    {n : Nature} (hbatch : q.writeQueue.head? = some batch) (hm : m ∈ e.members batch)
    (hn : e.nature? m = some n) : n.tag ≠ f.tag := by
  intro htag
  obtain ⟨tail, hslots, -⟩ := h.slots_head hq hk hsilent
  obtain ⟨x, n', hx, hn', htag'⟩ := Engine.tag_of_mem_slots h.custody.sound.flat
    (show t.slot ∈ e.slots id by rw [hslots]; simp)
  obtain ⟨past, hreply, -⟩ := h.receiving.replies t (by rw [hk]; simp)
  have hturn := Server.tag_of_reply? (hreply.symm.trans hf)
  have hsame : m = x := htags hn hn' (by rw [htag, hturn, htag'])
  rw [← hsame] at hx
  exact h.custody.members_apart hq (List.mem_of_head? hbatch) hm hx

/-- When everything has been sent, answered and delivered, everybody has heard. -/
theorem isTerminal_of_idle (h : Transit server accepted p q e k)
    (hidle : Frame.parse Wire.responseMagic q.readBuffer = .incomplete) (hinput : q.input = [])
    (hwrite : q.writeQueue = []) (hbuffer : q.writeBuffer = []) (houtbox : p.outbox = []) :
    ∀ id ∈ accepted, e.isTerminal id := by
  have hunsent : k.unsent = [] := by
    have hbytes := h.sending.bytes
    rw [hwrite, hbuffer] at hbytes
    have hreadable : ∀ f ∈ k.unsent.map (·.frame), f.Readable Wire.requestMagic := fun f hf => by
      obtain ⟨s, hs, rfl⟩ := List.mem_map.1 hf
      exact h.ordered.readable h.custody.sound.flat
        (List.mem_append_right _ (List.mem_append_right _ hs))
    rcases Frame.parse_stream hreadable hbytes with ⟨-, hnil⟩ | ⟨f, rest, frames, -, hparse, -⟩
    · exact List.map_eq_nil_iff.1 (hnil rfl)
    · rw [h.sending.begun] at hparse
      cases hparse
  have hreplies : k.replies = [] := by
    rcases h.next_response with ⟨-, hnil⟩ | ⟨f, rest, _, _, _, hparse, -⟩
    · exact hnil houtbox
    · rw [hidle] at hparse
      cases hparse
  have hread : q.readQueue = [] := by
    cases hq : q.readQueue with
    | nil => rfl
    | cons id waiting =>
      obtain ⟨ahead, owner, c, tag, -, hrest⟩ := h.slots_ahead hq
      rw [hunsent, List.append_nil] at hrest
      obtain ⟨t, ht, hslot⟩ := List.mem_map.1 (show ⟨owner, Command.request c tag⟩ ∈ k.served by
        rw [← hrest]
        simp)
      obtain ⟨past, hreply, -⟩ := h.receiving.replies t ht
      have hnone : t.reply = none := List.filterMap_eq_nil_iff.1 hreplies t ht
      rw [hnone, hslot] at hreply
      exact absurd hreply.symm (Server.reply?_request server past c tag)
  have hheld : q.held e = [] := by simp [Queue.held, Queue.line, hinput, hwrite, hread]
  intro id hid
  refine (h.custody.located id hid).resolve_right ?_
  rw [hheld]
  exact List.not_mem_nil

/-- A frame that can be read is a response to the operation at the head, and it overtakes nothing. -/
theorem receive_frame (h : Transit server accepted p q e k) (htags : e.TagsDistinct) {id : Nat}
    {waiting : List Nat} (hq : q.readQueue = id :: waiting) {f : Frame} {rest : Bytes}
    (hparse : Frame.parse Wire.responseMagic q.readBuffer = .frame f rest) :
    (∀ x, (e.receive id f).1.nature? x = e.nature? x) ∧
    (∀ batch m n, q.writeQueue.head? = some batch → m ∈ e.members batch → e.nature? m = some n →
      n.tag ≠ f.tag) ∧
    (((e.receive id f).2 = .pending ∧ ∃ k',
      Transit server accepted p { q with readBuffer := rest } (e.receive id f).1 k') ∨
    ((e.receive id f).2 = .done ∧ ∃ k',
      Transit server accepted p { q with readBuffer := rest, readQueue := waiting }
        (e.receive id f).1 k')) := by
  obtain ⟨silent, t, later, hk, hsilent, hf, hbytes⟩ := h.turn_of_frame hparse
  obtain ⟨op, hop⟩ := h.get?_of_mem_queues (List.mem_append_left _ (hq ▸ List.mem_cons_self))
  obtain ⟨hnature, hnext⟩ := h.receive hq hk hsilent hf hparse hbytes hop htags
  exact ⟨hnature, fun _ _ _ => h.not_overtaken htags hq hk hsilent hf, hnext⟩

end Transit

/-! ## Processing -/

/-- The first frame of those that arrive is for the head of the read queue, so it overtakes
nothing. -/
theorem Engine.overtakes_frame {e e' : Engine} {writeQueue : List Nat} {arrived rest : Bytes}
    {f : Frame} (hparse : Frame.parse Wire.responseMagic arrived = .frame f rest)
    (hf : ∀ batch m n, writeQueue.head? = some batch → m ∈ e.members batch → e.nature? m = some n →
      n.tag ≠ f.tag) (hnature : ∀ id, e'.nature? id = e.nature? id) :
    e.Overtakes writeQueue arrived ↔ e'.Overtakes writeQueue rest := by
  have hmembers : ∀ id, e'.members id = e.members id := fun id => by
    rw [members_eq_nature?, hnature, ← members_eq_nature?]
  unfold Overtakes
  rw [Frame.drain_of_frame hparse]
  simp only [hnature, hmembers, List.mem_cons]
  constructor
  · rintro ⟨g, batch, m, n, hg | hg, hbatch, hm, hn, htag⟩
    · cases hg
      exact absurd htag (hf batch m n hbatch hm hn)
    · exact ⟨g, batch, m, n, hg, hbatch, hm, hn, htag⟩
  · rintro ⟨g, batch, m, n, hg, hbatch, hm, hn, htag⟩
    exact ⟨g, batch, m, n, .inr hg, hbatch, hm, hn, htag⟩

/-- What comes of processing. -/
structure Processed (server : Server) (accepted : List Nat) (p : Peer) (q : Queue) (e : Engine)
    (q' : Queue) (e' : Engine) (fault : Option LinkFault) : Prop where
  nature : ∀ id, e'.nature? id = e.nature? id
  answered : e'.Answered server accepted
  onward : fault = none → (∃ k, Transit server accepted p q' e' k) ∧
    Frame.parse Wire.responseMagic q'.readBuffer = .incomplete
  fault : fault.isSome ↔ e.Overtakes q.writeQueue q.readBuffer

/-- One response has been understood, and the others are still to be processed. -/
theorem Processed.cons {server : Server} {accepted : List Nat} {p : Peer} {q q' q'' : Queue}
    {e e' e'' : Engine} {fault : Option LinkFault} {f : Frame}
    (h : Processed server accepted p q' e' q'' e'' fault)
    (hparse : Frame.parse Wire.responseMagic q.readBuffer = .frame f q'.readBuffer)
    (hf : ∀ batch m n, q.writeQueue.head? = some batch → m ∈ e.members batch →
      e.nature? m = some n → n.tag ≠ f.tag) (hwrite : q'.writeQueue = q.writeQueue)
    (hnature : ∀ id, e'.nature? id = e.nature? id) :
    Processed server accepted p q e q'' e'' fault where
  nature id := (h.nature id).trans (hnature id)
  answered := h.answered
  onward := h.onward
  fault := by
    rw [Engine.overtakes_frame hparse hf hnature, ← hwrite]
    exact h.fault

/-- Processing faults just if a response overtakes its request, and otherwise every response that has
arrived in full is understood. -/
theorem Transit.process {server : Server} {accepted : List Nat} {p : Peer} (q : Queue) (e : Engine) :
    (∃ k, Transit server accepted p q e k) → e.TagsDistinct →
      Processed server accepted p q e (q.process e).1 (q.process e).2.1 (q.process e).2.2 := by
  fun_induction Queue.process q e with
  | case1 q e hparse =>
    rintro ⟨k, h⟩ -
    refine ⟨fun _ => rfl, h.receiving.answered, fun _ => ⟨⟨k, h⟩, hparse⟩, ?_⟩
    rw [Engine.Overtakes, Frame.drain_of_incomplete hparse]
    simp
  | case2 q e f rest hparse q' hq =>
    rintro ⟨k, h⟩ -
    obtain ⟨silent, t, later, hk, -, hf, -⟩ := h.turn_of_frame hparse
    obtain ⟨batch, m, n, hbatch, hm, hn, htag⟩ := h.overtaken hq hk hf
    refine ⟨fun _ => rfl, h.receiving.answered, fun hnone => ?_, fun _ => ?_, fun _ => rfl⟩
    · cases hnone
    · refine ⟨f, batch, m, n, ?_, hbatch, hm, hn, htag⟩
      rw [Frame.drain_of_frame hparse]
      exact List.mem_cons_self
  | case3 q e f rest hparse q' id waiting hq e' hreceive ih =>
    rintro ⟨k, h⟩ htags
    obtain ⟨hnature, hapart, hnext⟩ := h.receive_frame htags hq hparse
    rw [hreceive] at hnature hnext
    rcases hnext with ⟨-, hnext⟩ | ⟨hdone, -⟩
    · exact (ih hnext (htags.congr hnature)).cons hparse hapart rfl hnature
    · cases hdone
  | case4 q e f rest hparse q' id waiting hq e' hreceive ih =>
    rintro ⟨k, h⟩ htags
    obtain ⟨hnature, hapart, hnext⟩ := h.receive_frame htags hq hparse
    rw [hreceive] at hnature hnext
    rcases hnext with ⟨hpending, -⟩ | ⟨-, hnext⟩
    · cases hpending
    · exact (ih hnext (htags.congr hnature)).cons hparse hapart rfl hnature
  | case5 q e f rest hparse q' id waiting hq e' hreceive =>
    rintro ⟨k, h⟩ htags
    obtain ⟨-, -, hnext⟩ := h.receive_frame htags hq hparse
    rw [hreceive] at hnext
    rcases hnext with ⟨houtcome, -⟩ | ⟨houtcome, -⟩ <;> cases houtcome
  | case6 q e fault rest hparse e' q' hc ih =>
    rintro ⟨k, h⟩ -
    exact absurd hparse h.parse_ne_fault
  | case7 q e fault rest hparse e' q' hc =>
    rintro ⟨k, h⟩ -
    exact absurd hparse h.parse_ne_fault

end ShardedCache

import Mathlib.Data.List.Flatten
import ShardedCache.Proofs.Node.Alignment

/-!
# Packing keeps the stream aligned

Round by round: a head that waits in vain is dropped (`AtRest.drop`), a run at the front becomes a
batch (`AtRest.regroup`), and the head is written as far as there is room (`AtHand.fill`), after
which it stays (`AtHand.stay`) or is handed on (`AtHand.handOn`).
-/

namespace ShardedCache

namespace Queue

variable {accepted order : List Nat} {taken : Bytes} {q : Queue} {e : Engine}

/-! ## Letting go -/

theorem mem_owners_requests {x : Nat} : x ∈ owners (q.requests e) ↔
    ∃ id ∈ q.readQueue ++ (q.writeQueue ++ q.input), x ∈ owners (e.slots id) := by
  simp only [requests, mem_owners, List.mem_flatMap]
  constructor
  · rintro ⟨s, ⟨id, hid, hs⟩, hx⟩
    exact ⟨id, hid, s, hs, hx⟩
  · rintro ⟨id, hid, s, hs, hx⟩
    exact ⟨s, ⟨id, hid, hs⟩, hx⟩

/-- The queues let go of what has been cancelled, and nothing changes places. -/
theorem Aligned.release {q' : Queue} (h : Aligned accepted taken order q e)
    (hsub : (q'.readQueue ++ (q'.writeQueue ++ q'.input)).Sublist
      (q.readQueue ++ (q.writeQueue ++ q.input)))
    (hgone : ∀ id ∈ q.readQueue ++ (q.writeQueue ++ q.input),
      id ∉ q'.readQueue ++ (q'.writeQueue ++ q'.input) →
        id ∈ q.writeQueue ++ q.input ∧ e.isCancelled id = true) :
    (owners (q'.requests e)).Sublist order ∧
      ∀ id ∈ order, id ∉ owners (q'.requests e) → e.isCancelled id = true := by
  refine ⟨((hsub.flatMap _).filterMap _).trans h.listed, fun x hx hnot => ?_⟩
  by_cases hmem : x ∈ owners (q.requests e)
  · obtain ⟨id, hid, hx⟩ := mem_owners_requests.1 hmem
    obtain ⟨hwaits, hcancelled⟩ := hgone id hid fun hkept =>
      hnot (mem_owners_requests.2 ⟨id, hkept, hx⟩)
    rcases List.mem_append.1 hwaits with hwrite | hinput
    · exact h.isCancelled_of_mem_owners hwrite hcancelled hx
    · rw [Engine.owners_slots_single (h.custody.input id hinput)] at hx
      rwa [List.mem_singleton.1 hx]
  · exact h.omitted x hx hmem

theorem AtRest.drop (h : AtRest accepted taken order q e) {id : Nat} {rest : List Nat}
    (hq : q.writeQueue = id :: rest) (hstarted : isStarted e id = false)
    (hcancelled : e.isCancelled id = true) :
    AtRest accepted taken order { q with writeQueue := rest } e := by
  have hmem : ∀ x ∈ rest, x ∈ q.writeQueue := fun x hx => by
    rw [hq]
    exact List.mem_cons_of_mem id hx
  have hsub : ∀ x ∈ ({ q with writeQueue := rest } : Queue).unsent e, x ∈ q.unsent e := fun x hx => by
    rw [unsent, hq]
    simp only [unsent, List.flatMap_cons, List.mem_append, List.mem_cons] at hx ⊢
    grind
  obtain ⟨hlisted, homitted⟩ := @Aligned.release _ _ _ _ _ { q with writeQueue := rest } h.toAligned
    (by rw [hq]; simp)
    fun x hx hnot => by
      have hx' : x = id := by
        rw [hq] at hx
        simp only [List.mem_append, List.mem_cons] at hx hnot
        grind
      rw [hx', hq]
      exact ⟨List.mem_append_left _ List.mem_cons_self, hcancelled⟩
  refine ⟨⟨custody_packing (.drop hq hstarted hcancelled) h.custody, h.room, ?_,
    fun x hx => h.waiting x (hsub x hx), fun x hx => h.encoded x (hmem x hx), fun x hx => ?_, h.input,
    fun x hx => h.joined x (hmem x hx), hlisted, homitted, h.untouched⟩,
    fun x hx => h.paused x (hmem x hx)⟩
  · refine h.bytes.trans ?_
    rw [hq, List.flatMap_cons, Engine.copied_of_not_isStarted hstarted, List.nil_append]
  · refine h.behind x ?_
    rw [hq, List.tail_cons]
    exact List.mem_of_mem_tail hx

/-! ## Regrouping -/

/-- A head that is there to be written can be encoded in full. -/
theorem AtRest.atHand (h : AtRest accepted taken order q e) {id : Nat} {rest : List Nat}
    (hq : q.writeQueue = id :: rest) (hdue : IsDue e id) : AtHand accepted taken order q e := by
  refine ⟨h.toAligned, fun x hx => h.paused x (List.mem_of_mem_tail hx), fun x hx => ?_⟩
  rw [hq] at hx
  cases hx
  have hpaused := h.paused id (hq ▸ List.mem_cons_self)
  refine ⟨fun hnone m hm => ?_, hpaused.left⟩
  rcases hpaused.encoded hnone with hmembers | hcancelled
  · rw [hmembers] at hm
    cases hm
  · rcases hdue with hstarted | hopen
    · rw [Engine.isStarted_of_none hnone] at hstarted
      cases hstarted
    · rw [hcancelled] at hopen
      cases hopen

theorem Regrouped.keeps {e' : Engine} {family : BatchFamily} {n : Nat}
    (h : Regrouped q e family n e') {id : Nat} (hid : id < e.size) : e.Keeps e' id := by
  obtain ⟨multiplexer, idempotent, hbatch⟩ := Engine.batch_eq e family (q.writeQueue.take n) .silent
  obtain ⟨listener, hjoined⟩ := Engine.becomes_joined (e := e) .silent fun _ hm => h.isSingle hm
  have hget : e'.get? id = (e.joined (q.writeQueue.take n) .silent).get? id := by
    have hne : id ≠ (e.joined (q.writeQueue.take n) .silent).size := by
      rw [hjoined.size_eq]
      exact Nat.ne_of_lt hid
    have hadd := Engine.get?_add (e.joined (q.writeQueue.take n) .silent)
      (.batch { family, members := q.writeQueue.take n, multiplexer }) idempotent .silent id
    rw [if_neg hne, ← hbatch] at hadd
    rw [← hadd, Engine.get?, h.operations]
    simp [Engine.modify, Engine.get?, Nat.ne_of_gt hid]
  have hlevel := hjoined.level fun l => Life.level_among (fun l => Life.level_of_phase (by
    unfold Life.listen
    split <;> rfl)) _ id l
  refine ⟨?_, ?_, (h.same hid).2⟩
  · rw [Engine.isUnwritten, hget]
    exact hlevel.1
  · rw [Engine.isCancelled, hget]
    exact hlevel.2

/-- The batch that regrouping has made of the first `n` operations: nothing of it has been written,
and none of its members has been cancelled. -/
structure Made (q : Queue) (e e' : Engine) (n : Nat) : Prop where
  members : e'.members e.size = q.writeQueue.take n
  request : e'.request? e.size = none
  unwritten : e'.isUnwritten e.size = true
  joined : e'.Joined e.size
  owners : owners (e'.slots e.size) = owners ((q.writeQueue.take n).flatMap e'.slots)
  uncancelled : ∀ m ∈ q.writeQueue.take n, e'.isCancelled m = false

theorem Regrouped.made {e' : Engine} {family : BatchFamily} {n : Nat} (h : Regrouped q e family n e')
    (hsize : ∀ id ∈ q.writeQueue, id < e.size) : Made q e e' n := by
  have htake : ∀ {id}, id ∈ q.writeQueue.take n → id < e.size := fun hid =>
    hsize _ (List.mem_of_mem_take hid)
  obtain ⟨tag, multiplexer, idempotent, hbatch⟩ := h.get?_size
  have hnature : e'.nature? e.size = some ⟨tag, .batch ⟨family, q.writeQueue.take n, multiplexer⟩,
      idempotent, .silent⟩ := Engine.nature?_of_get? hbatch
  have hmembers : e'.members e.size = q.writeQueue.take n := Engine.members_of_nature? hnature
  have hsingle : ∀ id ∈ q.writeQueue.take n, e'.IsSingle id := fun id hid => by
    rw [Engine.IsSingle, (h.same (htake hid)).1.nature]
    exact h.isSingle hid
  refine ⟨hmembers, ?_, ?_, fun n' b hn' hb m hm => ?_, ?_, fun m hm => ?_⟩
  · rw [Engine.request?, hbatch]
    rfl
  · rw [Engine.isUnwritten, hbatch]
    rfl
  · rw [hnature] at hn'
    cases hn'
    cases hb
    rw [(h.same (htake hm)).1.command?_eq]
    exact command?_of_fits (h.fits m hm)
  · rw [Engine.owners_slots_batch hnature rfl, Engine.owners_flatMap_slots hsingle, hmembers]
  · obtain ⟨op, hop, hfits⟩ := (Option.any_eq_true _ _).1 (h.fits m hm)
    simp only [Bool.and_eq_true, Bool.not_eq_true'] at hfits
    rw [(h.keeps (htake hm)).cancelled, Engine.isCancelled, hop]
    exact hfits.1.2

section Made

variable {e' : Engine} {n : Nat} (h : Made q e e' n)

include h

theorem Made.owners_requests :
    ShardedCache.owners (({ q with writeQueue := e.size :: q.writeQueue.drop n } : Queue).requests e') =
      ShardedCache.owners (q.requests e') := by
  have hwhole : q.writeQueue.flatMap e'.slots =
      (q.writeQueue.take n).flatMap e'.slots ++ (q.writeQueue.drop n).flatMap e'.slots := by
    rw [← List.flatMap_append, List.take_append_drop]
  simp only [requests, List.flatMap_append, List.flatMap_cons, owners_append, h.owners, hwhole,
    List.append_assoc]

theorem Made.mem_unsent {id : Nat}
    (hid : id ∈ ({ q with writeQueue := e.size :: q.writeQueue.drop n } : Queue).unsent e') :
    id = e.size ∨ id ∈ q.unsent e' := by
  have htake : ∀ x ∈ q.writeQueue.take n, x ∈ q.writeQueue := fun x hx => List.mem_of_mem_take hx
  have hdrop : ∀ x ∈ q.writeQueue.drop n, x ∈ q.writeQueue := fun x hx => List.mem_of_mem_drop hx
  simp only [unsent, List.flatMap_cons, h.members, List.mem_append, List.mem_cons,
    List.mem_flatMap] at hid ⊢
  grind

end Made

/-- A batch takes the place of the run at the front, of which nothing has been written. -/
theorem AtRest.regrouped (h : AtRest accepted taken order q e) {e' : Engine} {family : BatchFamily}
    {n : Nat} (hregrouped : Regrouped q e family n e')
    (hstarted : ∀ id ∈ q.writeQueue, isStarted e id = false)
    (hcustody : Custody accepted { q with writeQueue := e.size :: q.writeQueue.drop n } e') :
    AtHand accepted taken order { q with writeQueue := e.size :: q.writeQueue.drop n } e' := by
  have hsize : ∀ id ∈ q.writeQueue, id < e.size := fun _ => h.lt_size_of_mem_writeQueue
  have hdrop : ∀ {id}, id ∈ q.writeQueue.drop n → id ∈ q.writeQueue := List.mem_of_mem_drop
  have hmade := hregrouped.made hsize
  have hmoved : AtRest accepted taken order q e' := h.goes (hregrouped.goes h.custody.sound)
    (fun id hid => .kept (hregrouped.keeps (h.custody.known id (mem_held_of_mem_unsent hid))))
    (fun id hsingle _ => by
      have hid := hregrouped.lt_size_of_isSingle hsingle
      refine .inl ⟨?_, .kept (hregrouped.keeps hid)⟩
      rwa [Engine.IsSingle, ← (hregrouped.same hid).1.nature])
    q.readBuffer
  have hunstarted : ∀ id ∈ q.writeQueue, isStarted e' id = false := fun id hid => by
    rw [Engine.isStarted_eq, (hregrouped.keeps (hsize id hid)).request, ← Engine.isStarted_eq]
    exact hstarted id hid
  refine ⟨⟨hcustody, h.room, ?_, fun id hid => ?_, fun id hid r hr => ?_, fun id hid => ?_,
    hmoved.input, fun id hid => ?_, ?_, fun id hid hnot => ?_, hmoved.untouched⟩,
    fun id hid => hmoved.paused id (hdrop hid), fun id hid => ?_⟩
  · refine hmoved.bytes.trans ?_
    have hnew : ∀ id ∈ e.size :: q.writeQueue.drop n, isStarted e' id = false := fun id hid => by
      rcases List.mem_cons.1 hid with rfl | hid
      · exact Engine.isStarted_of_none hmade.request
      · exact hunstarted id (hdrop hid)
    rw [Engine.flatMap_copied_of_not_isStarted hunstarted, Engine.flatMap_copied_of_not_isStarted hnew]
  · rcases hmade.mem_unsent hid with rfl | hid
    · exact .inl hmade.unwritten
    · exact hmoved.waiting id hid
  · rcases List.mem_cons.1 hid with rfl | hid
    · rw [hmade.request] at hr
      cases hr
    · exact hmoved.encoded id (hdrop hid) r hr
  · exact hunstarted id (hdrop hid)
  · rcases List.mem_cons.1 hid with rfl | hid
    · exact hmade.joined
    · exact hmoved.joined id (hdrop hid)
  · rw [hmade.owners_requests]
    exact hmoved.listed
  · rw [hmade.owners_requests] at hnot
    exact hmoved.omitted id hid hnot
  · cases hid
    rw [hmade.members, hmade.request]
    exact ⟨fun _ => hmade.uncancelled, fun _ hr => by cases hr⟩

theorem AtRest.regroup (h : AtRest accepted taken order q e) {id : Nat} {rest : List Nat}
    (hq : q.writeQueue = id :: rest) (hdue : IsDue e id) :
    AtHand accepted taken order (q.regroup e id).1 (q.regroup e id).2 := by
  rcases regroup_cases q e id with heq | ⟨⟨-, hstarted⟩, heq⟩
  · rw [heq]
    exact h.atHand hq hdue
  · have hcustody := custody_optimize h.custody
    rw [heq]
    rcases optimize_cases q e with heq | ⟨family, n, e', hregrouped, heq⟩
    · rw [heq]
      exact h.atHand hq hdue
    · rw [heq] at hcustody ⊢
      refine h.regrouped hregrouped (fun x hx => ?_) hcustody
      rw [hq] at hx
      rcases List.mem_cons.1 hx with rfl | hx
      · exact hstarted
      · exact h.behind x (by rwa [hq])

/-! ## Writing -/

/-- The request of the head, be it encoded or not, is that of its slots, and something is left. -/
theorem AtHand.requestOf (h : AtHand accepted taken order q e) {id : Nat} {rest : List Nat}
    (hq : q.writeQueue = id :: rest) {op : Operation} (hop : e.get? id = some op) :
    (e.requestOf op).bytes = encodeSlots (e.slots id) ∧
      (e.requestOf op).written < (e.requestOf op).bytes.length ∧
      e.copied id = (e.requestOf op).bytes.take (e.requestOf op).written := by
  have hid : id ∈ q.writeQueue := hq ▸ List.mem_cons_self
  obtain ⟨hready, hleft⟩ := h.ready id (by rw [hq]; rfl)
  have hrequest := Engine.request?_of_get? hop
  cases hr : op.request with
  | some r =>
    rw [hr] at hrequest
    have heq : e.requestOf op = r := by rw [Engine.requestOf, hr]; rfl
    rw [heq]
    exact ⟨(h.encoded id hid r hrequest).1, hleft r hrequest, Engine.copied_of_some hrequest⟩
  | none =>
    rw [hr] at hrequest
    have heq : e.requestOf op = { bytes := e.encode op } := by rw [Engine.requestOf, hr]; rfl
    have hencode := Engine.encode_eq_encodeSlots hop (h.joined id hid) fun m hm => by
      refine Engine.isTerminal_of_isUnwritten ((h.waiting m (mem_unsent_of_mem_members hid hm)).resolve_right ?_)
      rw [hready hrequest m hm]
      exact Bool.false_ne_true
    have hne : encodeSlots (e.slots id) ≠ [] := fun hnil =>
      Engine.slots_ne_nil (h.lt_size_of_mem_writeQueue hid) (encodeSlots_eq_nil.1 hnil)
    rw [heq]
    exact ⟨hencode, List.length_pos_iff.2 (hencode ▸ hne), Engine.copied_of_none hrequest⟩

/-- What writing does to the head. -/
structure Written (e e' : Engine) (id : Nat) (piece : Bytes) (room : Nat) : Prop where
  size : e'.size = e.size
  within : piece.length ≤ room
  copied : e'.copied id = e.copied id ++ piece
  request : ∃ r, e'.request? id = some r ∧ r.bytes = encodeSlots (e.slots id) ∧
    r.written ≤ r.bytes.length

theorem AtHand.written (h : AtHand accepted taken order q e) {id : Nat} {rest : List Nat}
    (hq : q.writeQueue = id :: rest) (room : Nat) :
    Written e (e.fill id room).1 id (e.fill id room).2 room := by
  have hflat := h.custody.sound.flat
  obtain ⟨op, hop⟩ := Engine.get?_of_lt_size (h.lt_size_of_mem_writeQueue (hq ▸ List.mem_cons_self))
  obtain ⟨hbytes, hleft, hcopied⟩ := h.requestOf hq hop
  have hrequest := Engine.request?_fill hflat hop room
  rw [Engine.fill_snd hop]
  refine ⟨(Engine.becomes_fill hflat hop room).size_eq, ?_, ?_, _, hrequest, hbytes, ?_⟩
  · exact List.length_take_le _ _
  · rw [Engine.copied_of_some hrequest, hcopied, List.take_add, Engine.piece, Request.left,
      List.length_take, ← List.take_eq_take_min]
  · simp only [Engine.piece, Request.left, List.length_take, List.length_drop]
    omega

/-- As much of the head is written as there is room for. -/
theorem AtHand.fill (h : AtHand accepted taken order q e) {id : Nat} {rest : List Nat}
    (hq : q.writeQueue = id :: rest) :
    let room := q.settings.writeBufferSize - q.writeBuffer.length
    Aligned accepted taken order { q with writeBuffer := q.writeBuffer ++ (e.fill id room).2 }
        (e.fill id room).1 ∧
      (∀ x ∈ rest, (e.fill id room).1.Paused x) ∧
      ∃ r, (e.fill id room).1.request? id = some r := by
  intro room
  have hid : id ∈ q.writeQueue := hq ▸ List.mem_cons_self
  have hrest : ∀ x ∈ rest, x ∈ q.writeQueue := fun x hx => hq ▸ List.mem_cons_of_mem id hx
  have hsound := h.custody.sound
  have hgoes := Engine.goes_fill hsound id room
  have hfollows := hgoes.follows
  obtain ⟨hsize, hwithin, hcopied, r, hrequest, hbytes, hle⟩ := h.written hq room
  have hnot : ∀ x ∈ rest ++ q.input, x ≠ id := fun x hx =>
    ne_of_mem_of_not_mem hx (h.custody.not_mem_behind hq)
  have hkeeps : ∀ x, x ≠ id → e.Keeps (e.fill id room).1 x := fun x hx =>
    Engine.keeps_fill hsound.flat hx room
  have hmembers : ∀ x ∈ q.writeQueue, (e.fill id room).1.members x = e.members x := fun x hx =>
    hfollows.members_eq (h.lt_size_of_mem_writeQueue hx)
  have hrequests : ({ q with writeBuffer := q.writeBuffer ++ (e.fill id room).2 } : Queue).requests
      (e.fill id room).1 = q.requests e :=
    hfollows.flatMap_slots_eq hsound fun x hx => h.lt_size hx
  have hunstarted : ∀ x ∈ rest, isStarted (e.fill id room).1 x = false := fun x hx => by
    rw [Engine.isStarted_eq, (hkeeps x (hnot x (List.mem_append_left _ hx))).request,
      ← Engine.isStarted_eq]
    exact h.behind x (by rwa [hq])
  have hunsent : ({ q with writeBuffer := q.writeBuffer ++ (e.fill id room).2 } : Queue).unsent
      (e.fill id room).1 = q.unsent e := unsent_congr hmembers
  refine ⟨⟨h.custody.goes hgoes rfl rfl, ?_, ?_, fun x hx => ?_, fun x hx r' hr => ?_, fun x hx => ?_,
    fun x hx => ?_, fun x hx => ?_, ?_, fun x hx hnot => ?_, fun x hx hnew => ?_⟩, fun x hx => ?_,
    r, hrequest⟩
  · have := h.room
    simp only [List.length_append]
    omega
  · rw [hfollows.flatMap_slots_eq hsound fun x hx => h.lt_size (List.mem_append_left _ hx)]
    simp only [hq, List.flatMap_cons, Engine.flatMap_copied_of_not_isStarted hunstarted,
      List.append_nil, hcopied]
    rw [← List.append_assoc, h.copied_of_cons hq, List.append_assoc]
  · rw [hunsent] at hx
    rw [(Engine.level_fill hsound.flat id room x).1, (Engine.level_fill hsound.flat id room x).2]
    exact h.waiting x hx
  · rw [hfollows.slots_eq hsound (h.lt_size_of_mem_writeQueue hx)]
    by_cases hxid : x = id
    · rw [hxid, hrequest] at hr
      cases hr
      exact hxid ▸ ⟨hbytes, hle⟩
    · rw [(hkeeps x hxid).request] at hr
      exact h.encoded x hx r' hr
  · change x ∈ q.writeQueue.tail at hx
    rw [hq] at hx
    exact hunstarted x hx
  · rw [(hkeeps x (hnot x (List.mem_append_right _ hx))).request]
    exact h.input x hx
  · exact hfollows.joined hsound (h.lt_size_of_mem_writeQueue hx) (h.joined x hx)
  · rw [hrequests]
    exact h.listed
  · rw [hrequests] at hnot
    exact Engine.isCancelled_of_follows hfollows (h.omitted x hx hnot)
  · have hsingle := Engine.isSingle_of_follows hfollows hsize hx
    have hxid : x ≠ id := by
      rintro rfl
      exact hnew (h.custody.owned x (mem_held_of_mem_unsent (mem_unsent_of_mem_writeQueue hid)) hsingle)
    rw [(hkeeps x hxid).request, (hkeeps x hxid).unwritten, (hkeeps x hxid).cancelled]
    exact h.untouched x hsingle hnew
  · exact (Engine.Spares.kept (hkeeps x (hnot x (List.mem_append_left _ hx)))).paused
      (h.paused x (by rwa [hq])) (hmembers x (hrest x hx))

/-- Some of the request is left, so its operation stays where it is. -/
theorem Aligned.stay (h : Aligned accepted taken order q e) {id : Nat} {rest : List Nat}
    (hq : q.writeQueue = id :: rest) (hpaused : ∀ x ∈ rest, e.Paused x) {r : Request}
    (hr : e.request? id = some r) (hleft : e.unwritten id ≠ []) :
    AtRest accepted taken order q e := by
  refine ⟨h, fun x hx => ?_⟩
  rw [hq] at hx
  rcases List.mem_cons.1 hx with rfl | hx
  · refine ⟨fun hnone => ?_, fun r' hr' => ?_⟩
    · rw [hr] at hnone
      cases hnone
    · rw [Engine.unwritten_eq, hr'] at hleft
      refine Nat.lt_of_not_le fun hle => hleft ?_
      rw [Option.map_some, Option.getD_some, Request.left, List.drop_eq_nil_of_le hle]
  · exact hpaused x hx

/-- Nothing of the request is left, and its operation goes on to wait for its responses. -/
theorem Aligned.handOn (h : Aligned accepted taken order q e) {id : Nat} {rest : List Nat}
    (hq : q.writeQueue = id :: rest) (hpaused : ∀ x ∈ rest, e.Paused x) {r : Request}
    (hr : e.request? id = some r) (hleft : e.unwritten id = []) :
    AtRest accepted taken order { q with writeQueue := rest, readQueue := q.readQueue ++ [id] }
      (e.finishWriting id) := by
  have hid : id ∈ q.writeQueue := hq ▸ List.mem_cons_self
  have hmem : ∀ x ∈ rest, x ∈ q.writeQueue := fun x hx => by
    rw [hq]
    exact List.mem_cons_of_mem id hx
  have hsound := h.custody.sound
  have hwhole : e.copied id = encodeSlots (e.slots id) := by
    obtain ⟨hbytes, -⟩ := h.encoded id hid r hr
    rw [Engine.unwritten_eq, hr, Option.map_some, Option.getD_some, Request.left,
      List.drop_eq_nil_iff] at hleft
    rw [Engine.copied_of_some hr, List.take_of_length_le hleft, hbytes]
  have hcustody : Custody accepted { q with writeQueue := rest, readQueue := q.readQueue ++ [id] } e := by
    refine @Custody.release _ [] _ _ _ _ h.custody (Engine.Goes.refl hsound) ?_ (by simp) h.custody.input
    simp only [line, hq]
    refine List.perm_iff_count.2 fun x => ?_
    simp only [List.count_append, List.count_cons, List.count_nil]
    omega
  have hrequests : ({ q with writeQueue := rest, readQueue := q.readQueue ++ [id] } : Queue).requests e =
      q.requests e := by
    simp only [requests, hq, List.append_assoc, List.cons_append, List.nil_append]
  have hmoved : AtRest accepted taken order
      { q with writeQueue := rest, readQueue := q.readQueue ++ [id] } e := by
    refine ⟨⟨hcustody, h.room, ?_, fun x hx => h.waiting x ?_, fun x hx => h.encoded x (hmem x hx),
      fun x hx => h.behind x ?_, h.input, fun x hx => h.joined x (hmem x hx), ?_, ?_, h.untouched⟩,
      hpaused⟩
    · refine h.bytes.trans ?_
      simp only [hq, List.flatMap_cons, List.flatMap_append, List.flatMap_nil, List.append_nil,
        encodeSlots_append, hwhole, List.append_assoc]
    · simp only [unsent, hq, List.flatMap_cons, List.mem_append, List.mem_cons] at hx ⊢
      grind
    · rw [hq, List.tail_cons]
      exact List.mem_of_mem_tail hx
    · rw [hrequests]
      exact h.listed
    · rw [hrequests]
      exact h.omitted
  obtain ⟨op, hop⟩ := Engine.get?_of_lt_size (h.lt_size_of_mem_writeQueue hid)
  refine hmoved.spare (Engine.goes_finishWriting hsound id)
    (Engine.becomes_finishWriting hsound.flat hop).size_eq (fun x hx => ?_) q.readBuffer
  refine .kept (Engine.keeps_of_life?_eq (Engine.life?_finishWriting hsound.flat fun hself => ?_))
  exact hcustody.not_awaits (List.mem_append_right _ (List.mem_singleton_self id)) hself hx

/-- Packing keeps the stream aligned. -/
theorem AtRest.pack (h : AtRest accepted taken order q e) :
    AtRest accepted taken order (q.pack e).1 (q.pack e).2 := by
  refine pack_rounds (P := AtRest accepted taken order) (R := AtHand accepted taken order)
    (fun hq hstarted hcancelled h => h.drop hq hstarted hcancelled)
    (fun hq hdue h => h.regroup hq hdue) (fun hq _ _ hleft h => ?_) (fun hq _ _ hleft h => ?_) q e h
  · obtain ⟨hfilled, hpaused, r, hr⟩ := h.fill hq
    exact hfilled.stay hq hpaused hr hleft
  · obtain ⟨hfilled, hpaused, r, hr⟩ := h.fill hq
    exact hfilled.handOn hq hpaused hr hleft

end Queue

end ShardedCache

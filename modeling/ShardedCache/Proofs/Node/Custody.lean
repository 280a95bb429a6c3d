import ShardedCache.Proofs.Node.Run

/-!
# Nothing is lost and nothing is held twice

A node holds an operation in its input queue, in its write queue, in its read queue, or among the
members of a batch in one of the latter two. Each accepted operation that has not ended is held
exactly once, whatever happens, and when the node is destroyed each has ended and has said so once
(`Lane.custody`). The invariant is `Queue.Custody`; most actions keep it because what they let go of
has ended (`Custody.release`).
-/

namespace ShardedCache

open Wire (Status)

namespace Queue

/-- The three queues in one. -/
def line (q : Queue) : List Nat := q.input ++ (q.writeQueue ++ q.readQueue)

/-- Everything that the node holds: what is in its queues, and the members of the batches that wait
to be written or to be answered. -/
def held (q : Queue) (e : Engine) : List Nat :=
  q.line ++ (q.writeQueue ++ q.readQueue).flatMap e.members

/-- Who has been accepted and has not ended is held, and nobody is held twice. -/
structure Custody (accepted : List Nat) (q : Queue) (e : Engine) : Prop where
  sound : e.Sound
  nodup : (q.held e).Nodup
  known : ∀ id ∈ q.held e, id < e.size
  owned : ∀ id ∈ q.held e, e.IsSingle id → id ∈ accepted
  input : ∀ id ∈ q.input, e.IsSingle id
  made : ∀ id ∈ accepted, id < e.size
  located : ∀ id ∈ accepted, e.isTerminal id ∨ id ∈ q.held e

theorem mem_held_of_mem_line {q : Queue} {e : Engine} {id : Nat} (h : id ∈ q.line) :
    id ∈ q.held e := List.mem_append_left _ h

/-- The head of the write queue does not wait anywhere behind. -/
theorem Custody.not_mem_behind {accepted : List Nat} {q : Queue} {e : Engine} {id : Nat}
    {rest : List Nat} (h : Custody accepted q e) (hq : q.writeQueue = id :: rest) :
    id ∉ rest ++ q.input := by
  have hline : q.line.Nodup := (List.nodup_append.1 h.nodup).1
  rw [line, hq] at hline
  obtain ⟨-, hqueues, hapart⟩ := List.nodup_append.1 hline
  intro hid
  rcases List.mem_append.1 hid with hid | hid
  · exact (List.nodup_cons.1 hqueues).1 (List.mem_append_left _ hid)
  · exact hapart id hid id List.mem_cons_self rfl

/-- As there are no batches in the input queue, whatever is in the queues is held with its
members. -/
theorem held_eq {q : Queue} {e : Engine} (h : ∀ id ∈ q.input, e.IsSingle id) :
    q.held e = q.line ++ q.line.flatMap e.members := by
  have hnone : q.input.flatMap e.members = [] :=
    List.flatMap_eq_nil_iff.2 fun id hid => Engine.members_of_isSingle (h id hid)
  simp only [held, line, List.flatMap_append, hnone, List.nil_append]

/-- What is held depends on the engine only by the members of the operations that are known. -/
theorem held_congr {q : Queue} {e e' : Engine} (h : e.Follows e')
    (hknown : ∀ id ∈ q.held e, id < e.size) : q.held e' = q.held e := by
  have hmembers : (q.writeQueue ++ q.readQueue).flatMap e'.members =
      (q.writeQueue ++ q.readQueue).flatMap e.members := by
    rw [List.flatMap_def, List.flatMap_def]
    congr 1
    refine List.map_congr_left fun id hid => h.members_eq (hknown id ?_)
    exact mem_held_of_mem_line (List.mem_append_right _ hid)
  rw [held, held, hmembers]

/-- The engine goes on, and the queues let go of what has ended. -/
theorem Custody.release {accepted gone : List Nat} {q q' : Queue} {e e' : Engine}
    (h : Custody accepted q e) (hgoes : e.Goes e') (hline : (q'.line ++ gone).Perm q.line)
    (hgone : ∀ id ∈ gone, e'.isTerminal id) (hinput : ∀ id ∈ q'.input, e.IsSingle id) :
    Custody accepted q' e' := by
  have hperm : (q'.held e ++ (gone ++ gone.flatMap e.members)).Perm (q.held e) := by
    rw [held_eq hinput, held_eq h.input]
    refine List.Perm.trans ?_ (hline.append (hline.flatMap_right e.members))
    rw [List.flatMap_append]
    refine List.perm_iff_count.2 fun x => ?_
    simp only [List.count_append]
    omega
  have hsub : ∀ id ∈ q'.held e, id ∈ q.held e := fun id hid =>
    hperm.mem_iff.1 (List.mem_append_left _ hid)
  have hheld : q'.held e' = q'.held e :=
    held_congr hgoes.follows fun id hid => h.known id (hsub id hid)
  have hsize := hgoes.follows.size_le
  have hsingle : ∀ id ∈ q'.held e, (e'.IsSingle id ↔ e.IsSingle id) := fun id hid => by
    rw [Engine.IsSingle, hgoes.follows.nature?_eq (h.known id (hsub id hid)), ← Engine.IsSingle]
  have hlost : ∀ id ∈ gone ++ gone.flatMap e.members, e'.isTerminal id := fun id hid => by
    rcases List.mem_append.1 hid with hid | hid
    · exact hgone id hid
    · obtain ⟨b, hb, hm⟩ := List.mem_flatMap.1 hid
      have hknown := h.known b (mem_held_of_mem_line (hline.mem_iff.1 (List.mem_append_right _ hb)))
      exact hgoes.sound.settled (hgone b hb) id (by rwa [hgoes.follows.members_eq hknown])
  constructor
  · exact hgoes.sound
  · rw [hheld]
    exact (List.nodup_append.1 (hperm.nodup_iff.2 h.nodup)).1
  · rw [hheld]
    exact fun id hid => Nat.lt_of_lt_of_le (h.known id (hsub id hid)) hsize
  · rw [hheld]
    exact fun id hid hs => h.owned id (hsub id hid) ((hsingle id hid).1 hs)
  · exact fun id hid => (hsingle id (mem_held_of_mem_line (List.mem_append_left _ hid))).2
      (hinput id hid)
  · exact fun id hid => Nat.lt_of_lt_of_le (h.made id hid) hsize
  · intro id hid
    rw [hheld]
    rcases h.located id hid with hend | hmem
    · exact .inl (hgoes.follows.isTerminal (h.made id hid) hend)
    · rcases List.mem_append.1 (hperm.mem_iff.2 hmem) with hkept | hout
      · exact .inr hkept
      · exact .inl (hlost id hout)

/-- The engine goes on and the queues stay as they are. -/
theorem Custody.goes {accepted : List Nat} {q q' : Queue} {e e' : Engine}
    (h : Custody accepted q e) (hgoes : e.Goes e') (hline : q'.line = q.line)
    (hinput : q'.input = q.input) : Custody accepted q' e' :=
  h.release hgoes (by rw [hline, List.append_nil]) (by simp) (by rw [hinput]; exact h.input)

/-! ## Packing -/

theorem isTerminal_of_isCancelled {e : Engine} {id : Nat} (h : e.isCancelled id) :
    e.isTerminal id := by
  cases hop : e.get? id with
  | none => simp [Engine.isTerminal, hop]
  | some op =>
    have hphase : op.phase = .cancelled := by
      simpa [Engine.isCancelled, hop, Operation.isCancelled] using h
    simp [Engine.isTerminal, hop, Operation.isTerminal, hphase, Phase.isTerminal]

/-- A batch takes the place of the operations that it stands for, and holds them. -/
theorem custody_optimize {accepted : List Nat} {q : Queue} {e : Engine} (h : Custody accepted q e) :
    Custody accepted (q.optimize e).1 (q.optimize e).2 := by
  rcases optimize_cases q e with heq | ⟨family, n, e', hregrouped, heq⟩
  · rw [heq]
    exact h
  rw [heq]
  dsimp only
  have hgoes := hregrouped.goes h.sound
  obtain ⟨tag, multiplexer, idempotent, hop⟩ := hregrouped.get?_size
  have hmembers : e'.members e.size = q.writeQueue.take n := by
    rw [Engine.members, hop]
    rfl
  have hsize := hgoes.follows.size_le
  have hlt : e.size < e'.size := Engine.lt_size_of_get? hop
  have hrest : (q.writeQueue.drop n ++ q.readQueue).flatMap e'.members =
      (q.writeQueue.drop n ++ q.readQueue).flatMap e.members := by
    rw [List.flatMap_def, List.flatMap_def]
    congr 1
    refine List.map_congr_left fun id hid => hgoes.follows.members_eq (h.known id ?_)
    refine mem_held_of_mem_line (List.mem_append_right _ ?_)
    rcases List.mem_append.1 hid with hid | hid
    · exact List.mem_append_left _ (List.mem_of_mem_drop hid)
    · exact List.mem_append_right _ hid
  have hperm : (({ q with writeQueue := e.size :: q.writeQueue.drop n } : Queue).held e').Perm
      (e.size :: q.held e) := by
    have htaken : (q.writeQueue.take n).flatMap e.members = [] :=
      List.flatMap_eq_nil_iff.2 fun id hid => Engine.members_of_isSingle (hregrouped.isSingle hid)
    have hwhole : q.held e = q.input ++ (q.writeQueue.take n ++ q.writeQueue.drop n ++ q.readQueue) ++
        (q.writeQueue.drop n ++ q.readQueue).flatMap e.members := by
      rw [held, line]
      conv => lhs; rw [← List.take_append_drop n q.writeQueue]
      simp only [List.flatMap_append, htaken, List.nil_append]
    rw [hwhole, held, line]
    simp only [List.cons_append, List.flatMap_cons, hmembers, hrest]
    refine List.perm_iff_count.2 fun x => ?_
    simp only [List.count_append, List.count_cons]
    omega
  have hsingle : ∀ id, id < e.size → (e'.IsSingle id ↔ e.IsSingle id) := fun id hid => by
    rw [Engine.IsSingle, hgoes.follows.nature?_eq hid, ← Engine.IsSingle]
  constructor
  · exact hgoes.sound
  · refine hperm.nodup_iff.2 (List.nodup_cons.2 ⟨fun hmem => ?_, h.nodup⟩)
    exact Nat.lt_irrefl _ (h.known _ hmem)
  · intro id hid
    rcases List.mem_cons.1 (hperm.mem_iff.1 hid) with rfl | hid
    · exact hlt
    · exact Nat.lt_of_lt_of_le (h.known id hid) hsize
  · intro id hid hs
    rcases List.mem_cons.1 (hperm.mem_iff.1 hid) with rfl | hid
    · obtain ⟨nature, c, hnature, hc⟩ := hs
      rw [Engine.nature?_of_get? hop] at hnature
      cases hnature
      cases hc
    · exact h.owned id hid ((hsingle id (h.known id hid)).1 hs)
  · exact fun id hid => (hsingle id (h.known id (mem_held_of_mem_line
      (List.mem_append_left _ hid)))).2 (h.input id hid)
  · exact fun id hid => Nat.lt_of_lt_of_le (h.made id hid) hsize
  · intro id hid
    rcases h.located id hid with hend | hmem
    · exact .inl (hgoes.follows.isTerminal (h.made id hid) hend)
    · exact .inr (hperm.mem_iff.2 (List.mem_cons_of_mem _ hmem))

theorem custody_packing {accepted : List Nat} {q q' : Queue} {e e' : Engine}
    (hstep : Packing q e q' e') (h : Custody accepted q e) : Custody accepted q' e' := by
  cases hstep with
  | @drop id rest hq hstarted hcancelled =>
    refine @Custody.release _ [id] _ _ _ _ h (Engine.Goes.refl h.sound) ?_ ?_ h.input
    · simp only [line, hq]
      refine List.perm_iff_count.2 fun x => ?_
      simp only [List.count_append, List.count_cons, List.count_nil]
      omega
    · simpa using isTerminal_of_isCancelled hcancelled
  | @regroup id rest hq hdue =>
    rcases regroup_cases q e id with heq | ⟨-, heq⟩
    · rw [heq]
      exact h
    · rw [heq]
      exact custody_optimize h
  | @fill id rest hq hdue hroom hleft =>
    exact h.goes (Engine.goes_fill h.sound id _) rfl rfl
  | @handOn id rest hq hdue hroom hleft =>
    have hfill := Engine.goes_fill h.sound id (q.settings.writeBufferSize - q.writeBuffer.length)
    refine @Custody.release _ [] _ _ _ _ h
      (hfill.trans (Engine.goes_finishWriting hfill.sound id)) ?_ (by simp) h.input
    simp only [line, hq]
    refine List.perm_iff_count.2 fun x => ?_
    simp only [List.count_append, List.count_cons, List.count_nil]
    omega

/-! ## Processing -/

theorem custody_processing {accepted : List Nat} {q q' : Queue} {e e' : Engine}
    (hstep : Processing q e q' e') (h : Custody accepted q e) : Custody accepted q' e' := by
  have hpop : ∀ {id : Nat} {waiting : List Nat} {rest : Bytes} {e' : Engine},
      q.readQueue = id :: waiting → e.Goes e' → e'.isTerminal id →
        Custody accepted { q with readBuffer := rest, readQueue := waiting } e' := by
    intro id waiting rest e' hq hgoes hend
    refine @Custody.release _ [id] _ _ _ _ h hgoes ?_ (by simpa using hend) h.input
    simp only [line, hq]
    refine List.perm_iff_count.2 fun x => ?_
    simp only [List.count_append, List.count_cons, List.count_nil]
    omega
  cases hstep with
  | stray hparse hq => exact h.goes (Engine.Goes.refl h.sound) rfl rfl
  | pending hparse hq hreceive => exact h.goes (Engine.goes_receive h.sound _ _).1 rfl rfl
  | last hparse hq hreceive =>
    obtain ⟨hgoes, hend⟩ := Engine.goes_receive h.sound _ _
    exact hpop hq hgoes (hend hreceive)
  | strayFault hparse hq => exact h.goes (Engine.Goes.refl h.sound) rfl rfl
  | fault hparse hq =>
    obtain ⟨hgoes, hend⟩ := Engine.goes_fail h.sound _ _
    exact hpop hq hgoes hend

/-! ## Taking submissions in -/

/-- Whatever is not taken in and not left has been cancelled. -/
theorem takeInput_perm (e : Engine) (room : Nat) (input : List Nat) :
    ∃ gone, ((takeInput e room input).1 ++ (takeInput e room input).2 ++ gone).Perm input ∧
      ∀ id ∈ gone, e.isCancelled id := by
  fun_induction takeInput e room input with
  | case1 input => exact ⟨[], by simp, by simp⟩
  | case2 room => exact ⟨[], by simp, by simp⟩
  | case3 room id rest hcancelled ih =>
    obtain ⟨gone, hperm, hgone⟩ := ih
    refine ⟨id :: gone, List.perm_middle.trans (hperm.cons id), fun x hx => ?_⟩
    rcases List.mem_cons.1 hx with rfl | hx
    · exact hcancelled
    · exact hgone x hx
  | case4 room id rest hopen taken left htake ih =>
    obtain ⟨gone, hperm, hgone⟩ := ih
    rw [htake] at hperm
    exact ⟨gone, hperm.cons id, hgone⟩

theorem custody_copyInput {accepted : List Nat} {q : Queue} {e : Engine}
    (h : Custody accepted q e) : Custody accepted (q.copyInput e).1 e := by
  obtain ⟨gone, hperm, hgone⟩ :=
    takeInput_perm e (q.settings.writeQueueCapacity - q.writeQueue.length) q.input
  refine @Custody.release _ gone _ _ _ _ h (Engine.Goes.refl h.sound) ?_
    (fun id hid => isTerminal_of_isCancelled (hgone id hid)) fun id hid => h.input id ?_
  · rw [List.perm_iff_count] at hperm ⊢
    intro x
    have := hperm x
    simp only [line, copyInput, List.count_append] at this ⊢
    omega
  · exact hperm.mem_iff.1 (List.mem_append_left _ (List.mem_append_right _ hid))

/-- A new operation is taken into one of the queues. -/
theorem Custody.accept {accepted : List Nat} {q q' : Queue} {e : Engine} {id : Nat}
    (h : Custody accepted q e) (hsingle : e.IsSingle id) (hnew : id ∉ accepted)
    (hheld : (q'.held e).Perm (id :: q.held e)) (hinput : ∀ x ∈ q'.input, e.IsSingle x) :
    Custody (id :: accepted) q' e := by
  have hsize : id < e.size := Engine.lt_size_of_isSingle hsingle
  constructor
  · exact h.sound
  · refine hheld.nodup_iff.2 (List.nodup_cons.2 ⟨fun hmem => ?_, h.nodup⟩)
    exact hnew (h.owned id hmem hsingle)
  · intro x hx
    rcases List.mem_cons.1 (hheld.mem_iff.1 hx) with rfl | hx
    · exact hsize
    · exact h.known x hx
  · intro x hx hs
    rcases List.mem_cons.1 (hheld.mem_iff.1 hx) with rfl | hx
    · exact List.mem_cons_self
    · exact List.mem_cons_of_mem _ (h.owned x hx hs)
  · exact hinput
  · intro x hx
    rcases List.mem_cons.1 hx with rfl | hx
    · exact hsize
    · exact h.made x hx
  · intro x hx
    rcases List.mem_cons.1 hx with rfl | hx
    · exact .inr (hheld.mem_iff.2 List.mem_cons_self)
    · exact (h.located x hx).imp_right fun hmem => hheld.mem_iff.2 (List.mem_cons_of_mem _ hmem)

theorem submit_eq {q q' : Queue} {id : Nat} (h : q.submit id = .ok q') :
    q' = { q with input := q.input ++ [id] } := by
  unfold submit at h
  split at h
  · cases h
  · split at h <;> cases h
    rfl

theorem custody_submit {accepted : List Nat} {q : Queue} {e : Engine} {id : Nat}
    (h : Custody accepted q e) (hsingle : e.IsSingle id) (hnew : id ∉ accepted) :
    Custody (id :: accepted) { q with input := q.input ++ [id] } e := by
  refine h.accept hsingle hnew ?_ fun x hx => ?_
  · simp only [held, line]
    refine List.perm_iff_count.2 fun x => ?_
    simp only [List.count_append, List.count_cons, List.count_nil]
    omega
  · rcases List.mem_append.1 hx with hx | hx
    · exact h.input x hx
    · rwa [List.mem_singleton.1 hx]

theorem custody_pushFront {accepted : List Nat} {q : Queue} {e : Engine} {id : Nat}
    (h : Custody accepted q e) (hsingle : e.IsSingle id) (hnew : id ∉ accepted) :
    Custody (id :: accepted) (q.pushFront id) e := by
  refine h.accept hsingle hnew ?_ h.input
  have hnone := Engine.members_of_isSingle hsingle
  simp only [held, line, pushFront, List.cons_append, List.flatMap_cons, hnone, List.nil_append]
  refine List.perm_iff_count.2 fun x => ?_
  simp only [List.count_append, List.count_cons]
  omega

/-! ## Faults and the end -/

theorem goes_cancelEach {cause : String} : ∀ {ids : List Nat} {e : Engine}, e.Sound →
    (∀ id ∈ ids, id < e.size) →
    e.Goes (cancelEach e ids cause) ∧ ∀ id ∈ ids, (cancelEach e ids cause).isTerminal id
  | [], e, he, _ => ⟨Engine.Goes.refl he, by simp⟩
  | id :: ids, e, he, hknown => by
    obtain ⟨hgoes, hend⟩ := Engine.goes_cancel he id cause
    have hsize := hgoes.follows.size_le
    have hid : id < (e.cancel id cause).1.size :=
      Nat.lt_of_lt_of_le (hknown id List.mem_cons_self) hsize
    obtain ⟨hrest, hends⟩ := @goes_cancelEach cause ids (e.cancel id cause).1 hgoes.sound
      fun x hx => Nat.lt_of_lt_of_le (hknown x (List.mem_cons_of_mem _ hx)) hsize
    refine ⟨hgoes.trans hrest, fun x hx => ?_⟩
    rcases List.mem_cons.1 hx with rfl | hx
    · exact hrest.follows.isTerminal hid hend
    · exact hends x hx

/-- A fault cancels those that wait for a response, and perhaps the one that is being written. -/
theorem resend_eq {q : Queue} {e : Engine} {cause : String}
    (hread : (cancelEach e q.readQueue cause).Sound) :
    ∃ (e' : Engine) (kept gone : List Nat),
      q.resend e cause = ({ q with
        readQueue := [], writeQueue := kept.filter (!e'.isCancelled ·), writeBuffer := []
        readBuffer := [] }, e') ∧
      (cancelEach e q.readQueue cause).Goes e' ∧ (kept ++ gone).Perm q.writeQueue ∧
      ∀ id ∈ gone, e'.isTerminal id := by
  unfold resend
  cases hq : q.writeQueue with
  | nil => exact ⟨_, [], [], rfl, Engine.Goes.refl hread, List.Perm.refl _, by simp⟩
  | cons id rest =>
    dsimp only
    split
    · exact ⟨_, id :: rest, [], rfl, Engine.Goes.refl hread, by simp, by simp⟩
    · split
      · exact ⟨_, id :: rest, [], rfl, Engine.goes_reset hread id, by simp, by simp⟩
      · obtain ⟨hgoes, hend⟩ := Engine.goes_cancel hread id cause
        refine ⟨_, rest, [id], rfl, hgoes, ?_, by simpa using hend⟩
        exact List.perm_append_comm

/-- Whatever the queues let go of on a fault has been cancelled. -/
theorem custody_resend {accepted : List Nat} {q : Queue} {e : Engine} (h : Custody accepted q e)
    (cause : String) : Custody accepted (q.resend e cause).1 (q.resend e cause).2 := by
  have hknown : ∀ id ∈ q.line, id < e.size := fun id hid => h.known id (mem_held_of_mem_line hid)
  obtain ⟨hread, hreadEnd⟩ := @goes_cancelEach cause q.readQueue e h.sound fun id hid =>
    hknown id (List.mem_append_right _ (List.mem_append_right _ hid))
  obtain ⟨e', kept, gone, heq, hgoes, hperm, hgone⟩ := resend_eq hread.sound
  rw [heq]
  refine @Custody.release _ (q.readQueue ++ gone ++ kept.filter e'.isCancelled) _ _ _ _ h
    (hread.trans hgoes) ?_ ?_ h.input
  · have hfilter := List.filter_append_perm e'.isCancelled kept
    rw [List.perm_iff_count] at hperm hfilter ⊢
    intro x
    have hx := hperm x
    have hf := hfilter x
    simp only [line, List.count_append, List.count_nil] at hx hf ⊢
    omega
  · intro id hid
    rcases List.mem_append.1 hid with hid | hid
    · rcases List.mem_append.1 hid with hid | hid
      · have hlt := hknown id (List.mem_append_right _ (List.mem_append_right _ hid))
        exact hgoes.follows.isTerminal (Nat.lt_of_lt_of_le hlt hread.follows.size_le)
          (hreadEnd id hid)
      · exact hgone id hid
    · exact isTerminal_of_isCancelled (List.mem_filter.1 hid).2

/-- Whoever has been accepted has ended when the node is destroyed. -/
theorem isTerminal_destroy {accepted : List Nat} {q : Queue} {e : Engine}
    (h : Custody accepted q e) (cause : String) :
    e.Goes (q.destroy e cause).2 ∧ ∀ id ∈ accepted, (q.destroy e cause).2.isTerminal id := by
  have hline : ∀ id, id ∈ q.readQueue ++ q.writeQueue ++ q.input ↔ id ∈ q.line := fun id => by
    simp only [line, List.mem_append]
    grind
  have hknown : ∀ id ∈ q.line, id < e.size := fun id hid => h.known id (mem_held_of_mem_line hid)
  obtain ⟨hgoes, hend⟩ := @goes_cancelEach cause (q.readQueue ++ q.writeQueue ++ q.input) e h.sound
    fun id hid => hknown id ((hline id).1 hid)
  refine ⟨hgoes, fun id hid => ?_⟩
  rcases h.located id hid with hdone | hheld
  · exact hgoes.follows.isTerminal (h.made id hid) hdone
  · rw [held_eq h.input] at hheld
    rcases List.mem_append.1 hheld with hmem | hmem
    · exact hend id ((hline id).2 hmem)
    · obtain ⟨b, hb, hm⟩ := List.mem_flatMap.1 hmem
      refine hgoes.sound.settled (hend b ((hline b).2 hb)) id ?_
      rwa [hgoes.follows.members_eq (hknown b hb)]

end Queue

/-! ## Runs -/

/-- An outcome is told once. -/
theorem Told.once {status : Status} {heard : List Event} (h : Told (some status) heard) :
    heard.filter (· matches .status _) = [.status status] ∧ heard.count .finished = 1 := by
  cases h <;> exact ⟨rfl, rfl⟩

namespace Lane

theorem isSingle_of_isFresh {s : Lane} {id : Nat} (h : s.isFresh id) :
    s.engine.IsSingle id ∧ id ∉ s.accepted := by
  simp only [isFresh, Bool.and_eq_true, Option.any_eq_true, Bool.not_eq_true',
    List.contains_eq_mem, decide_eq_false_iff_not] at h
  obtain ⟨⟨op, hop, hsingle⟩, hnew⟩ := h
  refine ⟨?_, hnew⟩
  cases hwork : op.work with
  | single c => exact Engine.isSingle_of_get? hop hwork
  | batch b =>
    rw [hwork] at hsingle
    cases hsingle

def Custody (s : Lane) : Prop := s.queue.Custody s.accepted s.engine

theorem custody_step (s : Lane) (a : Action) (h : s.Custody) : (s.step a).Custody := by
  cases a with
  | create command callback =>
    exact Queue.Custody.goes h (Engine.goes_create h.sound command callback) rfl rfl
  | submit id =>
    simp only [step]
    split
    · next hfresh =>
      obtain ⟨hsingle, hnew⟩ := isSingle_of_isFresh hfresh
      split
      · next queue hsubmit =>
        rw [Queue.submit_eq hsubmit]
        exact Queue.custody_submit h hsingle hnew
      · exact Queue.Custody.goes h (Engine.goes_cancel h.sound id _).1 rfl rfl
    · exact h
  | pushFront id =>
    simp only [step]
    split
    · next hfresh =>
      obtain ⟨hsingle, hnew⟩ := isSingle_of_isFresh hfresh
      exact Queue.custody_pushFront h hsingle hnew
    · exact h
  | copyInput => exact Queue.custody_copyInput h
  | pack => exact Queue.pack_induction (fun hstep => Queue.custody_packing hstep) _ _ h
  | take n => exact Queue.Custody.goes h (Engine.Goes.refl h.sound) rfl rfl
  | receive bytes =>
    have hread := @Queue.Custody.goes _ _ (s.queue.appendRead bytes) _ _ h (Engine.Goes.refl h.sound)
      rfl rfl
    exact Queue.process_induction (fun hstep => Queue.custody_processing hstep) _ _ hread
  | cancel id cause => exact Queue.Custody.goes h (Engine.goes_cancel h.sound id cause).1 rfl rfl
  | resend cause => exact Queue.custody_resend h cause

theorem custody_of_initial {s : Lane} (h : s.Initial) : s.Custody := by
  have hget : ∀ id, s.engine.get? id = none := fun id => by rw [Engine.get?, h.operations]; rfl
  have hmembers : ∀ id, s.engine.members id = [] := fun id => by
    rw [Engine.members, hget]
    rfl
  have hheld : s.queue.held s.engine = [] := by
    simp [Queue.held, Queue.line, h.input, h.writeQueue, h.readQueue]
  refine ⟨⟨?_, ?_, ?_, ?_⟩, ?_, ?_, ?_, ?_, ?_, ?_⟩
  · exact fun id m hm => by rw [hmembers] at hm; cases hm
  · exact fun {id l} hl => by rw [Engine.life?, hget] at hl; cases hl
  · exact fun {id} _ m hm => by rw [hmembers] at hm; cases hm
  · exact fun {id} _ => by simp [Engine.heardOf, Reports.heard, h.journal]
  · rw [hheld]; exact List.nodup_nil
  · rw [hheld]; exact fun id hid => absurd hid List.not_mem_nil
  · rw [hheld]; exact fun id hid => absurd hid List.not_mem_nil
  · rw [h.input]; exact fun id hid => absurd hid List.not_mem_nil
  · rw [h.accepted]; exact fun id hid => absurd hid List.not_mem_nil
  · rw [h.accepted]; exact fun id hid => absurd hid List.not_mem_nil

theorem custody_run {s : Lane} (h : s.Initial) (actions : List Action) : (s.run actions).Custody :=
  run_induction custody_step actions (custody_of_initial h)

/-- **No operation is lost or held twice.** After any run an accepted operation that has not ended
is in exactly one place; and when the node is then destroyed every accepted operation has ended and
has told its callback one status and that it is finished, once. -/
theorem custody (s : Lane) (h : s.Initial) (actions : List Action) :
    let t := s.run actions
    (∀ id ∈ t.accepted, t.engine.isTerminal id = false → (t.queue.held t.engine).count id = 1) ∧
    ∀ cause, ∀ id ∈ t.accepted, ∃ l, (t.queue.destroy t.engine cause).2.life? id = some l ∧
      l.isTerminal ∧ (∃ status, l.operation.status = some status ∧
        l.heard.filter (· matches .status _) = [.status status]) ∧
      l.heard.count .finished = 1 := by
  intro t
  have ht := custody_run h actions
  refine ⟨fun id hid hopen => ?_, fun cause id hid => ?_⟩
  · have hmem := (ht.located id hid).resolve_left (by simp [t, hopen])
    rw [ht.nodup.count, if_pos hmem]
  · obtain ⟨hgoes, hend⟩ := Queue.isTerminal_destroy ht cause
    obtain ⟨l₀, hl⟩ := Engine.life?_of_lt_size (ht.made id hid)
    obtain ⟨l, hl, -⟩ := hgoes.follows id l₀ hl
    have hsound := hgoes.sound.lives hl
    have hterminal : l.isTerminal := by
      have := hend id hid
      rwa [Engine.isTerminal_eq, hl] at this
    obtain ⟨status, hstatus⟩ := Option.isSome_iff_exists.1 (hsound.ended.symm.trans hterminal)
    have htold := hsound.told
    rw [hstatus] at htold
    exact ⟨l, hl, hterminal, ⟨status, hstatus, htold.once.1⟩, htold.once.2⟩

/-- Two gets in a batch that is half written when one of them is cancelled. -/
theorem custody_of_half_written_batch :
    let s : Lane :=
      { queue := { settings := ⟨64, 40, 10, true, 10, 1000⟩, node := 0, inputCapacity := 10 }, engine := {} }
    let t := s.run [.create (.get "a" false) .silent, .create (.get "b" false) .silent, .submit 0,
      .submit 1, .copyInput, .pack, .cancel 0 "gone"]
    s.Initial ∧ t.accepted = [1, 0] ∧ t.queue.writeQueue = [2] ∧ t.engine.members 2 = [0, 1] ∧
      (t.queue.held t.engine).count 1 = 1 ∧
      ∃ l, (t.queue.destroy t.engine "down").2.life? 0 = some l ∧ l.isTerminal ∧
        (∃ status, l.operation.status = some status ∧
          l.heard.filter (· matches .status _) = [.status status]) ∧
        l.heard.count .finished = 1 := by
  intro s t
  have h : s.Initial := ⟨rfl, rfl, rfl, rfl, rfl, rfl⟩
  have hrun : (t.accepted, t.queue.writeQueue, t.engine.members 2, t.engine.isTerminal 1) =
      ([1, 0], [2], [0, 1], false) := by decide +kernel
  simp only [Prod.mk.injEq] at hrun
  obtain ⟨haccepted, hqueue, hmembers, hopen⟩ := hrun
  have hspec := custody s h [.create (.get "a" false) .silent, .create (.get "b" false) .silent,
    .submit 0, .submit 1, .copyInput, .pack, .cancel 0 "gone"]
  refine ⟨h, haccepted, hqueue, hmembers, ?_, ?_⟩
  · exact hspec.1 1 (by rw [haccepted]; simp) hopen
  · exact hspec.2 "down" 0 (by rw [haccepted]; simp)

end Lane

end ShardedCache

import Mathlib.Data.List.Nodup
import Mathlib.Data.List.Pairwise
import ShardedCache.Proofs.Node.Stream

/-!
# Nothing is sent twice that may not be

Whatever has been handed on is cancelled when the connection is lost, and the operation that is
being written starts over only if it is idempotent, as a batch is only if all its members are
(`Uniform`). What has been let go of stays away (`Absent`), so an operation that is not idempotent
is sent on one connection at most.
-/

namespace ShardedCache

namespace Engine

/-! ## Idempotence -/

/-- Whether an operation may be sent twice. -/
def isIdempotent (e : Engine) (id : Nat) : Bool := (e.nature? id).any (·.idempotent)

theorem isIdempotent_of_get? {e : Engine} {id : Nat} {op : Operation} (h : e.get? id = some op) :
    e.isIdempotent id = op.idempotent := by
  rw [isIdempotent, nature?_of_get? h]
  rfl

theorem Follows.isIdempotent_eq {e e' : Engine} (h : e.Follows e') {id : Nat} (hid : id < e.size) :
    e'.isIdempotent id = e.isIdempotent id := by
  rw [isIdempotent, h.nature?_eq hid, ← isIdempotent]

theorem isIdempotent_of_mayRepeat {e : Engine} {id : Nat} (h : Queue.mayRepeat e id = true) :
    e.isIdempotent id = true := by
  obtain ⟨op, hop, hmay⟩ := (Option.any_eq_true _ _).1 h
  rw [isIdempotent_of_get? hop]
  exact (Bool.and_eq_true_iff.1 hmay).1

/-- A batch is idempotent only if all its members are. -/
theorem isIdempotent_member_batch {e : Engine} {family : BatchFamily} {members : List Nat}
    {aggregate : Callback} (h : ∀ m ∈ members, e.IsSingle m)
    (hbatch : (e.batch family members aggregate).1.isIdempotent e.size = true) :
    ∀ m ∈ members, (e.batch family members aggregate).1.isIdempotent m = true := by
  obtain ⟨listener, hjoined⟩ := becomes_joined aggregate h
  have hsize := hjoined.size_eq
  intro m hm
  have hlt : m < e.size := lt_size_of_isSingle (h m hm)
  obtain ⟨op, hop⟩ := get?_of_lt_size (hsize ▸ hlt : m < (e.joined members aggregate).size)
  have hold : (e.batch family members aggregate).1.get? m = some op :=
    ((get?_add _ _ _ _ m).trans (if_neg (hsize ▸ Nat.ne_of_lt hlt))).trans hop
  have hnew : (e.batch family members aggregate).1.isIdempotent e.size =
      members.all fun m => (((e.joined members aggregate).get? m).map (·.idempotent)).getD true :=
    isIdempotent_of_get? ((get?_add _ _ _ _ _).trans (if_pos hsize.symm))
  rw [hnew, List.all_eq_true] at hbatch
  have hidempotent := hbatch m hm
  rw [hop] at hidempotent
  rw [isIdempotent_of_get? hold]
  exact hidempotent

end Engine

namespace Queue

theorem Regrouped.isIdempotent_member {q : Queue} {e e' : Engine} {family : BatchFamily} {n : Nat}
    (h : Regrouped q e family n e') (hbatch : e'.isIdempotent e.size = true) :
    ∀ m ∈ q.writeQueue.take n, e'.isIdempotent m = true := by
  have hsame : ∀ id, e'.isIdempotent id =
      (e.batch family (q.writeQueue.take n) .silent).1.isIdempotent id := fun id => by
    have hget : e'.get? id = ((e.batch family (q.writeQueue.take n) .silent).1.modify e.size
        ({ · with node := some q.node })).get? id := congrArg (·[id]?) h.operations
    rw [Engine.isIdempotent, Engine.nature?, hget, Engine.isIdempotent, Engine.nature?]
    simp only [Engine.get?, Engine.modify, List.getElem?_modify]
    cases (e.batch family (q.writeQueue.take n) .silent).1.operations[id]? <;> split <;> rfl
  rw [hsame] at hbatch
  intro m hm
  rw [hsame]
  exact Engine.isIdempotent_member_batch (fun _ => h.isSingle) hbatch m hm

/-! ## What the queues hold, step by step -/

section Line

variable {accepted : List Nat} {q q' : Queue} {e e' : Engine}

theorem Custody.mem_held (h : Custody accepted q e) {x : Nat} :
    x ∈ q.held e ↔ ∃ b ∈ q.line, x ∈ b :: e.members b := by
  rw [held_eq h.input, List.mem_append, List.mem_flatMap]
  constructor
  · rintro (hx | ⟨b, hb, hx⟩)
    · exact ⟨x, hx, List.mem_cons_self⟩
    · exact ⟨b, hb, List.mem_cons_of_mem b hx⟩
  · rintro ⟨b, hb, hx⟩
    rcases List.mem_cons.1 hx with rfl | hx
    · exact .inl hb
    · exact .inr ⟨b, hb, hx⟩

theorem Custody.lt_size (h : Custody accepted q e) {b : Nat} (hb : b ∈ q.line) : b < e.size :=
  h.known b (mem_held_of_mem_line hb)

/-- Nobody is held in two places. -/
theorem Custody.unique (h : Custody accepted q e) {b b' x : Nat} (hb : b ∈ q.line) (hb' : b' ∈ q.line)
    (hx : x ∈ b :: e.members b) (hx' : x ∈ b' :: e.members b') : b = b' := by
  have hperm : (q.line.flatMap fun b => b :: e.members b).Perm (q.held e) := by
    rw [held_eq h.input]
    refine List.perm_iff_count.2 fun y => ?_
    induction q.line with
    | nil => rfl
    | cons b line ih =>
      simp only [List.flatMap_cons, List.count_append, List.count_cons, List.cons_append] at ih ⊢
      omega
  obtain ⟨-, hapart⟩ := List.nodup_flatMap.1 (hperm.nodup_iff.2 h.nodup)
  let Apart (b b' : Nat) : Prop := ∀ x, x ∈ b :: e.members b → x ∈ b' :: e.members b' → b = b'
  have hline : q.line.Pairwise Apart := hapart.imp fun hdisjoint _ hx hx' => (hdisjoint hx hx').elim
  have : Std.Symm Apart := ⟨fun _ _ h x hx hx' => (h x hx' hx).symm⟩
  exact hline.forall_of_forall (fun _ _ _ _ _ => rfl) hb hb' x hx hx'

/-- A batch in the queues is idempotent only if its members are. -/
def Uniform (q : Queue) (e : Engine) : Prop :=
  ∀ b ∈ q.line, e.isIdempotent b = true → ∀ m ∈ e.members b, e.isIdempotent m = true

/-- A round of packing keeps who is in the queues, and perhaps makes a batch of some. -/
theorem mem_line_packing (hstep : Packing q e q' e') {b : Nat} (hb : b ∈ q'.line) :
    b ∈ q.line ∨ e.size ≤ b ∧ (∀ m ∈ e'.members b, m ∈ q.line) ∧
      (e'.isIdempotent b = true → ∀ m ∈ e'.members b, e'.isIdempotent m = true) := by
  cases hstep with
  | @drop id rest hq _ _ =>
    refine .inl ?_
    simp only [line, hq, List.mem_append, List.mem_cons] at hb ⊢
    grind
  | fill hq _ _ _ => exact .inl hb
  | @handOn id rest hq _ _ _ =>
    refine .inl ?_
    simp only [line, hq, List.mem_append, List.mem_cons, List.not_mem_nil, or_false] at hb ⊢
    grind
  | @regroup id rest hq hdue =>
    rcases regroup_cases q e id with h | ⟨-, h⟩
    · rw [h] at hb
      exact .inl hb
    · rw [h] at hb ⊢
      rcases optimize_cases q e with h | ⟨family, n, e', hregrouped, h⟩
      · rw [h] at hb
        exact .inl hb
      · rw [h] at hb ⊢
        by_cases hnew : b = e.size
        · subst hnew
          obtain ⟨tag, multiplexer, idempotent, hbatch⟩ := hregrouped.get?_size
          have hmembers : e'.members e.size = q.writeQueue.take n :=
            Engine.members_of_nature? (Engine.nature?_of_get? hbatch)
          rw [hmembers]
          refine .inr ⟨Nat.le_refl _, fun m hm => ?_, hregrouped.isIdempotent_member⟩
          exact List.mem_append_right _ (List.mem_append_left _ (List.mem_of_mem_take hm))
        · refine .inl ?_
          have hdrop : ∀ x ∈ q.writeQueue.drop n, x ∈ q.writeQueue := fun x hx => List.mem_of_mem_drop hx
          simp only [line, List.mem_append, List.mem_cons] at hb ⊢
          grind

theorem held_packing (hstep : Packing q e q' e') (h : Custody accepted q e) {x : Nat} (hx : x < e.size)
    (hheld : x ∈ q'.held e') : x ∈ q.held e := by
  have hgoes := (goes_packing hstep h.sound).1
  obtain ⟨b, hb, hmem⟩ := (custody_packing hstep h).mem_held.1 hheld
  rcases mem_line_packing hstep hb with hb | ⟨hnew, hmembers, -⟩
  · rw [hgoes.follows.members_eq (h.lt_size hb)] at hmem
    exact h.mem_held.2 ⟨b, hb, hmem⟩
  · rcases List.mem_cons.1 hmem with rfl | hmem
    · exact absurd hx (Nat.not_lt.2 hnew)
    · exact mem_held_of_mem_line (hmembers x hmem)

theorem Uniform.follows (h : Uniform q e) (hcustody : Custody accepted q e) (hfollows : e.Follows e')
    {b : Nat} (hb : b ∈ q.line) (hbatch : e'.isIdempotent b = true) :
    ∀ m ∈ e'.members b, e'.isIdempotent m = true := by
  have hlt := hcustody.lt_size hb
  rw [hfollows.isIdempotent_eq hlt] at hbatch
  rw [hfollows.members_eq hlt]
  intro m hm
  rw [hfollows.isIdempotent_eq (Nat.lt_trans (hcustody.sound.flat b m hm).1 hlt)]
  exact h b hb hbatch m hm

theorem uniform_packing (hstep : Packing q e q' e') (hcustody : Custody accepted q e)
    (h : Uniform q e) : Uniform q' e' := by
  intro b hb hbatch
  rcases mem_line_packing hstep hb with hb | ⟨-, -, huniform⟩
  · exact h.follows hcustody (goes_packing hstep hcustody.sound).1.follows hb hbatch
  · exact huniform hbatch

/-- Packing takes in nobody but new batches, and these are uniform. -/
theorem pack_keeps (hcustody : Custody accepted q e) (h : Uniform q e) :
    (∀ x < e.size, x ∈ (q.pack e).1.held (q.pack e).2 → x ∈ q.held e) ∧
      Uniform (q.pack e).1 (q.pack e).2 := by
  refine (pack_induction (P := fun q' e' => Custody accepted q' e' ∧ e.size ≤ e'.size ∧
      (∀ x < e.size, x ∈ q'.held e' → x ∈ q.held e) ∧ Uniform q' e')
    (fun hstep ⟨hcustody, hsize, hheld, h⟩ => ?_) q e
      ⟨hcustody, Nat.le_refl _, fun _ _ hx => hx, h⟩).2.2
  have hgoes := (goes_packing hstep hcustody.sound).1
  exact ⟨custody_packing hstep hcustody, Nat.le_trans hsize hgoes.follows.size_le,
    fun x hx hmem => hheld x hx (held_packing hstep hcustody (Nat.lt_of_lt_of_le hx hsize) hmem),
    uniform_packing hstep hcustody h⟩

/-- If operations are not regrouped, or nothing is ever written, packing takes in nobody. -/
theorem pack_plain (hplain : q.settings.optimize = false ∨ q.settings.writeBufferSize = 0)
    (e : Engine) : ∀ b ∈ (q.pack e).1.line, b ∈ q.line := by
  rcases hplain with hplain | hzero
  · refine (pack_induction (P := fun q' _ => q'.settings.optimize = false ∧ ∀ b ∈ q'.line, b ∈ q.line)
      (fun {q₁ e₁ q₂ e₂} hstep ⟨hplain, hline⟩ => ?_) q e ⟨hplain, fun _ hb => hb⟩).2
    cases hstep with
    | @drop id rest hq _ _ =>
      refine ⟨hplain, fun b hb => hline b ?_⟩
      simp only [line, hq, List.mem_append, List.mem_cons] at hb ⊢
      grind
    | @regroup id rest hq hdue =>
      rcases regroup_cases q₁ e₁ id with h | ⟨⟨hoptimize, -⟩, -⟩
      · rw [h]
        exact ⟨hplain, hline⟩
      · rw [hplain] at hoptimize
        cases hoptimize
    | fill hq _ _ _ => exact ⟨hplain, hline⟩
    | @handOn id rest hq _ _ _ =>
      refine ⟨hplain, fun b hb => hline b ?_⟩
      simp only [line, hq, List.mem_append, List.mem_cons, List.not_mem_nil, or_false] at hb ⊢
      grind
  · rw [pack, hzero, if_neg (Nat.not_lt_zero _)]
    exact fun _ hb => hb

end Line

end Queue

namespace Traffic

theorem Sound.ledger_custody {t : Traffic} (h : t.Sound) :
    t.ledger.Custody t.lane.accepted t.engine := h.atRest.custody

theorem mem_ledger_line {t : Traffic} {b : Nat} :
    b ∈ t.ledger.line ↔ b ∈ t.lane.queue.input ∨ b ∈ t.lane.queue.writeQueue ∨ b ∈ t.handed := by
  simp only [Queue.line, ledger, Queue.withRead, List.mem_append]

theorem mem_line_resend {t : Traffic} {cause : String} {b : Nat}
    (hb : b ∈ (t.step (.resend cause)).ledger.line) : ∃ kept e',
      Queue.Resending (Queue.cancelEach t.engine t.lane.queue.readQueue cause) cause
        t.lane.queue.writeQueue kept e' ∧ b ∈ kept ++ t.lane.queue.input := by
  obtain ⟨kept, e', hstep, hledger⟩ := t.ledger_resend cause
  refine ⟨kept, e', hstep, ?_⟩
  rw [hledger] at hb
  simp only [Queue.line, List.append_nil, List.mem_append, List.mem_filter] at hb ⊢
  exact hb.symm.imp_left And.left

theorem mem_waiting_of_resend {t : Traffic} {cause : String} {b : Nat}
    (hb : b ∈ (t.step (.resend cause)).ledger.line) :
    b ∈ t.lane.queue.writeQueue ∨ b ∈ t.lane.queue.input := by
  obtain ⟨kept, e', hstep, hline⟩ := mem_line_resend hb
  exact (List.mem_append.1 hline).imp_left (hstep.sublist.subset ·)

theorem mem_line_of_resend {t : Traffic} {cause : String} {b : Nat}
    (hb : b ∈ (t.step (.resend cause)).ledger.line) : b ∈ t.ledger.line :=
  mem_ledger_line.2 ((mem_waiting_of_resend hb).elim (.inr ∘ .inl) .inl)

/-- Only submissions come in, apart from the batches that packing makes. -/
theorem mem_line_step {t : Traffic} (h : t.Sound) {a : Action} (ha : a ≠ .pack) {b : Nat}
    (hb : b ∈ (t.step a).ledger.line) :
    b ∈ t.ledger.line ∨ t.engine.IsSingle b ∧ b ∉ t.lane.accepted := by
  cases a with
  | pack => exact absurd rfl ha
  | create command callback => exact .inl hb
  | take n => exact .inl hb
  | cancel id cause => exact .inl hb
  | copyInput =>
    have hsub := Queue.takeInput_sublist t.lane.engine
      (t.lane.queue.settings.writeQueueCapacity - t.lane.queue.writeQueue.length) t.lane.queue.input
    refine .inl ?_
    rw [mem_ledger_line] at hb ⊢
    rcases hb with hb | hb | hb
    · exact .inl (hsub.subset (List.mem_append_right _ hb))
    · rcases List.mem_append.1 hb with hb | hb
      · exact .inr (.inl hb)
      · exact .inl (hsub.subset (List.mem_append_left _ hb))
    · exact .inr (.inr hb)
  | receive bytes =>
    have hinput := congrArg Queue.input (h.processed bytes).same
    have hwrite := congrArg Queue.writeQueue (h.processed bytes).same
    refine .inl ?_
    rw [mem_ledger_line, hinput, hwrite] at hb
    exact mem_ledger_line.2 hb
  | resend cause => exact .inl (mem_line_of_resend hb)
  | submit id =>
    rw [mem_ledger_line] at hb ⊢
    simp only [step] at hb
    rcases t.lane.step_submit id with ⟨hfresh, hstep⟩ | ⟨_, hstep⟩ | hstep <;> rw [hstep] at hb
    · obtain ⟨hsingle, hnew⟩ := Lane.isSingle_of_isFresh hfresh
      simp only [List.mem_append, List.mem_singleton] at hb
      rcases hb with (hb | rfl) | hb
      · exact .inl (.inl hb)
      · exact .inr ⟨hsingle, hnew⟩
      · exact .inl (.inr hb)
    · exact .inl hb
    · exact .inl hb
  | pushFront id =>
    rw [mem_ledger_line] at hb ⊢
    simp only [step] at hb
    split at hb
    · rcases t.lane.step_pushFront id with ⟨hfresh, hstep⟩ | hstep <;> rw [hstep] at hb
      · obtain ⟨hsingle, hnew⟩ := Lane.isSingle_of_isFresh hfresh
        simp only [Queue.pushFront, List.mem_cons] at hb
        rcases hb with hb | (rfl | hb) | hb
        · exact .inl (.inl hb)
        · exact .inr ⟨hsingle, hnew⟩
        · exact .inl (.inr (.inl hb))
        · exact .inl (.inr (.inr hb))
      · exact .inl hb
    · exact .inl hb

theorem accepted_step (t : Traffic) (a : Action) {x : Nat} (hx : x ∈ t.lane.accepted) :
    x ∈ (t.step a).lane.accepted := by
  cases a with
  | submit id =>
    simp only [step]
    rcases t.lane.step_submit id with ⟨-, hstep⟩ | ⟨_, hstep⟩ | hstep <;> rw [hstep]
    · exact List.mem_cons_of_mem id hx
    · exact hx
    · exact hx
  | pushFront id =>
    simp only [step]
    split
    · rcases t.lane.step_pushFront id with ⟨-, hstep⟩ | hstep <;> rw [hstep]
      · exact List.mem_cons_of_mem id hx
      · exact hx
    · exact hx
  | _ => exact hx

/-- Whatever is held was held before, or is new. -/
theorem held_step {t : Traffic} (h : t.Sound) (a : Action) {x : Nat} (hx : x < t.engine.size)
    (huniform : t.ledger.Uniform t.engine)
    (hheld : x ∈ (t.step a).ledger.held (t.step a).engine) :
    x ∈ t.ledger.held t.engine ∨ t.engine.IsSingle x ∧ x ∉ t.lane.accepted := by
  have hfollows := (goes_step h a).1.follows
  by_cases ha : a = .pack
  · subst ha
    obtain ⟨hledger, hengine, -⟩ := t.ledger_pack
    rw [hledger, hengine] at hheld
    exact .inl ((Queue.pack_keeps h.ledger_custody huniform).1 x hx hheld)
  · obtain ⟨b, hb, hmem⟩ := (sound_step t a h).ledger_custody.mem_held.1 hheld
    rcases mem_line_step h ha hb with hb | ⟨hsingle, hnew⟩
    · rw [hfollows.members_eq (h.ledger_custody.lt_size hb)] at hmem
      exact .inl (h.ledger_custody.mem_held.2 ⟨b, hb, hmem⟩)
    · rw [hfollows.members_eq (Engine.lt_size_of_isSingle hsingle),
        Engine.members_of_isSingle hsingle, List.mem_singleton] at hmem
      exact .inr (hmem ▸ ⟨hsingle, hnew⟩)

theorem uniform_step {t : Traffic} (h : t.Sound) (huniform : t.ledger.Uniform t.engine) (a : Action) :
    (t.step a).ledger.Uniform (t.step a).engine := by
  have hfollows := (goes_step h a).1.follows
  by_cases ha : a = .pack
  · subst ha
    obtain ⟨hledger, hengine, -⟩ := t.ledger_pack
    rw [hledger, hengine]
    exact (Queue.pack_keeps h.ledger_custody huniform).2
  · intro b hb hbatch
    rcases mem_line_step h ha hb with hb | ⟨hsingle, -⟩
    · exact huniform.follows h.ledger_custody hfollows hb hbatch
    · rw [hfollows.members_eq (Engine.lt_size_of_isSingle hsingle), Engine.members_of_isSingle hsingle]
      exact fun m hm => absurd hm List.not_mem_nil

/-- Without regrouping there are no batches in the queues. -/
theorem isSingle_step {t : Traffic} (h : t.Sound)
    (hplain : t.lane.queue.settings.optimize = false ∨ t.lane.queue.settings.writeBufferSize = 0)
    (hsingle : ∀ b ∈ t.ledger.line, t.engine.IsSingle b) (a : Action) :
    ∀ b ∈ (t.step a).ledger.line, (t.step a).engine.IsSingle b := by
  have hfollows := (goes_step h a).1.follows
  have hkeeps : ∀ {b}, t.engine.IsSingle b → (t.step a).engine.IsSingle b := fun hb => by
    rwa [Engine.IsSingle, hfollows.nature?_eq (Engine.lt_size_of_isSingle hb)]
  intro b hb
  by_cases ha : a = .pack
  · subst ha
    rw [t.ledger_pack.1] at hb
    exact hkeeps (hsingle b (Queue.pack_plain (q := t.ledger) hplain _ b hb))
  · rcases mem_line_step h ha hb with hb | ⟨hb, -⟩
    · exact hkeeps (hsingle b hb)
    · exact hkeeps hb

theorem isSingle_run {t : Traffic} (h : t.Sound)
    (hplain : t.lane.queue.settings.optimize = false ∨ t.lane.queue.settings.writeBufferSize = 0)
    (hsingle : ∀ b ∈ t.ledger.line, t.engine.IsSingle b) (actions : List Action) :
    ∀ b ∈ (t.run actions).ledger.line, (t.run actions).engine.IsSingle b := by
  refine (run_induction (P := fun t' => t'.Sound ∧
      t'.lane.queue.settings = t.lane.queue.settings ∧
      ∀ b ∈ t'.ledger.line, t'.engine.IsSingle b) (fun t' a ⟨h', hsettings, hsingle⟩ => ?_) actions
    ⟨h, rfl, hsingle⟩).2.2
  exact ⟨sound_step t' a h', (goes_step h' a).2.trans hsettings,
    isSingle_step h' (hsettings ▸ hplain) hsingle a⟩

theorem isSingle_of_initial {s : Lane} (h : s.Initial) :
    ∀ b ∈ (start s).ledger.line, (start s).engine.IsSingle b := fun b hb => by
  rw [mem_ledger_line] at hb
  change b ∈ s.queue.input ∨ b ∈ s.queue.writeQueue ∨ b ∈ [] at hb
  simp [h.input, h.writeQueue] at hb

/-! ## What is gone for good -/

/-- An operation that is not held, and cannot be submitted any more. -/
structure Absent (t : Traffic) (x : Nat) : Prop where
  known : x < t.engine.size
  accepted : t.engine.IsSingle x → x ∈ t.lane.accepted
  gone : x ∉ t.ledger.held t.engine

theorem Absent.step {t : Traffic} (h : t.Sound) (huniform : t.ledger.Uniform t.engine) {x : Nat}
    (hx : t.Absent x) (a : Action) : (t.step a).Absent x := by
  have hfollows := (goes_step h a).1.follows
  refine ⟨Nat.lt_of_lt_of_le hx.known hfollows.size_le, fun hsingle => ?_, fun hheld => ?_⟩
  · rw [Engine.IsSingle, hfollows.nature?_eq hx.known] at hsingle
    exact accepted_step t a (hx.accepted hsingle)
  · rcases held_step h a hx.known huniform hheld with hheld | ⟨hsingle, hnew⟩
    · exact hx.gone hheld
    · exact hnew (hx.accepted hsingle)

end Traffic

namespace Transcript

/-- Who is carried depends on the engine only by the members of the operations that are known. -/
theorem carries_congr {c : Transcript} {e e' : Engine} (h : e.Follows e')
    (hknown : ∀ b ∈ c.begun, b < e.size) {x : Nat} : c.Carries e' x ↔ c.Carries e x := by
  refine exists_congr fun b => and_congr_right fun hb => ?_
  rw [h.members_eq (hknown b hb)]

theorem lt_size_of_carries {c : Transcript} {e : Engine} (he : e.Sound)
    (hknown : ∀ b ∈ c.begun, b < e.size) {x : Nat} (h : c.Carries e x) : x < e.size := by
  obtain ⟨b, hb, hx⟩ := h
  rcases List.mem_cons.1 hx with rfl | hx
  · exact hknown x hb
  · exact Nat.lt_trans (he.flat b x hx).1 (hknown b hb)

end Transcript

namespace Traffic

theorem mem_line_of_mem_begun {t : Traffic} {b : Nat} (hb : b ∈ t.begun) : b ∈ t.ledger.line := by
  rw [mem_ledger_line]
  rcases List.mem_append.1 hb with hb | hb
  · exact .inr (.inr hb)
  · exact .inr (.inl (List.mem_of_mem_filter hb))

theorem Absent.not_carries {t : Traffic} (h : t.Sound) {x : Nat} (hx : t.Absent x) :
    ¬ t.transcript.Carries t.engine x := by
  rintro ⟨b, hb, hmem⟩
  exact hx.gone (h.ledger_custody.mem_held.2 ⟨b, mem_line_of_mem_begun hb, hmem⟩)

/-- What has left the queues when the connection was lost is gone for good, with its members. -/
theorem absent_of_gone {t : Traffic} (h : t.Sound) {cause : String} {b x : Nat}
    (hb : b ∈ t.ledger.line) (hgone : b ∉ (t.step (.resend cause)).ledger.line)
    (hx : x ∈ b :: t.engine.members b) : (t.step (.resend cause)).Absent x := by
  have hcustody := h.ledger_custody
  have hfollows := (goes_step h (.resend cause)).1.follows
  have hheld : x ∈ t.ledger.held t.engine := hcustody.mem_held.2 ⟨b, hb, hx⟩
  have hknown := hcustody.known x hheld
  refine ⟨Nat.lt_of_lt_of_le hknown hfollows.size_le, fun hsingle => ?_, fun hlater => ?_⟩
  · rw [Engine.IsSingle, hfollows.nature?_eq hknown] at hsingle
    exact accepted_step t _ (hcustody.owned x hheld hsingle)
  · obtain ⟨b', hb', hx'⟩ := (sound_step t (.resend cause) h).ledger_custody.mem_held.1 hlater
    have hold := mem_line_of_resend hb'
    rw [hfollows.members_eq (hcustody.lt_size hold)] at hx'
    exact hgone (hcustody.unique hb hold hx hx' ▸ hb')

theorem Sound.handed_apart {t : Traffic} (h : t.Sound) {b : Nat} (hb : b ∈ t.handed) :
    ¬ (b ∈ t.lane.queue.writeQueue ∨ b ∈ t.lane.queue.input) := by
  have hline : t.ledger.line.Nodup := (List.nodup_append.1 h.ledger_custody.nodup).1
  obtain ⟨-, hqueues, hapart⟩ := List.nodup_append.1 hline
  rintro (hwrite | hinput)
  · exact (List.nodup_append.1 hqueues).2.2 b hwrite b hb rfl
  · exact hapart b hinput b (List.mem_append_right _ hb) rfl

/-- Whoever has been handed on leaves the queues when the connection is lost. -/
theorem Sound.handed_gone {t : Traffic} (h : t.Sound) (cause : String) {b : Nat} (hb : b ∈ t.handed) :
    b ∉ (t.step (.resend cause)).ledger.line := fun hlater => h.handed_apart hb (mem_waiting_of_resend hlater)

/-- Only the head of the write queue can have been begun. -/
theorem Sound.head_of_started {t : Traffic} (h : t.Sound) {b : Nat}
    (hb : b ∈ t.lane.queue.writeQueue) (hstarted : Queue.isStarted t.engine b = true) :
    ∃ rest, t.lane.queue.writeQueue = b :: rest := by
  cases hq : t.lane.queue.writeQueue with
  | nil => rw [hq] at hb; cases hb
  | cons id rest =>
    rw [hq] at hb
    rcases List.mem_cons.1 hb with rfl | hrest
    · exact ⟨rest, rfl⟩
    · have hbehind := h.atRest.behind b (by
        change b ∈ t.lane.queue.writeQueue.tail
        rwa [hq])
      rw [hbehind] at hstarted
      cases hstarted

/-- Cancelling those that wait for responses leaves the operation that is being written alone. -/
theorem Sound.after_started {t : Traffic} (h : t.Sound) (cause : String) {b : Nat}
    (hb : b ∈ t.lane.queue.writeQueue) (hstarted : Queue.isStarted t.engine b = true) :
    let after := Queue.cancelEach t.engine t.lane.queue.readQueue cause
    t.engine.Goes after ∧ Queue.isStarted after b = true := by
  intro after
  have hgoes : t.engine.Goes after := (Queue.goes_cancelEach h.custody.sound fun id hid =>
    h.ledger_custody.lt_size (mem_ledger_line.2 (.inr (.inr (h.reading id hid))))).1
  have hafter : Queue.AtRest t.lane.accepted t.taken t.order t.ledger after := h.atRest.cancelEach
  have hbefore := h.atRest.toAligned.begun_prefix hafter.toAligned hgoes.follows rfl List.prefix_rfl rfl
  have hbegun : b ∈ t.ledger.begun after := hbefore.subset
    (List.mem_append_right _ (List.mem_filter.2 ⟨hb, hstarted⟩))
  rcases List.mem_append.1 hbegun with hhanded | hwrite
  · exact absurd (.inl hb) (h.handed_apart hhanded)
  · exact ⟨hgoes, (List.mem_filter.1 hwrite).2⟩

/-- What has been begun when the connection is lost may be sent twice or leaves the queues. -/
theorem idempotent_or_gone {t : Traffic} (h : t.Sound) (cause : String) {b : Nat} (hb : b ∈ t.begun) :
    t.engine.isIdempotent b = true ∨ b ∉ (t.step (.resend cause)).ledger.line := by
  by_cases hlater : b ∈ (t.step (.resend cause)).ledger.line
  · refine .inl ?_
    rcases List.mem_append.1 hb with hhanded | hwrite
    · exact absurd hlater (h.handed_gone cause hhanded)
    · obtain ⟨hwrite, hstarted⟩ := List.mem_filter.1 hwrite
      obtain ⟨rest, hq⟩ := h.head_of_started hwrite hstarted
      obtain ⟨hgoes, hafter⟩ := h.after_started cause hwrite hstarted
      obtain ⟨kept, e', hstep, hline⟩ := mem_line_resend hlater
      rw [hq] at hstep
      cases hstep with
      | stays hunstarted =>
        rw [hunstarted b rfl] at hafter
        cases hafter
      | repeats hmay =>
        rw [← hgoes.follows.isIdempotent_eq (h.lt_size hb)]
        exact Engine.isIdempotent_of_mayRepeat hmay
      | givesUp _ => exact absurd hline (h.ledger_custody.not_mem_behind (q := t.ledger) hq)
  · exact .inr hlater

/-! ## The connections of a run -/

/-- What has been written on earlier connections is not written again unless it is idempotent. -/
structure Once (t : Traffic) : Prop where
  uniform : t.ledger.Uniform t.engine
  known : ∀ c ∈ t.earlier, ∀ b ∈ c.begun, b < t.engine.size
  spent : ∀ c ∈ t.earlier, ∀ x, c.Carries t.engine x →
    t.engine.isIdempotent x = true ∨ t.Absent x
  apart : t.earlier.Pairwise fun c c' => ∀ x, c.Carries t.engine x → c'.Carries t.engine x →
    t.engine.isIdempotent x = true
  sent : ∀ c ∈ t.earlier, c.sent <+: encodeSlots (c.begun.flatMap t.engine.slots)

theorem known_transcripts {t : Traffic} (h : t.Sound) (ho : t.Once) :
    ∀ c ∈ t.transcripts, ∀ b ∈ c.begun, b < t.engine.size := by
  intro c hc
  rcases List.mem_cons.1 hc with rfl | hc
  · exact fun _ => h.lt_size
  · exact ho.known c hc

/-- The connection of the moment is apart from earlier ones, too. -/
theorem apart_transcripts {t : Traffic} (h : t.Sound) (ho : t.Once) :
    t.transcripts.Pairwise fun c c' => ∀ x, c.Carries t.engine x → c'.Carries t.engine x →
      t.engine.isIdempotent x = true := by
  refine List.pairwise_cons.2 ⟨fun c hc x hnow hearlier => ?_, ho.apart⟩
  exact (ho.spent c hc x hearlier).resolve_right fun habsent => habsent.not_carries h hnow

theorem sent_transcripts {t : Traffic} (h : t.Sound) (ho : t.Once) :
    ∀ c ∈ t.transcripts, c.sent <+: encodeSlots (c.begun.flatMap t.engine.slots) := by
  intro c hc
  rcases List.mem_cons.1 hc with rfl | hc
  · exact h.sent_prefix
  · exact ho.sent c hc

/-- When the connection is lost, what it carried may be sent twice or is gone for good. -/
theorem spent_resend {t : Traffic} (h : t.Sound) (ho : t.Once) (cause : String) {x : Nat}
    (hx : t.transcript.Carries t.engine x) :
    t.engine.isIdempotent x = true ∨ (t.step (.resend cause)).Absent x := by
  obtain ⟨b, hb, hmem⟩ := hx
  have hline := mem_line_of_mem_begun hb
  rcases idempotent_or_gone h cause hb with hidempotent | hgone
  · refine .inl ?_
    rcases List.mem_cons.1 hmem with rfl | hmem
    · exact hidempotent
    · exact ho.uniform b hline hidempotent x hmem
  · exact .inr (absent_of_gone h hline hgone hmem)

theorem earlier_step (t : Traffic) (a : Action) :
    (t.step a).earlier = t.earlier ∨ ∃ cause, a = .resend cause := by
  cases a with
  | resend cause => exact .inr ⟨cause, rfl⟩
  | pushFront id =>
    simp only [step]
    split <;> exact .inl rfl
  | _ => exact .inl rfl

theorem earlier_sublist (t : Traffic) (a : Action) : (t.step a).earlier.Sublist t.transcripts := by
  rcases earlier_step t a with heq | ⟨cause, rfl⟩
  · rw [heq]
    exact List.sublist_cons_self _ _
  · exact List.Sublist.refl _

theorem once_step {t : Traffic} (h : t.Sound) (ho : t.Once) (a : Action) : (t.step a).Once := by
  have hfollows := (goes_step h a).1.follows
  have hsound := h.custody.sound
  have hknown := known_transcripts h ho
  have hsub := earlier_sublist t a
  have hcarries : ∀ c ∈ t.transcripts, ∀ x, c.Carries (t.step a).engine x → c.Carries t.engine x :=
    fun c hc x => (Transcript.carries_congr hfollows (hknown c hc)).1
  have hidempotent : ∀ c ∈ t.transcripts, ∀ x, c.Carries t.engine x →
      (t.step a).engine.isIdempotent x = t.engine.isIdempotent x := fun c hc x hx =>
    hfollows.isIdempotent_eq (Transcript.lt_size_of_carries hsound (hknown c hc) hx)
  refine ⟨uniform_step h ho.uniform a, fun c hc b hb => ?_, fun c hc x hx => ?_, ?_, fun c hc => ?_⟩
  · exact Nat.lt_of_lt_of_le (hknown c (hsub.subset hc) b hb) hfollows.size_le
  · have hold := hcarries c (hsub.subset hc) x hx
    rw [hidempotent c (hsub.subset hc) x hold]
    have hbefore : c ∈ t.earlier → t.engine.isIdempotent x = true ∨ (t.step a).Absent x := fun hc =>
      (ho.spent c hc x hold).imp_right fun habsent => habsent.step h ho.uniform a
    rcases earlier_step t a with heq | ⟨cause, rfl⟩
    · exact hbefore (heq ▸ hc)
    · rcases List.mem_cons.1 (hsub.subset hc) with rfl | hc
      · exact spent_resend h ho cause hold
      · exact hbefore hc
  · refine ((apart_transcripts h ho).sublist hsub).imp_of_mem fun {c c'} hc hc' hapart x hx hx' => ?_
    have hold := hcarries c (hsub.subset hc) x hx
    rw [hidempotent c (hsub.subset hc) x hold]
    exact hapart x hold (hcarries c' (hsub.subset hc') x hx')
  · rw [hfollows.flatMap_slots_eq hsound (hknown c (hsub.subset hc))]
    exact sent_transcripts h ho c (hsub.subset hc)

theorem once_of_initial {s : Lane} (h : s.Initial) : (start s).Once := by
  refine ⟨fun b hb => ?_, fun c hc => ?_, fun c hc => ?_, List.Pairwise.nil, fun c hc => ?_⟩
  · rw [mem_ledger_line] at hb
    change b ∈ s.queue.input ∨ b ∈ s.queue.writeQueue ∨ b ∈ [] at hb
    rw [h.input, h.writeQueue] at hb
    simp at hb
  all_goals cases hc

/-- What is gone for good is not written on any later connection. -/
theorem Absent.run {x : Nat} : ∀ (more : List Action) {t : Traffic}, t.Sound → t.Once → t.Absent x →
    (t.run more).Absent x ∧ ∃ newer, (t.run more).earlier = newer ++ t.earlier ∧
      ∀ c ∈ newer, ¬ c.Carries (t.run more).engine x
  | [], t, _, _, hx => ⟨hx, [], rfl, fun _ hc => absurd hc List.not_mem_nil⟩
  | a :: more, t, h, ho, hx => by
    obtain ⟨hfinal, newer, hnewer, hnot⟩ :=
      Absent.run more (sound_step t a h) (once_step h ho a) (hx.step h ho.uniform a)
    refine ⟨hfinal, ?_⟩
    change ∃ newer, ((t.step a).run more).earlier = newer ++ t.earlier ∧
      ∀ c ∈ newer, ¬ c.Carries ((t.step a).run more).engine x
    rcases earlier_step t a with heq | ⟨cause, rfl⟩
    · exact ⟨newer, heq ▸ hnewer, hnot⟩
    · have hfollows : t.engine.Follows ((t.step (.resend cause)).run more).engine :=
        (goes_run (.resend cause :: more) h).1.follows
      refine ⟨newer ++ [t.transcript], ?_, fun c hc => ?_⟩
      · rw [hnewer, List.append_assoc]
        rfl
      · rcases List.mem_append.1 hc with hc | hc
        · exact hnot c hc
        · rw [List.mem_singleton.1 hc, Transcript.carries_congr hfollows fun _ => h.lt_size]
          exact hx.not_carries h

/-! ## Who has been handed on has ended after a fault -/

/-- Whoever has been handed on waits for a response or has ended. -/
def Settled (t : Traffic) : Prop :=
  ∀ id ∈ t.handed, id ∈ t.lane.queue.readQueue ∨ t.engine.isTerminal id = true

theorem settled_step {t : Traffic} (h : t.Sound) (hs : t.Settled) (a : Action) : (t.step a).Settled := by
  have hfollows := (goes_step h a).1.follows
  have hsame : (t.step a).handed = t.handed → (∀ id ∈ t.lane.queue.readQueue,
      id ∈ (t.step a).lane.queue.readQueue ∨ (t.step a).engine.isTerminal id = true) →
      (t.step a).Settled := by
    intro hhanded hread id hid
    rw [hhanded] at hid
    rcases hs id hid with hid' | hend
    · exact hread id hid'
    · exact .inr (hfollows.isTerminal (h.lt_size_of_handed hid) hend)
  cases a with
  | create command callback => exact hsame rfl fun _ hid => .inl hid
  | copyInput => exact hsame rfl fun _ hid => .inl hid
  | take n => exact hsame rfl fun _ hid => .inl hid
  | cancel id cause => exact hsame rfl fun _ hid => .inl hid
  | resend cause => exact fun _ hid => absurd hid List.not_mem_nil
  | submit id =>
    refine hsame rfl fun x hx => .inl ?_
    simp only [step]
    rcases t.lane.step_submit id with ⟨-, heq⟩ | ⟨_, heq⟩ | heq <;> rw [heq] <;> exact hx
  | pushFront id =>
    simp only [step] at hsame ⊢
    split
    · next hempty =>
      rw [if_pos hempty] at hsame
      refine hsame rfl fun x hx => .inl ?_
      rcases t.lane.step_pushFront id with ⟨-, heq⟩ | heq <;> rw [heq] <;> exact hx
    · exact hs
  | receive bytes =>
    exact hsame rfl (h.processed bytes).popped
  | pack =>
    obtain ⟨-, -, new, hread, hhanded⟩ := t.ledger_pack
    intro id hid
    rw [hhanded] at hid
    rw [hread]
    rcases List.mem_append.1 hid with hid | hid
    · rcases hs id hid with hid' | hend
      · exact .inl (List.mem_append_left _ hid')
      · exact .inr (hfollows.isTerminal (h.lt_size_of_handed hid) hend)
    · exact .inl (List.mem_append_right _ hid)

theorem isTerminal_resend {t : Traffic} (h : t.Sound) (hs : t.Settled) (cause : String) {id : Nat}
    (hid : id ∈ t.handed) : (t.step (.resend cause)).engine.isTerminal id = true := by
  rcases hs id hid with hread | hend
  · obtain ⟨hgoes, hends⟩ := @Queue.goes_cancelEach cause t.lane.queue.readQueue t.engine
      h.custody.sound fun x hx => h.lt_size_of_handed (h.reading x hx)
    obtain ⟨e', _, _, heq, hrest, -⟩ := Queue.resend_eq (q := t.lane.queue) hgoes.sound
    have hengine : (t.step (.resend cause)).engine = e' := congrArg Prod.snd heq
    rw [hengine]
    exact hrest.follows.isTerminal (Nat.lt_of_lt_of_le (h.lt_size_of_handed hid) hgoes.follows.size_le)
      (hends id hread)
  · exact (goes_step h _).1.follows.isTerminal (h.lt_size_of_handed hid) hend

/-- **Nothing is sent twice that may not be.** Of an operation that is not idempotent, be it alone or
in a batch, bytes are written on one connection at most; and whoever has been handed on has ended
right after a fault, with all members, and is not written on any later connection. -/
theorem sent_at_most_once (s : Lane) (h : s.Initial) (hempty : s.queue.writeBuffer = [])
    (actions : List Action) :
    let t := (start s).run actions
    (t.transcripts.Pairwise fun c c' => ∀ id, c.Carries t.engine id → c'.Carries t.engine id →
      t.engine.isIdempotent id = true) ∧
    (∀ c ∈ t.transcripts, c.sent <+: encodeSlots (c.begun.flatMap t.engine.slots)) ∧
    ∀ cause, ∀ id ∈ t.handed, ∀ x ∈ id :: t.engine.members id,
      let t' := t.step (.resend cause)
      t'.engine.isTerminal x = true ∧ ∀ more, ∃ newer,
        (t'.run more).transcripts = newer ++ t.transcripts ∧
          ∀ c ∈ newer, ¬ c.Carries (t'.run more).engine x := by
  intro t
  have hstart : (start s).Sound := sound_of_initial h hempty
  obtain ⟨⟨ht, ho⟩, hs⟩ : (t.Sound ∧ t.Once) ∧ t.Settled :=
    run_induction (P := fun t => (t.Sound ∧ t.Once) ∧ t.Settled)
      (fun t a ⟨⟨h, ho⟩, hs⟩ => ⟨⟨sound_step t a h, once_step h ho a⟩, settled_step h hs a⟩) actions
      ⟨⟨hstart, once_of_initial h⟩, fun _ hid => absurd hid List.not_mem_nil⟩
  refine ⟨apart_transcripts ht ho, sent_transcripts ht ho, fun cause id hid x hx => ?_⟩
  intro t'
  have ht' : t'.Sound := sound_step t _ ht
  have hline : id ∈ t.ledger.line := mem_ledger_line.2 (.inr (.inr hid))
  have hlt := ht.ledger_custody.lt_size hline
  have hfollows := (goes_step ht (.resend cause)).1.follows
  have hend : t'.engine.isTerminal id = true := isTerminal_resend ht hs cause hid
  have habsent : t'.Absent x := absent_of_gone ht hline (ht.handed_gone cause hid) hx
  refine ⟨?_, fun more => ?_⟩
  · rcases List.mem_cons.1 hx with rfl | hx
    · exact hend
    · rw [← hfollows.members_eq hlt] at hx
      exact ht'.custody.sound.settled hend x hx
  · obtain ⟨hfinal, newer, hnewer, hnot⟩ := habsent.run more ht' (once_step ht ho _)
    refine ⟨(t'.run more).transcript :: newer, ?_, fun c hc => ?_⟩
    · rw [transcripts, hnewer]
      rfl
    · rcases List.mem_cons.1 hc with rfl | hc
      · exact hfinal.not_carries (ht'.run more)
      · exact hnot c hc

/-- A counter is half written when the connection is lost; the next connection carries a get only,
which is handed on and does not survive another loss. -/
theorem sent_at_most_once_of_half_written_counter :
    let s : Lane :=
      { queue := { settings := ⟨64, 30, 10, false, 10, 1000⟩, node := 0, inputCapacity := 10 }, engine := {} }
    let t := (start s).run [.create (.get "a" false) .silent,
      .create (.counter ⟨.up, "n", 1, none, 0⟩) .silent, .create (.get "b" false) .silent, .submit 0,
      .submit 1, .copyInput, .pack, .resend "down", .submit 2, .copyInput, .pack]
    s.Initial ∧ s.queue.writeBuffer = [] ∧ t.engine.isIdempotent 1 = false ∧
      t.transcripts.map (·.begun) = [[2], [0, 1]] ∧
      (t.transcripts.Pairwise fun c c' => c.Carries t.engine 1 → ¬ c'.Carries t.engine 1) ∧
      (t.step (.resend "down again")).engine.isTerminal 2 = true := by
  intro s t
  have h : s.Initial := ⟨rfl, rfl, rfl, rfl, rfl, rfl⟩
  have hrun : (t.engine.isIdempotent 1, t.transcripts.map (·.begun), t.handed) =
      (false, [[2], [0, 1]], [2]) := by decide +kernel
  simp only [Prod.mk.injEq] at hrun
  obtain ⟨hcounter, hbegun, hhanded⟩ := hrun
  obtain ⟨hapart, -, hend⟩ := sent_at_most_once s h rfl [.create (.get "a" false) .silent,
    .create (.counter ⟨.up, "n", 1, none, 0⟩) .silent, .create (.get "b" false) .silent, .submit 0,
    .submit 1, .copyInput, .pack, .resend "down", .submit 2, .copyInput, .pack]
  refine ⟨h, rfl, hcounter, hbegun, hapart.imp fun hc hnow hearlier => ?_, ?_⟩
  · have := hc 1 hnow hearlier
    rw [hcounter] at this
    cases this
  · exact (hend "down again" 2 (hhanded ▸ List.mem_singleton_self 2) 2 List.mem_cons_self).1

end Traffic

end ShardedCache

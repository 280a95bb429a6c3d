import ShardedCache.Proofs.Cluster.Events

/-!
# Operations in the making

A call that goes to many nodes makes its operations one after the other and hands each to a node. As no
connection does anything meanwhile, those that have been made wait to be written (`Cluster.Drafted`).
Once one cannot be submitted all are cancelled, and so they have lapsed (`Cluster.Withdrawn`). Each step
of such a call leads from the one to the other (`Call.Withdraws`).
-/

namespace ShardedCache

/-! ## Cancelling what has not begun -/

namespace Engine

/-- Nothing of the operation has been written, and it has not gone on but by being cancelled. -/
def unbegun (e : Engine) (id : Nat) : Bool := (e.get? id).any (·.unbegun)

variable {e e' : Engine} {id : Nat} {cause : String}

theorem unbegun_iff_life :
    e.unbegun id = true ↔ ∃ l, e.life? id = some l ∧ l.operation.unbegun = true := by
  rw [unbegun, get?_eq, Option.any_map, Option.any_eq_true]

theorem unbegun_congr (h : e'.get? id = e.get? id) : e'.unbegun id = e.unbegun id := by
  rw [unbegun, unbegun, h]

theorem unbegun_create (e : Engine) (command : Command) (callback : Callback) :
    (e.create command callback).1.unbegun e.size = true := by
  rw [unbegun, create, get?_add, if_pos rfl]
  rfl

theorem unbegun_of_lapsed (h : e.lapsed id = true) : e.unbegun id = true := by
  obtain ⟨l, hl, hlapsed⟩ := lapsed_iff_life.1 h
  exact unbegun_iff_life.2 ⟨l, hl, hlapsed.unbegun⟩

theorem isTerminal_of_lapsed (h : e.lapsed id = true) : e.isTerminal id = true := by
  obtain ⟨l, hl, hlapsed⟩ := lapsed_iff_life.1 h
  rw [isTerminal_eq, hl]
  exact hlapsed.isTerminal

/-- All of several operations are cancelled. -/
theorem becomes_cancelAll {ids : List Nat} (h : ∀ id ∈ ids, e.IsSingle id) (cause : String) :
    e.Becomes (among ids (·.cancel cause)) (e.cancelAll ids cause).1 := by
  rw [cancelAll_fst]
  exact becomes_each (Life.nature_cancel cause)
    (fun l => Life.cancel_of_isTerminal (Life.isTerminal_cancel cause l) cause)
    (fun e m hm => becomes_cancelTo_single m (members_of_isSingle hm) cause) h

section Cancel

variable {ids : List Nat} (hstep : e.Becomes (among ids (·.cancel cause)) e')

include hstep

/-- Those that are cancelled in time have lapsed. -/
theorem lapsed_of_cancelled {x : Nat} (hx : e.unbegun x = true) (hmem : x ∈ ids) :
    e'.lapsed x = true := by
  obtain ⟨l, hl, hunbegun⟩ := unbegun_iff_life.1 hx
  refine lapsed_iff_life.2 ⟨l.cancel cause, ?_, Life.lapsed_cancel_of_unbegun hunbegun cause⟩
  rw [hstep.lives x, hl, among_of_mem hmem, Option.map_some]

theorem lapsed_of_cancelling {x : Nat} (hx : e.lapsed x = true) : e'.lapsed x = true :=
  hstep.lapsed (fun _ hl => lapsed_among (fun _ hl => hl.cancel cause) ids hl) hx

/-- The others have still not begun. -/
theorem unbegun_of_cancelling {x : Nat} (hx : e.unbegun x = true) : e'.unbegun x = true := by
  by_cases hmem : x ∈ ids
  · exact unbegun_of_lapsed (lapsed_of_cancelled hstep hx hmem)
  · obtain ⟨l, hl, hunbegun⟩ := unbegun_iff_life.1 hx
    refine unbegun_iff_life.2 ⟨l, ?_, hunbegun⟩
    rw [hstep.lives x, hl, among_of_not_mem hmem, Option.map_some]

end Cancel

end Engine

/-- What a queue turns away does not depend on the operation. -/
theorem Queue.submit_eq_error {q : Queue} {id : Nat} {refusal : Refusal}
    (h : q.submit id = .error refusal) (j : Nat) : q.submit j = .error refusal := by
  unfold submit at h ⊢
  split at h
  · next hclosed => rwa [if_pos hclosed]
  · next hopen =>
    split at h
    · next hfull => rwa [if_neg hopen, if_pos hfull]
    · cases h

/-! ## The state of a call on the way -/

namespace Cluster

/-- The operations from `first` on are those given. Each is for a single command, and nothing of it has
been written. Nothing has been put off. -/
structure Drafted (c : Cluster) (first : Nat) (ops : List Nat) : Prop where
  alarms : c.alarms = []
  deferred : c.deferred = []
  first_le : first ≤ c.engine.size
  listed : ∀ id, id ∈ ops ↔ first ≤ id ∧ id < c.engine.size
  single : ∀ id ∈ ops, c.engine.IsSingle id
  unbegun : ∀ id ∈ ops, c.engine.unbegun id = true

/-- The operations from `first` on have lapsed, and no batch is made of them. -/
def Withdrawn (c : Cluster) (first : Nat) : Prop :=
  ∀ id, first ≤ id → id < c.engine.size → c.engine.IsSingle id ∧ c.engine.lapsed id = true

/-- Some node turns operations away with this error, as it is full or has shut down. -/
def TurnsAway (c : Cluster) (error : CacheError) : Prop :=
  ∃ node n refusal, c.node? node = some n ∧ (∀ id, n.queue.submit id = .error refusal) ∧
    error = refusal.error n.name

variable {c c' : Cluster} {first : Nat} {ops : List Nat}

theorem drafted_nil (halarms : c.alarms = []) (hdeferred : c.deferred = []) :
    c.Drafted c.engine.size [] where
  alarms := halarms
  deferred := hdeferred
  first_le := Nat.le_refl _
  listed id := by
    rw [List.mem_nil_iff, false_iff]
    exact fun ⟨hle, hlt⟩ => Nat.lt_irrefl _ (Nat.lt_of_le_of_lt hle hlt)
  single := List.forall_mem_nil _
  unbegun := List.forall_mem_nil _

theorem Keeps.size_eq (h : c.Keeps c') : c'.engine.size = c.engine.size := by
  have hiff : ∀ id, c'.engine.size ≤ id ↔ c.engine.size ≤ id := fun id => by
    have hnature := h id
    rw [Engine.nature?, Engine.nature?] at hnature
    rw [← Engine.get?_eq_none_iff, ← Engine.get?_eq_none_iff, ← Option.map_eq_none_iff, hnature,
      Option.map_eq_none_iff]
  exact Nat.le_antisymm ((hiff _).2 (Nat.le_refl _)) ((hiff _).1 (Nat.le_refl _))

theorem Keeps.isSingle (h : c.Keeps c') {id : Nat} (hid : c.engine.IsSingle id) :
    c'.engine.IsSingle id := by
  obtain ⟨n, command, hn, hcommand⟩ := hid
  exact ⟨n, command, (h id).trans hn, hcommand⟩

namespace Drafted

/-- No operation has been made, and none has begun. -/
theorem congr (h : c.Drafted first ops) (hkeeps : c.Keeps c')
    (hunbegun : ∀ id ∈ ops, c.engine.unbegun id = true → c'.engine.unbegun id = true)
    (halarms : c'.alarms = c.alarms) (hdeferred : c'.deferred = c.deferred) :
    c'.Drafted first ops where
  alarms := halarms.trans h.alarms
  deferred := hdeferred.trans h.deferred
  first_le := hkeeps.size_eq.symm ▸ h.first_le
  listed id := by
    rw [hkeeps.size_eq]
    exact h.listed id
  single id hid := hkeeps.isSingle (h.single id hid)
  unbegun id hid := hunbegun id hid (h.unbegun id hid)

/-- The operations are as they were. -/
theorem of_operations (h : c.Drafted first ops)
    (hops : c'.engine.operations = c.engine.operations) (halarms : c'.alarms = c.alarms)
    (hdeferred : c'.deferred = c.deferred) : c'.Drafted first ops := by
  have hget : ∀ id, c'.engine.get? id = c.engine.get? id := fun id => congrArg (·[id]?) hops
  refine h.congr (fun id => ?_) (fun id _ hid => ?_) halarms hdeferred
  · rw [Engine.nature?, Engine.nature?, hget]
  · rwa [Engine.unbegun_congr (hget id)]

theorem create (h : c.Drafted first ops) (command : Command)
    (callback : Callback) :
    Drafted { c with engine := (c.engine.create command callback).1 } first
      (ops ++ [c.engine.size]) := by
  have hsize : (c.engine.create command callback).1.size = c.engine.size + 1 :=
    Engine.size_add c.engine _ _ _
  have hold : ∀ id ∈ ops, (c.engine.create command callback).1.get? id = c.engine.get? id :=
    fun id hid => by
      rw [Engine.create, Engine.get?_add, if_neg (Nat.ne_of_lt ((h.listed id).1 hid).2)]
  have hfirst := h.first_le
  refine ⟨h.alarms, h.deferred, hsize.symm ▸ Nat.le_succ_of_le hfirst, fun id => ?_,
    fun id hid => ?_, fun id hid => ?_⟩
  · rw [List.mem_append, List.mem_singleton, h.listed]
    change _ ↔ first ≤ id ∧ id < (c.engine.create command callback).1.size
    rw [hsize]
    omega
  · rcases List.mem_append.1 hid with hid | hid
    · change (c.engine.create command callback).1.IsSingle id
      rw [Engine.IsSingle, Engine.nature?, hold id hid]
      exact h.single id hid
    · rw [List.mem_singleton.1 hid]
      exact isSingle_create c.engine command callback
  · rcases List.mem_append.1 hid with hid | hid
    · exact (Engine.unbegun_congr (hold id hid)).trans (h.unbegun id hid)
    · rw [List.mem_singleton.1 hid]
      exact Engine.unbegun_create c.engine command callback

theorem assign (h : c.Drafted first ops) (id node : Nat) : (c.assign id node).Drafted first ops := by
  refine h.congr (keeps_assign c id node) (fun j _ hj => ?_) rfl rfl
  refine Eq.trans ?_ hj
  change ((c.engine.modify id _).get? j).any _ = _
  rw [Engine.get?_modify]
  split
  · rw [Option.any_map]
    rfl
  · rfl

/-- Operations are cancelled, each of which is for a single command. -/
theorem cancelled (h : c.Drafted first ops) {ids : List Nat} {cause : String} {e : Engine}
    (hkeeps : ∀ id, e.nature? id = c.engine.nature? id)
    (hstep : c.engine.Becomes (Engine.among ids (·.cancel cause)) e) :
    Drafted { c with engine := e } first ops :=
  @congr c { c with engine := e } first ops h hkeeps
    (fun _ _ hid => Engine.unbegun_of_cancelling hstep hid) rfl rfl

theorem cancel (h : c.Drafted first ops) {id : Nat} (hid : id ∈ ops) (cause : String) :
    (c.cancel id cause).Drafted first ops ∧ (c.cancel id cause).engine.lapsed id = true := by
  have hstep : c.engine.Becomes (Engine.among [id] (·.cancel cause)) (c.engine.cancel id cause).1 :=
    Engine.becomes_cancelTo_single id (Engine.members_of_isSingle (h.single id hid)) cause
  exact ⟨h.cancelled (Engine.nature?_cancel c.engine id cause) hstep,
    Engine.lapsed_of_cancelled hstep (h.unbegun id hid) (List.mem_singleton_self id)⟩

/-- A node takes the operation in or turns it away. -/
theorem enqueue (h : c.Drafted first ops) {id : Nat} (hid : id ∈ ops) (node : Nat) :
    (c.enqueue id node).1.Drafted first ops ∧
      ∀ {error}, (c.enqueue id node).2 = .error error →
        (c.enqueue id node).1.engine.lapsed id = true ∧ (c.enqueue id node).1.TurnsAway error := by
  unfold Cluster.enqueue
  split
  · exact ⟨h, fun hok => by cases hok⟩
  · next n hn =>
    split
    · next refusal hrefused =>
      obtain ⟨hdrafted, hlapsed⟩ := h.cancel hid refusal.cause
      refine ⟨hdrafted, fun heq => ⟨hlapsed, node, n, refusal, hn, fun j => ?_, ?_⟩⟩
      · exact Queue.submit_eq_error hrefused j
      · cases heq
        rfl
    · exact ⟨h.of_operations rfl rfl rfl, fun hok => by cases hok⟩

/-- Submitting may fail, and may take its time. -/
theorem submit (h : c.Drafted first ops) {id : Nat} (hid : id ∈ ops) (node : Nat) :
    (c.submit id node).1.Drafted first ops ∧
      ∀ {error}, (c.submit id node).2 = .error error →
        (c.submit id node).1.engine.lapsed id = true ∧ (c.submit id node).1.TurnsAway error := by
  have hassigned := h.assign id node
  rw [submit_of_idle h.alarms h.deferred]
  split
  · exact hassigned.enqueue hid node
  · have hnow : ∀ now, Drafted { c.assign id node with now } first ops := fun now =>
      hassigned.of_operations rfl rfl rfl
    exact ⟨((hnow _).cancel hid "authentication timeout").1, fun hok => by cases hok⟩

/-- All but the last have been queued before; now they are cancelled. -/
theorem withdrawn {queued : List Nat} {last : Nat} (h : c.Drafted first (queued ++ [last]))
    (hlast : c.engine.lapsed last = true) (cause : String) :
    Withdrawn { c with engine := (c.engine.cancelAll queued cause).1 } first := by
  have hstep := Engine.becomes_cancelAll
    (fun id hid => h.single id (List.mem_append_left _ hid)) cause
  have hafter := h.cancelled (Engine.nature?_cancelAll c.engine queued cause) hstep
  intro id hfirst hsize
  have hid := (hafter.listed id).2 ⟨hfirst, hsize⟩
  refine ⟨hafter.single id hid, ?_⟩
  rcases List.mem_append.1 hid with hqueued | heq
  · exact Engine.lapsed_of_cancelled hstep (h.unbegun id hid) hqueued
  · rw [List.mem_singleton.1 heq]
    exact Engine.lapsed_of_cancelling hstep hlast

end Drafted

end Cluster

/-! ## The steps of such a call -/

namespace Call

variable {α β : Type} {first : Nat} {c : Cluster} {ops : List Nat}

/-- A step of a call whose operations are those from `first` on. If it goes through, they are those of
its result; if it fails, they have lapsed, since a node turned one away. -/
structure Withdraws (first : Nat) (c : Cluster) (x : Call α) (made : α → List Nat) : Prop where
  drafted : ∀ {a}, (x c).2 = .ok a → (x c).1.Drafted first (made a)
  fails : ∀ {error}, (x c).2 = .error error → (x c).1.Withdrawn first ∧ (x c).1.TurnsAway error

theorem withdraws_pure {a : α} {made : α → List Nat} (h : c.Drafted first (made a)) :
    Withdraws first c (pure a) made :=
  ⟨fun ha => (Except.ok.inj ha) ▸ h, fun ha => by cases ha⟩

theorem Withdraws.bind {x : Call α} {f : α → Call β} {made : α → List Nat} {made' : β → List Nat}
    (hx : Withdraws first c x made)
    (hf : ∀ {a c'}, c'.Drafted first (made a) → Withdraws first c' (f a) made') :
    Withdraws first c (x >>= f) made' := by
  rcases bind_fst x f c with ⟨error, herror, heq⟩ | ⟨a, ha, heq⟩
  · constructor
    · intro b hb
      rw [heq] at hb
      cases hb
    · intro error' herror'
      rw [heq] at herror' ⊢
      cases herror'
      exact hx.fails (congrArg Prod.snd herror)
  · have hrest := hf (hx.drafted (congrArg Prod.snd ha))
    constructor
    · intro b hb
      rw [heq] at hb ⊢
      exact hrest.drafted hb
    · intro error herror
      rw [heq] at herror ⊢
      exact hrest.fails herror

theorem Withdraws.congr {x x' : Call α} {made : α → List Nat} (hx : Withdraws first c x made)
    (heq : x' c = x c) : Withdraws first c x' made :=
  ⟨fun ha => by rw [heq] at ha ⊢; exact hx.drafted ha,
    fun herror => by rw [heq] at herror ⊢; exact hx.fails herror⟩

/-- A step that leaves the operations alone. -/
theorem withdraws_change (h : c.Drafted first ops) {f : Cluster → Cluster × α}
    (hops : (f c).1.engine.operations = c.engine.operations)
    (halarms : (f c).1.alarms = c.alarms) (hdeferred : (f c).1.deferred = c.deferred) :
    Withdraws first c (change f) fun _ => ops :=
  ⟨fun _ => h.of_operations hops halarms hdeferred, fun herror => by cases herror⟩

theorem withdraws_submitAfter {queued : List Nat} {last : Nat} (h : c.Drafted first (queued ++ [last]))
    (node : Nat) : Withdraws first c (submitAfter queued last node) fun _ => queued ++ [last] := by
  obtain ⟨hdrafted, hfails⟩ := h.submit (List.mem_append_right _ (List.mem_singleton_self last)) node
  unfold submitAfter
  constructor <;> rcases hsubmit : c.submit last node with ⟨c', error | _⟩ <;>
    rw [hsubmit] at hdrafted hfails
  · exact fun hok => by cases hok
  · exact fun _ => hdrafted
  · intro _ herror
    cases herror
    obtain ⟨hlast, node, n, refusal, hn, hrefused, heq⟩ := hfails rfl
    exact ⟨hdrafted.withdrawn hlast _, node, n, refusal, hn, hrefused, heq⟩
  · exact fun herror => by cases herror

/-- One more operation is made and handed to a node. -/
theorem withdraws_hand (h : c.Drafted first ops) (command : Command) (callback : Callback)
    (node : Nat) {rest : Nat → Call α} {made : α → List Nat}
    (hrest : ∀ {op c'}, c'.Drafted first (ops ++ [op]) → Withdraws first c' (rest op) made) :
    Withdraws first c (Call.operation command callback >>= fun op =>
      Call.submitAfter ops op node >>= fun _ => rest op) made := by
  have hoperation : Withdraws first c (Call.operation command callback) fun op => ops ++ [op] :=
    ⟨fun ha => (Except.ok.inj ha) ▸ h.create command callback, fun ha => by cases ha⟩
  exact hoperation.bind fun h' => (withdraws_submitAfter h' node).bind hrest

/-- The same with a completion of its own. -/
theorem withdraws_join (h : c.Drafted first ops) (latch : Nat) (command : Command) (node : Nat)
    {rest : Nat → Nat → Call α} {made : α → List Nat}
    (hrest : ∀ {completion op c'}, c'.Drafted first (ops ++ [op]) →
      Withdraws first c' (rest completion op) made) :
    Withdraws first c (Call.completion latch >>= fun completion =>
      Call.operation command (.completion completion) >>= fun op =>
        Call.submitAfter ops op node >>= fun _ => rest completion op) made :=
  (withdraws_change h rfl rfl rfl).bind fun h' => withdraws_hand h' command _ node hrest

end Call

end ShardedCache

import ShardedCache.Cluster.Waiting
import ShardedCache.Node.Connection
import ShardedCache.Proofs.Node.Moving

/-!
# What a cluster goes through

A regular cluster has a proper engine, each of its nodes holds what it has taken in and has not ended,
and nothing has been put off. Whatever happens to a cluster leads to one that is regular again, by moves
of its engine, and an operation that is held by a node which has not shut down stays so until it ends
(`Cluster.Leads`).
-/

namespace ShardedCache

open Engine (Proper Moves)

/-- The queues hold what they have been given, as far as that has not ended. -/
theorem Queue.Custody.exact {accepted : List Nat} {q : Queue} {e : Engine} (h : q.Custody accepted e) :
    q.Custody (q.held e) e :=
  ⟨h.sound, h.nodup, h.known, fun _ hid _ => hid, h.input, h.known, fun _ hid => .inr hid⟩

namespace Cluster

def queue? (c : Cluster) (node : Nat) : Option Queue := (c.node? node).map (·.queue)

theorem queue?_modifyNode (c : Cluster) (node : Nat) {f : Node → Node}
    (hf : ∀ n, (f n).queue = n.queue) (nd : Nat) : (c.modifyNode node f).queue? nd = c.queue? nd := by
  simp only [queue?, node?, modifyNode, List.getElem?_modify]
  cases c.nodes[nd]? with
  | none => simp
  | some n => by_cases h : node = nd <;> simp [h, hf]

structure Regular (since : Outline) (c : Cluster) : Prop where
  proper : c.engine.Proper
  since : since.Grows c.engine.reports.outline
  custody : ∀ {node : Nat} {q : Queue}, c.queue? node = some q → q.Custody (q.held c.engine) c.engine
  alarms : c.alarms = []
  deferred : c.deferred = []

/-- The operation has ended, or the node has not shut down and holds it. -/
def Lodged (c : Cluster) (id node : Nat) : Prop :=
  c.engine.isTerminal id ∨ ∃ q, c.queue? node = some q ∧ q.closed = false ∧ id ∈ q.held c.engine

/-- The node is there, and has shut down. -/
def Destroyed (c : Cluster) (node : Nat) : Prop := ∃ q, c.queue? node = some q ∧ q.closed

structure Leads (since : Outline) (c c' : Cluster) : Prop where
  start : c.Regular since
  regular : c'.Regular since
  moves : c.engine.Moves since c'.engine
  nodes : ∀ {node q}, c.queue? node = some q → ∃ q', c'.queue? node = some q' ∧ (q.closed → q'.closed)
  lodged : ∀ {id node : Nat}, c.engine.IsSingle id → c.Lodged id node → c'.Lodged id node

variable {since : Outline} {c c' c'' : Cluster}

theorem Leads.goes (h : Leads since c c') : c.engine.Goes c'.engine :=
  h.moves.goes h.start.proper.orderly.sound

theorem Leads.trans (h : Leads since c c') (h' : Leads since c' c'') : Leads since c c'' where
  start := h.start
  regular := h'.regular
  moves := h.moves.trans h'.moves
  nodes hq := by
    obtain ⟨q', hq', hclosed⟩ := h.nodes hq
    obtain ⟨q'', hq'', hclosed'⟩ := h'.nodes hq'
    exact ⟨q'', hq'', fun hc => hclosed' (hclosed hc)⟩
  lodged hsingle hlodged := h'.lodged (hsingle.follows h.goes.follows) (h.lodged hsingle hlodged)

theorem Leads.shelved (h : Leads since c c') {x : Nat} (hx : c.engine.Shelved x) :
    c'.engine.Shelved x := h.moves.shelved h.start.proper.orderly.sound hx

theorem Leads.destroyed (h : Leads since c c') {node : Nat} (hnode : c.Destroyed node) :
    c'.Destroyed node := by
  obtain ⟨q, hq, hclosed⟩ := hnode
  obtain ⟨q', hq', hstill⟩ := h.nodes hq
  exact ⟨q', hq', hstill hclosed⟩

theorem Leads.there (h : Leads since c c') {node : Nat} (hnode : (c.queue? node).isSome) :
    (c'.queue? node).isSome := by
  obtain ⟨q, hq⟩ := Option.isSome_iff_exists.1 hnode
  obtain ⟨q', hq', -⟩ := h.nodes hq
  exact Option.isSome_iff_exists.2 ⟨q', hq'⟩

namespace Regular

/-- It is enough to know what has become of the queues. -/
theorem leads (h : c.Regular since) (hmoves : c.engine.Moves since c'.engine)
    (hnodes : ∀ {node q}, c.queue? node = some q →
      ∃ q', c'.queue? node = some q' ∧ (q.closed → q'.closed))
    (hcustody : ∀ {node q'}, c'.queue? node = some q' → q'.Custody (q'.held c'.engine) c'.engine)
    (hheld : ∀ {node q id}, c.queue? node = some q → q.closed = false → c.engine.IsSingle id →
      id ∈ q.held c.engine → c'.Lodged id node)
    (halarms : c'.alarms = c.alarms) (hdeferred : c'.deferred = c.deferred) : Leads since c c' where
  start := h
  regular := ⟨h.proper.moves hmoves, h.since.trans hmoves.grows, hcustody, halarms.trans h.alarms,
    hdeferred.trans h.deferred⟩
  moves := hmoves
  nodes := hnodes
  lodged hsingle hlodged := by
    rcases hlodged with hend | ⟨q, hq, hopen, hid⟩
    · exact .inl ((hmoves.goes h.proper.orderly.sound).follows.isTerminal
        (Engine.lt_size_of_isSingle hsingle) hend)
    · exact hheld hq hopen hsingle hid

/-- A node that is not touched holds what it held. -/
theorem held_eq (h : c.Regular since) (hmoves : c.engine.Moves since c'.engine) {node : Nat}
    {q : Queue} (hq : c.queue? node = some q) : q.held c'.engine = q.held c.engine :=
  Queue.held_congr (hmoves.goes h.proper.orderly.sound).follows (h.custody hq).known

theorem custody_of_moves (h : c.Regular since) (hmoves : c.engine.Moves since c'.engine) {node : Nat}
    {q : Queue} (hq : c.queue? node = some q) : q.Custody (q.held c'.engine) c'.engine :=
  ((h.custody hq).goes (hmoves.goes h.proper.orderly.sound) rfl rfl).exact

/-- The queues are as before. -/
theorem leads_of_queues (h : c.Regular since) (hmoves : c.engine.Moves since c'.engine)
    (hqueues : ∀ node, c'.queue? node = c.queue? node) (halarms : c'.alarms = c.alarms)
    (hdeferred : c'.deferred = c.deferred) : Leads since c c' := by
  refine h.leads hmoves (fun {node q} hq => ⟨q, (hqueues node).trans hq, id⟩)
    (fun {node q'} hq' => ?_) (fun {node q id} hq hopen _ hid => ?_) halarms hdeferred
  · exact h.custody_of_moves hmoves ((hqueues node).symm.trans hq')
  · refine .inr ⟨q, (hqueues node).trans hq, hopen, ?_⟩
    rw [h.held_eq hmoves hq]
    exact hid

/-- The queues of one node have changed. -/
theorem leads_of_queue (h : c.Regular since) (hmoves : c.engine.Moves since c'.engine) {node : Nat}
    {q q' : Queue} (hq : c.queue? node = some q)
    (hqueues : ∀ nd, c'.queue? nd = if nd = node then some q' else c.queue? nd)
    (hclosed : q.closed → q'.closed) (hcustody : q'.Custody (q'.held c'.engine) c'.engine)
    (hheld : ∀ {id}, q.closed = false → c.engine.IsSingle id → id ∈ q.held c.engine →
      c'.engine.isTerminal id ∨ q'.closed = false ∧ id ∈ q'.held c'.engine)
    (halarms : c'.alarms = c.alarms) (hdeferred : c'.deferred = c.deferred) : Leads since c c' := by
  refine h.leads hmoves (fun {nd q''} hq'' => ?_) (fun {nd q''} hq'' => ?_)
    (fun {nd q'' id} hq'' hopen hsingle hid => ?_) halarms hdeferred
  · by_cases hnd : nd = node
    · subst hnd
      cases hq.symm.trans hq''
      exact ⟨q', (hqueues nd).trans (if_pos rfl), hclosed⟩
    · exact ⟨q'', (hqueues nd).trans ((if_neg hnd).trans hq''), id⟩
  · rw [hqueues] at hq''
    split at hq''
    · cases hq''
      exact hcustody
    · exact h.custody_of_moves hmoves hq''
  · by_cases hnd : nd = node
    · subst hnd
      cases hq.symm.trans hq''
      refine (hheld hopen hsingle hid).imp_right fun ⟨hopen', hid'⟩ => ⟨q', ?_, hopen', hid'⟩
      rw [hqueues, if_pos rfl]
    · refine .inr ⟨q'', ?_, hopen, ?_⟩
      · rw [hqueues, if_neg hnd, hq'']
      · rw [h.held_eq hmoves hq'']
        exact hid

theorem leads_refl (h : c.Regular since) : Leads since c c :=
  h.leads_of_queues (Moves.refl _) (fun _ => rfl) rfl rfl

/-- Only the engine has changed. -/
theorem leads_engine (h : c.Regular since) {e : Engine} (hmoves : c.engine.Moves since e) :
    Leads since c { c with engine := e } :=
  @leads_of_queues since c { c with engine := e } h hmoves (fun _ => rfl) rfl rfl

theorem leads_mapMetrics (h : c.Regular since) (f : Metrics → Metrics) :
    Leads since c (c.mapMetrics f) :=
  h.leads_engine (Engine.moves_record h.proper _ _)

/-- What is known of a node besides its queues is of no consequence. -/
theorem leads_modifyNode (h : c.Regular since) (node : Nat) {f : Node → Node}
    (hf : ∀ n, (f n).queue = n.queue) : Leads since c (c.modifyNode node f) :=
  h.leads_of_queues (Moves.refl _) (queue?_modifyNode c node hf) rfl rfl

end Regular

/-! ## Driving the queues -/

theorem queue?_set {node : Nat} {n : Node} (hn : c.node? node = some n) (e : Engine) (q : Queue)
    (nd : Nat) : queue? { c with engine := e, nodes := c.nodes.set node { n with queue := q } } nd =
      if nd = node then some q else c.queue? nd := by
  obtain ⟨hlt, -⟩ := List.getElem?_eq_some_iff.1 hn
  by_cases h : nd = node
  · rw [if_pos h, h]
    simp [queue?, node?, hlt]
  · rw [if_neg h]
    simp only [queue?, node?, List.getElem?_set_ne fun h' => h h'.symm]

/-- A step of the queues of a node. -/
theorem leads_withQueue {α : Type} (h : c.Regular since) (node : Nat) (default : α)
    {f : Queue → Engine → Queue × Engine × α}
    (hf : ∀ q, Queue.Advances since q c.engine (f q c.engine).1 (f q c.engine).2.1) :
    Leads since c (c.withQueue node default f).1 := by
  unfold withQueue
  cases hn : c.node? node with
  | none => exact h.leads_refl
  | some n =>
    have hadvances := hf n.queue
    have hq : c.queue? node = some n.queue := by rw [queue?, hn]; rfl
    have hcustody := hadvances.custody (h.custody hq)
    refine h.leads_of_queue hadvances.moves hq (queue?_set hn _ _) hadvances.closed.trans hcustody.exact
      (fun hopen _ hid => ?_) rfl rfl
    exact (hcustody.located _ hid).imp_right fun hid' => ⟨hadvances.closed.trans hopen, hid'⟩

section Queues

variable (h : c.Regular since) (node : Nat)

include h

theorem leads_copyInput : Leads since c (c.copyInput node).1 :=
  leads_withQueue h node 0 fun q => Queue.advances_copyInput q c.engine

theorem leads_pack : Leads since c (c.pack node) :=
  leads_withQueue h node () fun q => Queue.advances_pack h.proper h.since.multiplexers q

theorem leads_takeWritten (n : Nat) : Leads since c (c.takeWritten node n).1 :=
  leads_withQueue h node [] fun q => Queue.advances_takeWritten q c.engine n

theorem leads_appendRead (bytes : Bytes) : Leads since c (c.appendRead node bytes) :=
  leads_withQueue h node () fun q => Queue.advances_appendRead q c.engine bytes

theorem leads_process : Leads since c (c.process node).1 :=
  leads_withQueue h node none fun q => Queue.advances_process q h.proper

theorem leads_resend (cause : String) : Leads since c (c.resend node cause) :=
  leads_withQueue h node () fun q => Queue.advances_resend h.proper q cause

theorem leads_destroy (cause : String) : Leads since c (c.destroy node cause) := by
  unfold destroy withQueue
  cases hn : c.node? node with
  | none => exact h.leads_refl
  | some n =>
    have hq : c.queue? node = some n.queue := by rw [queue?, hn]; rfl
    obtain ⟨hgoes, hend⟩ := Queue.isTerminal_destroy (h.custody hq) cause
    have hmoves : c.engine.Moves since (n.queue.destroy c.engine cause).2 :=
      Queue.moves_cancelEach h.proper _ cause
    refine h.leads_of_queue hmoves hq (queue?_set hn _ _) (fun _ => rfl) ?_
      (fun _ _ hid => .inl (hend _ hid)) rfl rfl
    have hreleased := @Queue.Custody.release _ n.queue.line _ (n.queue.destroy c.engine cause).1 _ _
      (h.custody hq) hgoes (List.Perm.refl _)
      (fun id hid => hend id (Queue.mem_held_of_mem_line hid)) fun id hid => by cases hid
    exact hreleased.exact

end Queues

theorem destroyed_destroy {node : Nat} (hnode : (c.queue? node).isSome) (cause : String) :
    (c.destroy node cause).Destroyed node := by
  unfold destroy withQueue
  cases hn : c.node? node with
  | none => simp [queue?, hn] at hnode
  | some n => exact ⟨_, (queue?_set hn _ _ node).trans (if_pos rfl), rfl⟩

/-- An operation that is lodged at a node which has been destroyed has ended. -/
theorem Lodged.isTerminal {id node : Nat} (h : c.Lodged id node) (hnode : c.Destroyed node) :
    c.engine.isTerminal id := by
  obtain ⟨q, hq, hclosed⟩ := hnode
  rcases h with hend | ⟨q', hq', hopen, -⟩
  · exact hend
  · cases hq.symm.trans hq'
    cases hclosed.symm.trans hopen

/-! ## Taking operations in -/

/-- No node holds the operation. -/
def Free (c : Cluster) (id : Nat) : Prop :=
  ∀ {node : Nat} {q : Queue}, c.queue? node = some q → id ∉ q.held c.engine

variable {id node : Nat}

theorem Free.of_moves (hfree : c.Free id) (h : c.Regular since)
    (hmoves : c.engine.Moves since c'.engine) (hqueues : ∀ node, c'.queue? node = c.queue? node) :
    c'.Free id := fun {node q} hq => by
  have hq' := (hqueues node).symm.trans hq
  rw [h.held_eq hmoves hq']
  exact hfree hq'

theorem closed_of_submit {q q' : Queue} (h : q.submit id = .ok q') : q.closed = false := by
  unfold Queue.submit at h
  split at h
  · cases h
  · next hclosed => exact Bool.eq_false_iff.2 hclosed

section Take

variable (h : c.Regular since) (hfree : c.Free id)

include h hfree

/-- The queues of a node have taken in an operation. -/
theorem leads_take {n : Node} (hn : c.node? node = some n) {q' : Queue}
    (hcustody : ∀ {accepted}, n.queue.Custody accepted c.engine → id ∉ accepted →
      q'.Custody (id :: accepted) c.engine)
    (hclosed : q'.closed = n.queue.closed) (hheld : n.queue.held c.engine ⊆ q'.held c.engine) :
    Leads since c { c with nodes := c.nodes.set node { n with queue := q' } } := by
  have hq : c.queue? node = some n.queue := by rw [queue?, hn]; rfl
  refine @Regular.leads_of_queue since c { c with nodes := c.nodes.set node { n with queue := q' } } h
    (Moves.refl _) node _ q' hq (queue?_set hn c.engine q') hclosed.trans ?_ (fun hopen _ hid => ?_)
    rfl rfl
  · exact (hcustody (h.custody hq) (hfree hq)).exact
  · exact .inr ⟨hclosed.trans hopen, hheld hid⟩

variable (hsingle : c.engine.IsSingle id)

include hsingle

theorem leads_pushFront : Leads since c (c.pushFront node id) := by
  unfold pushFront withQueue
  cases hn : c.node? node with
  | none => exact h.leads_refl
  | some n =>
    refine @leads_take since c id node h hfree n hn (n.queue.pushFront id)
      (fun hcustody hnew => Queue.custody_pushFront hcustody hsingle hnew) rfl fun x hx => ?_
    simp only [Queue.held, Queue.line, Queue.pushFront, List.mem_append, List.cons_append,
      List.mem_cons, List.flatMap_cons] at hx ⊢
    tauto

/-- An operation that a node has been asked to take in is held by it, or has ended. -/
theorem leads_enqueue : Leads since c (c.enqueue id node).1 ∧
    ((c.queue? node).isSome → (c.enqueue id node).1.Lodged id node) := by
  unfold enqueue
  cases hn : c.node? node with
  | none => exact ⟨h.leads_refl, fun hsome => by simp [queue?, hn] at hsome⟩
  | some n =>
    dsimp only
    cases hsubmit : n.queue.submit id with
    | error refusal =>
      refine ⟨h.leads_engine (Engine.moves_cancel h.proper id refusal.cause), fun _ => .inl ?_⟩
      exact (Engine.goes_cancel h.proper.orderly.sound id refusal.cause).2
    | ok q' =>
      have hq' := Queue.submit_eq hsubmit
      refine ⟨leads_take h hfree hn (fun hcustody hnew => ?_) (by rw [hq']) fun x hx => ?_,
        fun _ => .inr ⟨q', ?_, ?_, ?_⟩⟩
      · rw [hq']
        exact Queue.custody_submit hcustody hsingle hnew
      · rw [hq']
        simp only [Queue.held, Queue.line, List.mem_append] at hx ⊢
        tauto
      · exact (queue?_set hn c.engine q' node).trans (if_pos rfl)
      · have hopen := closed_of_submit hsubmit
        rwa [hq']
      · rw [hq']
        exact Queue.mem_held_of_mem_line (List.mem_append_left _
          (List.mem_append_right _ (List.mem_singleton_self id)))

end Take

theorem leads_assign (h : c.Regular since) (id node : Nat) : Leads since c (c.assign id node) :=
  h.leads_engine (Engine.moves_modify h.proper id (f := ({ · with node := some node }))
    fun _ => ⟨rfl, rfl, rfl, rfl, rfl, rfl, rfl⟩)

/-! ## Waiting -/

section Idle

variable (halarms : c.alarms = []) (hdeferred : c.deferred = [])

include halarms hdeferred

/-- As nothing has been put off, a wait that is not over at once lasts its whole time. -/
theorem waitFor_of_idle (ready : Cluster → Bool) (timeout : Nat) :
    c.waitFor ready timeout =
      if ready c then (c, true) else ({ c with now := max c.now (c.now + timeout) }, false) := by
  have hmoments : c.momentsBefore (c.now + timeout) = [] := by
    simp [momentsBefore, halarms, hdeferred]
  unfold waitFor
  rw [hmoments]
  rfl

/-- A node that has not let the client in yet does not do so while nothing else happens. -/
theorem submit_of_idle (id node : Nat) :
    c.submit id node =
      if c.isAuthenticated node then (c.assign id node).enqueue id node
      else
        let wait := ((c.node? node).map (·.authWait)).getD 0
        ({ c.assign id node with now := max c.now (c.now + wait) }.cancel id "authentication timeout",
          .ok ()) := by
  by_cases hauth : c.isAuthenticated node = true
  · rw [if_pos hauth]
    exact if_pos hauth
  · have hlater : ¬(c.assign id node).isAuthenticated node = true := hauth
    rw [if_neg hauth]
    refine (if_neg hauth).trans ?_
    rw [@waitFor_of_idle (c.assign id node) halarms hdeferred, if_neg hlater]
    rfl

end Idle

theorem Regular.waitFor_eq (h : c.Regular since) (ready : Cluster → Bool) (timeout : Nat) :
    c.waitFor ready timeout =
      if ready c then (c, true) else ({ c with now := max c.now (c.now + timeout) }, false) :=
  waitFor_of_idle h.alarms h.deferred ready timeout

theorem Regular.leads_now (h : c.Regular since) (now : Nat) : Leads since c { c with now } :=
  @Regular.leads_of_queues since c { c with now } h (Moves.refl _) (fun _ => rfl) rfl rfl

theorem leads_waitFor (h : c.Regular since) (ready : Cluster → Bool) (timeout : Nat) :
    Leads since c (c.waitFor ready timeout).1 := by
  rw [h.waitFor_eq]
  split
  · exact h.leads_refl
  · exact h.leads_now _

/-- Whether it is let in at once, after some time or not at all, an operation that has been handed to
a node is held by it or has ended. -/
theorem leads_submit (h : c.Regular since) (hfree : c.Free id) (hsingle : c.engine.IsSingle id) :
    Leads since c (c.submit id node).1 ∧
      ((c.queue? node).isSome → (c.submit id node).1.Lodged id node) := by
  have hassign := leads_assign h id node
  rw [submit_of_idle h.alarms h.deferred]
  split
  · have hassigned : (c.assign id node).Free id := hfree.of_moves h hassign.moves fun _ => rfl
    obtain ⟨hleads, hlodged⟩ := @leads_enqueue _ _ _ node hassign.regular hassigned
      (hsingle.follows hassign.goes.follows)
    exact ⟨hassign.trans hleads, hlodged⟩
  · have hnow := hassign.regular.leads_now
      (max c.now (c.now + ((c.node? node).map (·.authWait)).getD 0))
    have hproper := hnow.regular.proper
    refine ⟨(hassign.trans hnow).trans (hnow.regular.leads_engine
      (Engine.moves_cancel hproper id "authentication timeout")), fun _ => .inl ?_⟩
    exact (Engine.goes_cancel hproper.orderly.sound id "authentication timeout").2

end Cluster

end ShardedCache

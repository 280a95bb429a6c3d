import ShardedCache.Proofs.Client.Asking
import ShardedCache.Proofs.Cluster.Leading

/-!
# What happens to a cluster from outside

Connections come and go, time passes, waits are charged to nodes, and callers cancel. Whatever comes of
it, the cluster is led on (`Cluster.Leads`).
-/

namespace ShardedCache

open Engine (Moves)

namespace Cluster

variable {since : Outline} {c c' : Cluster}

/-! ## Making operations -/

section Create

variable (h : c.Regular since) (command : Command) {callback : Callback}
  (hknown : callback.Known c.engine.reports.outline)
  (hbeyond : callback.Beyond since c.engine.reports.outline)

include h hknown hbeyond

/-- A new operation, which no node holds yet. -/
theorem leads_create : Leads since c { c with engine := (c.engine.create command callback).1 } ∧
    Free { c with engine := (c.engine.create command callback).1 } c.engine.size := by
  have hmoves : c.engine.Moves since (c.engine.create command callback).1 :=
    Engine.Move.moves (.add _ _ (fun m hm => by cases hm) hknown hbeyond fun m hm => by cases hm)
  refine ⟨h.leads_engine hmoves, fun {node q} hq hid => ?_⟩
  have hq' : c.queue? node = some q := hq
  have heq : q.held (c.engine.create command callback).1 = q.held c.engine :=
    @Regular.held_eq since c { c with engine := (c.engine.create command callback).1 } h hmoves node q hq'
  rw [heq] at hid
  exact Nat.lt_irrefl _ ((h.custody hq').known _ hid)

end Create

theorem isSingle_create (e : Engine) (command : Command) (callback : Callback) :
    (e.create command callback).1.IsSingle e.size := by
  have hget := Engine.get?_add e (.single command) command.kind.isIdempotent callback e.size
  rw [if_pos rfl] at hget
  exact Engine.isSingle_of_get? hget rfl

/-! ## Connections -/

section Connection

open Connection

variable (h : c.Regular since) (node : Nat)

include h

theorem leads_refill (auth : Option Nat) : Leads since c (refill c node auth) := by
  unfold refill
  dsimp only
  split
  · have htaken := leads_copyInput h node
    exact htaken.trans (leads_pack htaken.regular node)
  · exact leads_pack h node

theorem leads_countRetry (attempt : Nat) : Leads since c (countRetry c node attempt) := by
  unfold countRetry
  split
  · exact h.leads_mapMetrics _
  · exact h.leads_refl

theorem leads_authenticate : Leads since c (authenticate c node).1 := by
  unfold authenticate
  split
  · exact h.leads_refl
  · next credentials _ =>
    obtain ⟨hmade, hfree⟩ := @leads_create _ _ h
      (.saslPlain credentials.username credentials.password) .silent trivial trivial
    have hassigned := leads_assign hmade.regular c.engine.size node
    refine (hmade.trans hassigned).trans (leads_pushFront hassigned.regular
      (hfree.of_moves hmade.regular hassigned.moves fun _ => rfl) ?_)
    exact (isSingle_create c.engine _ _).follows hassigned.goes.follows

theorem leads_close : Leads since c (close c node) := by
  have hcounted := h.leads_mapMetrics (·.recordDisconnected)
  refine hcounted.trans (hcounted.regular.leads_modifyNode node fun n => ?_)
  split <;> rfl

theorem leads_drop : Leads since c (drop c node).1 := by
  have hclosed := leads_close h node
  exact hclosed.trans (leads_resend hclosed.regular node "connection lost")

theorem leads_judge {auth auth' : Option Nat} (hjudge : judge c node auth = some (c', auth')) :
    Leads since c c' := by
  unfold judge at hjudge
  split at hjudge
  · cases hjudge
    exact h.leads_refl
  · split at hjudge
    · cases hjudge
      exact h.leads_refl
    · split at hjudge
      · cases hjudge
        exact h.leads_modifyNode node fun _ => rfl
      · cases hjudge

/-- Whatever happens to a connection. -/
theorem leads_step (state : Connection) (event : LinkEvent) :
    Leads since c (step c node state event).1 := by
  unfold step
  split
  · next attempt =>
    have hretried := leads_countRetry h node attempt
    have hreset := hretried.trans (hretried.regular.leads_modifyNode node
      (f := fun n => { n with health := n.health.reset }) fun _ => rfl)
    have hcounted := hreset.trans (hreset.regular.leads_mapMetrics (·.recordConnected))
    have hauth := hcounted.trans (leads_authenticate hcounted.regular node)
    exact hauth.trans (leads_refill hauth.regular node _)
  · exact leads_countRetry h node _
  · exact leads_refill h node _
  · next n =>
    have hsent := leads_takeWritten h node n
    exact hsent.trans (leads_refill hsent.regular node _)
  · next auth bytes =>
    have hread := leads_appendRead h node bytes
    have hprocessed := hread.trans (leads_process hread.regular node)
    split
    · next c' _ heq =>
      rw [heq] at hprocessed
      exact hprocessed.trans (leads_drop hprocessed.regular node)
    · next c' heq =>
      rw [heq] at hprocessed
      split
      · next hjudge =>
        have hjudged := hprocessed.trans (leads_judge hprocessed.regular node hjudge)
        exact hjudged.trans (leads_refill hjudged.regular node _)
      · exact hprocessed.trans (leads_drop hprocessed.regular node)
  · exact leads_drop h node
  · have hclosed := leads_close h node
    exact hclosed.trans (leads_destroy hclosed.regular node "node shut down")
  · exact leads_destroy h node "node shut down"
  · exact h.leads_refl

end Connection

/-! ## Several changes -/

theorem leads_foldl {α : Type} {f : Cluster → α → Cluster}
    (hf : ∀ {c : Cluster}, c.Regular since → ∀ a, Leads since c (f c a)) :
    ∀ (as : List α) {c : Cluster}, c.Regular since → Leads since c (as.foldl f c)
  | [], _, h => h.leads_refl
  | a :: as, _, h => (hf h a).trans (leads_foldl hf as (hf h a).regular)

/-! ## Waits -/

theorem settleAll_fst (c : Cluster) (latch : Nat) (operations : List Nat) (timeout : Nat) :
    (c.settleAll latch operations timeout).1 = (c.await latch operations timeout).1 := by
  unfold settleAll
  split <;> rename_i heq <;> rw [heq]

section Waits

variable (h : c.Regular since)

include h

theorem leads_chargeSuccess (operations : List Nat) :
    Leads since c (c.chargeSuccess operations) := by
  refine leads_foldl (fun {c} h node => ?_) (nodesOf c.engine operations) h
  exact h.leads_modifyNode node (f := fun n => { n with health := n.health.recordSuccess })
    fun _ => rfl

theorem leads_chargeTimeout (operations : List Nat) :
    Leads since c (c.chargeTimeout operations) := by
  unfold chargeTimeout
  have hmarked := h.leads_engine (Engine.moves_each
    (fun id he => Engine.moves_modify he id (f := ({ · with timedOut := true }))
      fun _ => ⟨rfl, rfl, rfl, rfl, rfl, rfl, rfl⟩)
    (operations.filter (!c.engine.isTerminal ·)) h.proper)
  refine hmarked.trans (leads_foldl (fun {c} h node => ?_) _ hmarked.regular)
  have hcharged := h.leads_modifyNode node
    (f := fun n => { n with health := n.health.recordTimeout }) fun _ => rfl
  exact hcharged.trans (hcharged.regular.leads_mapMetrics _)

theorem leads_waitLatch (latch timeout : Nat) : Leads since c (c.waitLatch latch timeout).1 :=
  leads_waitFor h _ timeout

theorem leads_await (latch : Nat) (operations : List Nat) (timeout : Nat) :
    Leads since c (c.await latch operations timeout).1 := by
  have hwaited := leads_waitLatch h latch timeout
  unfold await
  split
  · next c' heq =>
    rw [heq] at hwaited
    exact hwaited.trans (leads_chargeSuccess hwaited.regular operations)
  · next c' heq =>
    rw [heq] at hwaited
    dsimp only
    split
    · have hgrace := leads_waitLatch hwaited.regular latch completionGrace
      split
      · next c'' heq' =>
        rw [heq'] at hgrace
        exact (hwaited.trans hgrace).trans (leads_chargeSuccess hgrace.regular operations)
      · next c'' heq' =>
        rw [heq'] at hgrace
        exact (hwaited.trans hgrace).trans (leads_chargeTimeout hgrace.regular operations)
    · exact hwaited.trans (leads_chargeTimeout hwaited.regular operations)

theorem leads_settleAll (latch : Nat) (operations : List Nat) (timeout : Nat) :
    Leads since c (c.settleAll latch operations timeout).1 := by
  rw [settleAll_fst]
  exact leads_await h latch operations timeout

theorem leads_passTo (moment : Nat) : Leads since c (c.passTo moment) := by
  have hpassed : c.passTo moment = { c with now := max c.now moment } := by
    simp [passTo, settle, h.alarms, h.deferred]
  rw [hpassed]
  exact h.leads_now _

theorem leads_cancelFuture (operations : List Nat) :
    Leads since c (c.cancelFuture operations).1 := by
  refine h.leads_engine (e := (c.engine.cancelAll operations applicationCause).1) ?_
  rw [Engine.cancelAll_fst]
  exact Engine.moves_each (fun id he => Engine.moves_cancel he id _) operations h.proper

theorem leads_modifyAnswer (answer : Nat)
    (f : SortedGet.Answer StoredValue → SortedGet.Answer StoredValue) :
    Leads since c (c.mapReports (·.modifyAnswer answer f)) :=
  h.leads_engine (Engine.moves_extend h.proper (c.engine.reports.extends_modifyAnswer answer f) rfl)

end Waits

/-! ## Nodes -/

theorem queue?_addNode {node : Nat} {q : Queue} (hq : c.queue? node = some q) (name : String)
    (config : Config) : (c.addNode name config).1.queue? node = some q := by
  obtain ⟨n, hn, rfl⟩ := Option.map_eq_some_iff.1 hq
  obtain ⟨hlt, -⟩ := List.getElem?_eq_some_iff.1 hn
  have hn' : (c.addNode name config).1.node? node = some n := (List.getElem?_append_left hlt).trans hn
  rw [queue?, hn', Option.map_some]

theorem queue?_addNode_self (c : Cluster) (name : String) (config : Config) :
    ((c.addNode name config).1.queue? (c.addNode name config).2).isSome := by
  simp [queue?, node?, addNode]

theorem leads_addNode (h : c.Regular since) (name : String) (config : Config) :
    Leads since c (c.addNode name config).1 := by
  refine h.leads (Moves.refl _) (fun hq => ⟨_, queue?_addNode hq name config, id⟩)
    (fun {node q'} hq' => ?_)
    (fun hq hopen _ hid => .inr ⟨_, queue?_addNode hq name config, hopen, hid⟩) rfl rfl
  cases hq : c.queue? node with
  | some q =>
    cases (queue?_addNode hq name config).symm.trans hq'
    exact h.custody hq
  | none =>
    -- a new node holds nothing
    have hnew : q' = (Node.ofConfig name config c.nodes.length).queue := by
      obtain ⟨n, hn, rfl⟩ := Option.map_eq_some_iff.1 hq'
      have hge : c.nodes.length ≤ node := List.getElem?_eq_none_iff.1 (Option.map_eq_none_iff.1 hq)
      have hn' : [Node.ofConfig name config c.nodes.length][node - c.nodes.length]? = some n :=
        (List.getElem?_append_right hge).symm.trans hn
      cases hk : node - c.nodes.length with
      | zero =>
        rw [hk] at hn'
        cases hn'
        rfl
      | succ k =>
        rw [hk] at hn'
        cases hn'
    rw [hnew]
    exact ⟨h.proper.orderly.sound, List.nodup_nil, fun _ hid => (by cases hid),
      fun _ hid => (by cases hid), fun _ hid => (by cases hid), fun _ hid => (by cases hid),
      fun _ hid => (by cases hid)⟩

theorem leads_shutDown (client : Client) (h : c.Regular since) :
    Leads since c (client.shutDown c) :=
  leads_foldl (fun h node => leads_destroy h node "node shut down") client.nodes h

/-- A client that shuts down destroys its nodes. -/
theorem destroyed_shutDown {client : Client} (h : c.Regular since)
    (hnodes : ∀ node ∈ client.nodes, (c.queue? node).isSome) :
    ∀ node ∈ client.nodes, (client.shutDown c).Destroyed node := by
  have hstep : ∀ {c : Cluster}, c.Regular since → ∀ node,
      Leads since c (c.destroy node "node shut down") := fun h node => leads_destroy h node _
  unfold Client.shutDown
  generalize client.nodes = nodes at hnodes
  induction nodes generalizing c with
  | nil => exact List.forall_mem_nil _
  | cons first nodes ih =>
    obtain ⟨hfirst, hrest⟩ := List.forall_mem_cons.1 hnodes
    have hled := hstep h first
    refine List.forall_mem_cons.2 ⟨?_, ih hled.regular fun node hnode => hled.there (hrest node hnode)⟩
    exact (leads_foldl hstep nodes hled.regular).destroyed (destroyed_destroy hfirst _)

end Cluster

end ShardedCache

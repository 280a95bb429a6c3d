import ShardedCache.Proofs.Client.Calling
import ShardedCache.Proofs.Future.Finality

/-!
# Latches agree with operations

Whatever calls are made, whatever arrives from the servers or fails on the way, whoever cancels or
gives up, and whichever nodes are shut down (`Cluster.Step`): the latch of a future is open just when all
of its operations have ended. So a wait for it runs out of time just when one of them has not, and it
names all that have not (`Future.latch_agrees`).
-/

namespace ShardedCache

open Cluster (Leads)

/-! ## Steps -/

namespace Client

/-- A call, and the future that it returns. -/
def returning {α : Type} (call : Call α) (view : α → Future) (c : Cluster) :
    Cluster × Except CacheError Future := ((call c).1, (call c).2.map view)

/-- What a client may be asked for that it returns a future of. -/
inductive Demand where
  | get {α : Type} (key : String) (t : Transcoder α)
  | gets {α : Type} (key : String) (t : Transcoder α)
  | store (kind : StoreKind) (key : String) (exptime : UInt32) (value : StoredValue)
  | compareAndSwap (key : String) (cas : UInt64) (exptime : UInt32) (value : StoredValue)
  | delete (key : String)
  | count (direction : Direction) (key : String) (amount initial : UInt64)
  | flush (delay : UInt32)
  | getBulk {α : Type} (keys : List String) (t : Transcoder α)
  | setBulk (items : List (String × StoredValue)) (exptime : UInt32)
  | sortedGet {α : Type} (keys : List String) (range : KeyRange) (count : UInt64) (unique : Bool)
    (t : Transcoder α)
  | sortedGetPage {α : Type} (keys : List String) (range : KeyRange) (offset count : UInt64)
    (unique : Bool) (t : Transcoder α)

/-- The call that is made for it. -/
def serve (client : Client) : Demand → Cluster → Cluster × Except CacheError Future
  | .get key t => returning (client.get key t) .shared
  | .gets key t => returning (client.gets key t) .shared
  | .store kind key exptime value => returning (client.store kind key exptime value) .shared
  | .compareAndSwap key cas exptime value =>
    returning (client.compareAndSwap key cas exptime value) .shared
  | .delete key => returning (client.delete key) .shared
  | .count direction key amount initial => returning (client.count direction key amount initial) .shared
  | .flush delay => returning (client.flush delay) .shared
  | .getBulk keys t => returning (client.getBulk keys t) .bulk
  | .setBulk items exptime => returning (client.setBulk items exptime) .piped
  | .sortedGet keys range count unique t => returning (client.sortedGet keys range count unique t) .sorted
  | .sortedGetPage keys range offset count unique t =>
    returning (client.sortedGetPage keys range offset count unique t) .sorted

/-- The caller's own transcoder can fail with the error. -/
def Demand.Refuses (error : CacheError) : Demand → Prop
  | .get _ t => t.Refuses error
  | .gets _ t => t.Refuses error
  | .getBulk _ t => t.Refuses error
  | .sortedGet _ _ _ _ t => t.Refuses error
  | .sortedGetPage _ _ _ _ _ t => t.Refuses error
  | .store .. | .compareAndSwap .. | .delete _ | .count .. | .flush _ | .setBulk .. => False

/-- The caller brings no transcoder of its own. -/
def Demand.IsPlain : Demand → Prop
  | .get _ t => t.IsProvided
  | .gets _ t => t.IsProvided
  | .getBulk _ t => t.IsProvided
  | .sortedGet _ _ _ _ t => t.IsProvided
  | .sortedGetPage _ _ _ _ _ t => t.IsProvided
  | .store .. | .compareAndSwap .. | .delete _ | .count .. | .flush _ | .setBulk .. => True

theorem Demand.IsPlain.not_refuses_timeout {demand : Demand} (h : demand.IsPlain)
    (pending : List Overdue) : ¬demand.Refuses (.timeout pending) := by
  intro hrefuses
  have hnever : ∀ {α : Type} {t : Transcoder α}, t.IsProvided → t.Refuses (.timeout pending) → False :=
    fun ht hrefuses => by cases ht.isTimeout_of_refuses hrefuses
  cases demand with
  | get key t => exact hnever h hrefuses
  | gets key t => exact hnever h hrefuses
  | getBulk keys t => exact hnever h hrefuses
  | sortedGet keys range count unique t => exact hnever h hrefuses
  | sortedGetPage keys range offset count unique t => exact hnever h hrefuses
  | _ => exact hrefuses

end Client

namespace Cluster

/-- What may happen to a cluster. -/
inductive Step (c : Cluster) : Cluster → Prop where
  | connect (config : Config) : Step c (Client.connect config c).1
  | call {client : Client} (hplaced : client.Placed c) (demand : Client.Demand) :
    Step c (client.serve demand c).1
  | versions {client : Client} (hplaced : client.Placed c) : Step c (client.versions c).1
  /-- A connection opens or fails to, is idle, writes, reads, breaks or is closed. -/
  | link (node : Nat) (state : Connection) (event : LinkEvent) :
    Step c (Connection.step c node state event).1
  | cancel (operation : Nat) (cause : String) : Step c (c.cancel operation cause)
  | cancelFuture (operations : List Nat) : Step c (c.cancelFuture operations).1
  | get (f : Future) (timeout : Nat) : Step c (f.get c timeout).1
  | getSome {α : Type} (f : BulkFuture α) (timeout : Nat) : Step c (f.getSome c timeout).1
  | verdict {α : Type} (f : SortedGetFuture α) : Step c (f.verdict c).1
  | shutDown (client : Client) : Step c (client.shutDown c)
  | pass (moment : Nat) : Step c (c.passTo moment)

def Later : Cluster → Cluster → Prop := Relation.ReflTransGen Step

def Reachable (c : Cluster) : Prop := Later {} c

variable {since : Outline} {c c' : Cluster}

theorem leads_futureGet (h : c.Regular since) (f : Future) (timeout : Nat) :
    Leads since c (f.get c timeout).1 := by
  have hsettled := leads_settleAll h (f.latch c) f.operations timeout
  cases f with
  | shared f => exact Client.leads_get h f timeout
  | bulk f =>
    change Leads since c (f.get c timeout).1
    change Leads since c (c.settleAll f.latch f.operations timeout).1 at hsettled
    unfold BulkFuture.get
    split
    · next heq => rwa [heq] at hsettled
    · next heq =>
      rw [heq] at hsettled
      split
      · exact hsettled
      · split <;> exact hsettled
  | piped f =>
    change Leads since c (f.get c timeout).1
    change Leads since c (c.settleAll f.latch f.operations timeout).1 at hsettled
    unfold PipedFuture.get
    split <;>
    · next heq => rwa [heq] at hsettled
  | sorted f =>
    change Leads since c (f.get c timeout).1
    change Leads since c (c.settleAll f.latch f.operations timeout).1 at hsettled
    unfold SortedGetFuture.get
    split
    · next heq => rwa [heq] at hsettled
    · next c₁ _ heq =>
      rw [heq] at hsettled
      split
      · exact hsettled
      · have hconcluded : Leads since c (f.conclude c₁).1 :=
          hsettled.trans (leads_modifyAnswer hsettled.regular f.answer _)
        split
        · next heq' => rwa [heq'] at hconcluded
        · next heq' =>
          rw [heq'] at hconcluded
          split <;> exact hconcluded

theorem leads_getSome {α : Type} (h : c.Regular since) (f : BulkFuture α) (timeout : Nat) :
    Leads since c (f.getSome c timeout).1 := by
  have hwaited := leads_waitLatch h f.latch timeout
  unfold BulkFuture.getSome
  split
  · exact h.leads_refl
  · split
    · next c₁ heq =>
      rw [heq] at hwaited
      exact hwaited.trans (leads_chargeSuccess hwaited.regular f.operations)
    · next c₁ heq =>
      rw [heq] at hwaited
      exact hwaited.trans (leads_chargeTimeout hwaited.regular f.operations)

theorem leads_verdict {α : Type} (h : c.Regular since) (f : SortedGetFuture α) :
    Leads since c (f.verdict c).1 := by
  unfold SortedGetFuture.verdict
  split
  · exact leads_modifyAnswer h f.answer _
  · exact h.leads_refl

end Cluster

open Call (Yields)

/-- A value that cannot be decoded cannot be shown in another form either. -/
theorem Transcoder.refuses_of_map {α β : Type} {t : Transcoder α} {value : StoredValue} {f : α → β}
    {error : CacheError} (h : (t.decode value).map f = .error error) : t.Refuses error := by
  refine ⟨value, ?_⟩
  cases hdecode : t.decode value with
  | error error' =>
    rw [hdecode] at h
    cases h
    rfl
  | ok a =>
    rw [hdecode] at h
    cases h

namespace Client

variable {since : Outline} {c c' : Cluster} {client : Client}

/-- The call leads the cluster on, and the future that it returns, if it does, is under way. -/
structure Returns (since : Outline) (c : Cluster) (reasons : CacheError → Prop)
    (call : Cluster → Cluster × Except CacheError Future) : Prop where
  leads : Leads since c (call c).1
  underway : ∀ {future}, (call c).2 = .ok future → future.Underway (call c).1 reasons

theorem returns_of_yields {α : Type} {x : Call α} {view : α → Future}
    {reasons reasons' : CacheError → Prop}
    (h : Yields since c x fun a c' => (view a).Underway c' reasons)
    (himp : ∀ {error}, reasons error → reasons' error) :
    Returns since c reasons' (returning x view) := by
  refine ⟨h.leads, fun {future} hfuture => ?_⟩
  cases ha : (x c).2 with
  | error error =>
    rw [returning, ha] at hfuture
    cases hfuture
  | ok a =>
    rw [returning, ha] at hfuture
    cases hfuture
    exact (h.result ha).mono himp

theorem returns_serve (h : c.Regular since) (hplaced : client.Placed c) (demand : Demand) :
    Returns since c (demand.Refuses ·) (client.serve demand) := by
  cases demand with
  | get key t =>
    refine returns_of_yields (yields_single h hplaced key _ _) fun {error} ⟨completion, herror⟩ => ?_
    split at herror
    · exact Transcoder.refuses_of_map herror
    · cases herror
  | gets key t =>
    refine returns_of_yields (yields_single h hplaced key _ _) fun {error} ⟨completion, herror⟩ => ?_
    split at herror
    · exact Transcoder.refuses_of_map herror
    · cases herror
  | store kind key exptime value =>
    exact returns_of_yields (yields_single h hplaced key _ _) fun ⟨_, herror⟩ => by cases herror
  | compareAndSwap key cas exptime value =>
    exact returns_of_yields (yields_single h hplaced key _ _) fun ⟨_, herror⟩ => by cases herror
  | delete key =>
    exact returns_of_yields (yields_single h hplaced key _ _) fun ⟨_, herror⟩ => by cases herror
  | count direction key amount initial =>
    exact returns_of_yields (yields_single h hplaced key _ _) fun ⟨_, herror⟩ => by cases herror
  | flush delay => exact returns_of_yields (yields_flush h hplaced delay) False.elim
  | getBulk keys t => exact returns_of_yields (yields_getBulk h hplaced keys t) id
  | setBulk items exptime =>
    exact returns_of_yields (yields_setBulk h hplaced items exptime) False.elim
  | sortedGet keys range count unique t =>
    exact returns_of_yields (yields_sortedGet h hplaced keys range count unique t) id
  | sortedGetPage keys range offset count unique t =>
    exact returns_of_yields (yields_sortedGetPage h hplaced keys range offset count unique t) id

end Client

namespace Cluster

variable {since : Outline} {c c' : Cluster}

theorem Step.leads (hstep : c.Step c') (h : c.Regular since) : Leads since c c' := by
  cases hstep with
  | connect config => exact (Client.yields_connect config h).leads
  | call hplaced demand => exact (Client.returns_serve h hplaced demand).leads
  | versions hplaced => exact Client.leads_versions h hplaced
  | link node state event => exact leads_step h node state event
  | cancel operation cause => exact h.leads_engine (Engine.moves_cancel h.proper operation cause)
  | cancelFuture operations => exact leads_cancelFuture h operations
  | get f timeout => exact leads_futureGet h f timeout
  | getSome f timeout => exact leads_getSome h f timeout
  | verdict f => exact leads_verdict h f
  | shutDown client => exact leads_shutDown client h
  | pass moment => exact leads_passTo h moment

theorem Later.leads (hlater : c.Later c') (h : c.Regular since) : Leads since c c' := by
  induction hlater with
  | refl => exact h.leads_refl
  | tail _ hstep ih => exact ih.trans (hstep.leads ih.regular)

/-- Nothing has been made yet. -/
theorem regular_empty : ({} : Cluster).Regular ({} : Reports).outline where
  proper := Engine.proper_of_initial ⟨rfl, rfl⟩ rfl
  since := Outline.Grows.refl _
  custody hq := by cases hq
  alarms := rfl
  deferred := rfl

theorem overdue_ne_nil {operations : List Nat} :
    c.overdue operations ≠ [] ↔ ∃ id ∈ operations, ¬c.engine.isTerminal id := by
  simp [overdue]

theorem engine_waitLatch (h : c.Regular since) (latch timeout : Nat) :
    (c.waitLatch latch timeout).1.engine = c.engine := by
  rw [waitLatch, h.waitFor_eq]
  split <;> rfl

theorem overdue_waitLatch (h : c.Regular since) (latch timeout : Nat) (operations : List Nat) :
    (c.waitLatch latch timeout).1.overdue operations = [] ↔
      ∀ id ∈ operations, c.engine.isTerminal id := by
  rw [← not_iff_not, ← ne_eq, overdue_ne_nil, engine_waitLatch h]
  simp

/-- A wait that some operation does not let end names those that have not ended. -/
theorem settleAll_of_not_isOpen (h : c.Regular since) {latch timeout : Nat}
    (hshut : ¬c.isOpen latch) {operations : List Nat}
    (hpending : (c.waitLatch latch timeout).1.overdue operations ≠ []) :
    (c.settleAll latch operations timeout).2 =
      .error (.timeout ((c.waitLatch latch timeout).1.overdue operations)) := by
  have hwait : c.waitLatch latch timeout = ({ c with now := max c.now (c.now + timeout) }, false) := by
    rw [waitLatch, h.waitFor_eq, if_neg hshut]
  rw [hwait] at hpending
  simp only [settleAll, await, hwait, List.isEmpty_eq_false_iff.2 hpending, Bool.false_eq_true,
    if_false]

theorem mem_nodesOf {e : Engine} {operations : List Nat} {node : Nat} :
    node ∈ nodesOf e operations ↔ ∃ id ∈ operations, e.home? id = some node :=
  List.mem_eraseDups.trans List.mem_filterMap

end Cluster

/-! ## Agreement -/

namespace Future

variable {c s : Cluster} {f g : Future} {reasons : CacheError → Prop}

section Underway

variable (hf : f.Underway c reasons) (hled : Leads c.engine.reports.outline c s)

include hf hled

theorem Underway.rests_of_leads : f.latch s = f.latch c ∧ f.Rests s := by
  have hrests := hf.rests
  have hgrows := hled.moves.grows
  cases f with
  | shared f =>
    change f.completion < _ at hrests
    refine ⟨?_, Nat.lt_of_lt_of_le hrests hgrows.completions.length_le⟩
    change (s.engine.reports.completion f.completion).latch =
      (c.engine.reports.completion f.completion).latch
    rw [Reports.latch_completion, Reports.latch_completion, hgrows.latchOf_eq hrests]
  | bulk f => exact ⟨rfl, trivial⟩
  | piped f => exact ⟨rfl, trivial⟩
  | sorted f => exact ⟨rfl, Nat.lt_of_lt_of_le hrests hled.moves.answers_le⟩

theorem Underway.isOpen_iff : s.isOpen (f.latch s) ↔ ∀ id ∈ f.operations, s.engine.isTerminal id := by
  obtain ⟨w, hissued⟩ := hf.engaged
  rw [(hf.rests_of_leads hled).1]
  exact (hissued.awaits.moves hled.start.proper hled.moves hissued.awaits.within).isOpen_iff
    hled.regular.proper.orderly.steady

/-- Operations whose nodes have been destroyed have ended. -/
theorem Underway.isOpen_of_destroyed
    (hnodes : ∀ node ∈ Cluster.nodesOf c.engine f.operations, s.Destroyed node) :
    s.isOpen (f.latch s) := by
  refine (hf.isOpen_iff hled).2 fun id hid => ?_
  obtain ⟨w, hissued⟩ := hf.engaged
  obtain ⟨hsingle, node, hhome, hlodged⟩ := hissued.housed id hid
  exact (hled.lodged hsingle hlodged).isTerminal (hnodes node (Cluster.mem_nodesOf.2 ⟨id, hid, hhome⟩))

/-- What a wait for the future comes to. -/
theorem Underway.get_eq_timeout (hkeeps : f.Keeps g)
    (hreasons : ∀ pending, ¬reasons (.timeout pending)) (timeout : Nat) (pending : List Overdue) :
    (g.get s timeout).2.2 = some (.timeout pending) ↔
      pending = (s.waitLatch (f.latch s) timeout).1.overdue f.operations ∧ pending ≠ [] := by
  have hsettled := Cluster.leads_settleAll hled.regular (f.latch s) f.operations timeout
  have hrests : g.Rests (s.settleAll (f.latch s) f.operations timeout).1 :=
    (hkeeps.same _).2.2.2 (hf.rests_of_leads (hled.trans hsettled)).2
  obtain ⟨hlatch, hoperations, -⟩ := hkeeps.same s
  have hends := hf.isOpen_iff hled
  have hnone := Cluster.overdue_waitLatch hled.regular (f.latch s) timeout f.operations
  rw [← hlatch, ← hoperations] at hrests hends hnone ⊢
  by_cases hopen : s.isOpen (g.latch s)
  · -- the wait is over at once, and what it finds is no timeout
    refine ⟨fun htimeout => ?_, fun ⟨heq, hne⟩ => absurd (heq.trans (hnone.2 (hends.1 hopen))) hne⟩
    cases hwait : (s.settleAll (g.latch s) g.operations timeout).2 with
    | error error =>
      rw [get_of_failed (Prod.ext rfl hwait)] at htimeout
      cases htimeout
      rw [Cluster.settleAll_of_isOpen hopen] at hwait
      cases Cluster.isTimeout_of_failures hwait
    | ok =>
      have hrefuses := refuses_of_get (Prod.ext rfl hwait) hrests htimeout
      exact absurd (hf.reads (hkeeps.refuses.1 hrefuses)) (hreasons pending)
  · have hpending : (s.waitLatch (g.latch s) timeout).1.overdue g.operations ≠ [] := fun h =>
      hopen (hends.2 (hnone.1 h))
    rw [get_of_failed (Prod.ext rfl
      (Cluster.settleAll_of_not_isOpen hled.regular hopen hpending))]
    refine ⟨fun heq => ?_, fun ⟨heq, _⟩ => by rw [heq]⟩
    cases heq
    exact ⟨rfl, hpending⟩

end Underway

variable {client : Client} {c' : Cluster}

/-- **The latch of a future is open just when all of its operations have ended.** This is so for
whatever future any call has returned, and whatever has happened since. So a wait for it fails with a
timeout just when some operation has not ended by the time that it is over, and the error names all of
these, in order (unless it is the caller's own transcoder that fails so: one that is provided never
does); and once the nodes of its operations have been destroyed, nobody waits for it any more. Whatever
the future has been asked before makes no difference. -/
theorem latch_agrees (demand : Client.Demand) (hreach : c.Reachable) (hplaced : client.Placed c)
    (hcall : client.serve demand c = (c', .ok f)) (hlater : c'.Later s) :
    (s.isOpen (f.latch s) ↔ ∀ id ∈ f.operations, s.engine.isTerminal id) ∧
    ((∀ pending, ¬demand.Refuses (.timeout pending)) → ∀ g, f.Keeps g → ∀ timeout,
      let expiry := (s.waitLatch (f.latch s) timeout).1
      ((∃ pending, (g.get s timeout).2.2 = some (.timeout pending)) ↔
        ∃ id ∈ f.operations, ¬expiry.engine.isTerminal id) ∧
      ∀ pending, (g.get s timeout).2.2 = some (.timeout pending) →
        pending = expiry.overdue f.operations ∧ pending ≠ []) ∧
    ((∀ node ∈ Cluster.nodesOf c'.engine f.operations, s.Destroyed node) → s.isOpen (f.latch s)) ∧
    (demand.IsPlain → ∀ pending, ¬demand.Refuses (.timeout pending)) ∧
    ∀ g, f.Keeps g → ∀ timeout, f.Keeps (g.get s timeout).2.1 := by
  obtain ⟨hcalled, hreturned⟩ :=
    Client.returns_serve (hreach.leads Cluster.regular_empty).regular hplaced demand
  rw [hcall] at hcalled hreturned
  have hunderway : f.Underway c' (demand.Refuses ·) := hreturned rfl
  have hled : Leads c'.engine.reports.outline c' s := hlater.leads hcalled.regular.rebase
  refine ⟨hunderway.isOpen_iff hled, fun hreasons g hkeeps timeout => ?_,
    hunderway.isOpen_of_destroyed hled, fun hplain => hplain.not_refuses_timeout,
    fun g hkeeps timeout => hkeeps.trans (g.keeps_get s timeout)⟩
  have hget := hunderway.get_eq_timeout hled hkeeps hreasons timeout
  refine ⟨⟨fun ⟨pending, htimeout⟩ => ?_, fun hpending => ?_⟩, fun pending => (hget pending).1⟩
  · obtain ⟨heq, hne⟩ := (hget pending).1 htimeout
    exact Cluster.overdue_ne_nil.1 (heq ▸ hne)
  · exact ⟨_, (hget _).2 ⟨rfl, Cluster.overdue_ne_nil.2 hpending⟩⟩

/-- A client whose configuration has no flaw can be connected. -/
theorem connected_ofConfig {config : Config} (h : config.flaw? = none) :
    (Client.ofConfig config {}).1.Reachable ∧
      (Client.ofConfig config {}).2.Placed (Client.ofConfig config {}).1 := by
  have hconnect : Client.connect config {} =
      ((Client.ofConfig config {}).1, .ok (Client.ofConfig config {}).2) := by
    change Call.bind (Call.check config.validate) _ {} = _
    rw [Config.validate, h]
    rfl
  have hstep := Cluster.Step.connect (c := {}) config
  have hyields := (Client.yields_connect config Cluster.regular_empty).result
    (congrArg Prod.snd hconnect)
  rw [hconnect] at hstep hyields
  exact ⟨.single hstep, hyields⟩

theorem connected_oneNode : Client.oneNode.1.Reachable ∧ Client.oneNode.2.Placed Client.oneNode.1 :=
  connected_ofConfig (by simp [Config.flaw?, Config.sizes, String.contains])

/-- Stores two values. -/
def storeTwo : Call PipedFuture := Client.oneNode.2.setBulk [("a", ⟨0, []⟩), ("b", ⟨0, []⟩)] 0

def twoStores : PipedFuture := { items := [(0, 0), (1, 1)], latch := 0, timeout := 2500 }

theorem serve_storeTwo : Client.oneNode.2.serve (.setBulk [("a", ⟨0, []⟩), ("b", ⟨0, []⟩)] 0)
    Client.oneNode.1 = ((storeTwo Client.oneNode.1).1, .ok (piped twoStores)) := by
  have hresult : (storeTwo Client.oneNode.1).2.toOption = some twoStores := by decide +kernel
  change Client.returning storeTwo piped Client.oneNode.1 = _
  rw [Client.returning]
  cases hstored : (storeTwo Client.oneNode.1).2 with
  | error error =>
    rw [hstored] at hresult
    cases hresult
  | ok f =>
    rw [hstored] at hresult
    cases hresult
    rfl

/-- One of two stores is cancelled, and a wait for both times out over the other; then the client shuts
down. -/
theorem latch_agrees_until_shutDown :
    ∃ c c' s : Cluster, c.Reachable ∧ Client.oneNode.2.Placed c ∧
      Client.oneNode.2.serve (.setBulk [("a", ⟨0, []⟩), ("b", ⟨0, []⟩)] 0) c =
        (c', .ok (piped twoStores)) ∧ c'.Later s ∧ ¬s.isOpen 0 ∧
      (∃ pending, (Future.get s 10 (piped twoStores)).2.2 = some (.timeout pending) ∧
        pending.map (·.operation) = [s.engine.text 1]) ∧
      (Client.oneNode.2.shutDown s).isOpen 0 := by
  obtain ⟨c, hc⟩ : ∃ c, c = Client.oneNode.1 := ⟨_, rfl⟩
  obtain ⟨c', hc'⟩ : ∃ c', c' = (storeTwo c).1 := ⟨_, rfl⟩
  obtain ⟨s, hs⟩ : ∃ s, s = c'.cancel 0 "no longer needed" := ⟨_, rfl⟩
  obtain ⟨hreach, hplaced⟩ := connected_oneNode
  have hcall := serve_storeTwo
  rw [← hc] at hreach hplaced hcall
  rw [← hc'] at hcall
  have hlater : c'.Later s := .single (hs ▸ .cancel 0 "no longer needed")
  have hends : s.engine.isTerminal 1 = false ∧ (s.waitLatch 0 10).1.engine.isTerminal 1 = false ∧
      ((s.waitLatch 0 10).1.overdue [0, 1]).map (·.operation) = [s.engine.text 1] := by
    rw [hs, hc', hc]
    decide +kernel
  have hnodes : Cluster.nodesOf c'.engine [0, 1] = [0] := by
    rw [hc', hc]
    decide +kernel
  obtain ⟨hopen, hget, -, hplain, -⟩ := latch_agrees _ hreach hplaced hcall hlater
  obtain ⟨-, -, hdestroyed, -⟩ := latch_agrees _ hreach hplaced hcall
    (hlater.tail (.shutDown Client.oneNode.2))
  obtain ⟨htimeout, hpending⟩ := hget (hplain trivial) (piped twoStores) (.piped twoStores none) 10
  have hmem : 1 ∈ (piped twoStores).operations := by decide
  refine ⟨c, c', s, hreach, hplaced, hcall, hlater, fun hnow => ?_, ?_, hdestroyed fun node hnode => ?_⟩
  · cases hends.1.symm.trans (hopen.1 hnow 1 hmem)
  · obtain ⟨pending, heq⟩ := htimeout.2 ⟨1, hmem, Bool.eq_false_iff.1 hends.2.1⟩
    refine ⟨pending, heq, ?_⟩
    rw [(hpending pending heq).1]
    exact hends.2.2
  · have hcalled : c.Step c' := by
      have hstep := Cluster.Step.call hplaced (.setBulk [("a", ⟨0, []⟩), ("b", ⟨0, []⟩)] 0)
      rwa [hcall] at hstep
    have hled := Cluster.Later.leads (.head hcalled hlater)
      (Cluster.Later.leads hreach Cluster.regular_empty).regular
    refine Cluster.destroyed_shutDown hled.regular (hplaced.leads hled).there node ?_
    have hnode' : node ∈ Cluster.nodesOf c'.engine [0, 1] := hnode
    rw [hnodes, List.mem_singleton] at hnode'
    rw [hnode']
    decide +kernel

end Future

end ShardedCache

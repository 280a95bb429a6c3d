import ShardedCache.Proofs.Cluster.Events
import ShardedCache.Proofs.Future.Awaiting

/-!
# What calls issue

A call joins its operations to a latch one after the other and hands each to a node. Whether or not it
goes through, it leads the cluster on; if it does, the latch waits for just the operations that the
caller is given, and each is held by its node or has ended already (`Cluster.Issued`).
-/

namespace ShardedCache

open Engine (Moves)
open Cluster (Leads)

/-! ## Where operations are -/

namespace Engine

/-- The node that an operation was handed to. -/
def home? (e : Engine) (id : Nat) : Option Nat := (e.get? id).bind (·.node)

theorem node_cancel (cause : String) (l : Life) :
    (l.cancel cause).operation.node = l.operation.node := by
  unfold Life.cancel
  split
  · rfl
  · unfold Life.report
    split <;> rfl

/-- The callback that an operation was made with. -/
def Calls (e : Engine) (id : Nat) (callback : Callback) : Prop :=
  ∃ op, e.get? id = some op ∧ op.callback = callback

variable {e e' : Engine} {id : Nat}

theorem Calls.goes {callback : Callback} (h : e.Calls id callback) (hgoes : e.Goes e') :
    e'.Calls id callback := by
  obtain ⟨op, hop, hcallback⟩ := h
  obtain ⟨l', hl', hfollows⟩ := hgoes.follows id _ (life?_of_get? hop)
  exact ⟨l'.operation, get?_of_life? hl', (congrArg Nature.callback hfollows.nature).trans hcallback⟩

/-- The command and the callback that an operation was made with. -/
def Carries (e : Engine) (id : Nat) (command : Command) (callback : Callback) : Prop :=
  ∃ op, e.get? id = some op ∧ op.work = .single command ∧ op.callback = callback

theorem Carries.calls {command : Command} {callback : Callback} (h : e.Carries id command callback) :
    e.Calls id callback := by
  obtain ⟨op, hop, -, hcallback⟩ := h
  exact ⟨op, hop, hcallback⟩

theorem Carries.goes {command : Command} {callback : Callback} (h : e.Carries id command callback)
    (hgoes : e.Goes e') : e'.Carries id command callback := by
  obtain ⟨op, hop, hwork, hcallback⟩ := h
  obtain ⟨l', hl', hfollows⟩ := hgoes.follows id _ (life?_of_get? hop)
  exact ⟨l'.operation, get?_of_life? hl', (congrArg Nature.work hfollows.nature).trans hwork,
    (congrArg Nature.callback hfollows.nature).trans hcallback⟩

theorem carries_create (e : Engine) (command : Command) (callback : Callback) :
    (e.create command callback).1.Carries e.size command callback := by
  have hget := get?_add e (.single command) command.kind.isIdempotent callback e.size
  rw [if_pos rfl] at hget
  exact ⟨_, hget, rfl, rfl⟩

theorem home?_cancel (h : e.IsSingle id) (cause : String) (j : Nat) :
    (e.cancel id cause).1.home? j = e.home? j := by
  have hlives := (becomes_cancelTo_single id (members_of_isSingle h) cause).lives j
  change (cancelTo (id + 1) e id cause).home? j = e.home? j
  rw [home?, home?, get?_eq, get?_eq, hlives]
  cases e.life? j with
  | none => rfl
  | some l =>
    by_cases hj : j ∈ [id]
    · simp [among_of_mem hj, node_cancel]
    · simp [among_of_not_mem hj]

theorem home?_create_of_lt (e : Engine) (command : Command) (callback : Callback) (h : id < e.size) :
    (e.create command callback).1.home? id = e.home? id := by
  have hget := get?_add e (.single command) command.kind.isIdempotent callback id
  rw [if_neg (Nat.ne_of_lt h)] at hget
  exact congrArg (·.bind (·.node)) hget

end Engine

namespace Cluster

variable {since : Outline} {c c' : Cluster} {id node : Nat}

theorem home?_assign (h : id < c.engine.size) (node j : Nat) :
    (c.assign id node).engine.home? j = if j = id then some node else c.engine.home? j := by
  have hget := Engine.get?_modify c.engine id ({ · with node := some node }) j
  change (Engine.get? (c.engine.modify id ({ · with node := some node })) j).bind (·.node) = _
  rw [hget]
  by_cases hj : id = j
  · obtain ⟨op, hop⟩ := Engine.get?_of_lt_size h
    rw [if_pos hj, if_pos hj.symm, ← hj, hop]
    rfl
  · rw [if_neg hj, if_neg (Ne.symm hj)]
    rfl

theorem home?_enqueue (h : c.engine.IsSingle id) (node j : Nat) :
    (c.enqueue id node).1.engine.home? j = c.engine.home? j := by
  unfold enqueue
  split
  · rfl
  · split
    · exact Engine.home?_cancel h _ j
    · rfl

/-- Only the operation that is handed over gets a node. -/
theorem home?_submit (hc : c.Regular since) (h : c.engine.IsSingle id) (node j : Nat) :
    (c.submit id node).1.engine.home? j = if j = id then some node else c.engine.home? j := by
  have hassigned : (c.assign id node).engine.IsSingle id :=
    h.follows (leads_assign hc id node).goes.follows
  rw [submit_of_idle hc.alarms hc.deferred, ← home?_assign (Engine.lt_size_of_isSingle h)]
  split
  · exact home?_enqueue hassigned node j
  · exact Engine.home?_cancel hassigned _ j

/-- The latch, made for `n` operations, waits for these, and each has been handed to a node that holds
it, unless it has ended. -/
structure Issued (c : Cluster) (w : Wiring) (latch n : Nat) (ops : List Nat) : Prop where
  awaits : c.engine.Awaits w latch n ops
  housed : ∀ id ∈ ops, c.engine.IsSingle id ∧ ∃ node, c.engine.home? id = some node ∧ c.Lodged id node

/-- What a future of these operations is for: a latch that waits for all of them and nothing else. -/
def Engaged (c : Cluster) (latch : Nat) (ops : List Nat) : Prop :=
  ∃ w, c.Issued w latch ops.length ops

theorem Regular.rebase (h : c.Regular since) : c.Regular c.engine.reports.outline :=
  { h with since := Outline.Grows.refl _ }

variable {w : Wiring} {latch n : Nat} {ops : List Nat}

theorem Issued.leads (hissued : c.Issued w latch n ops) (h : Leads since c c')
    (hsince : w.Within latch since) (hhome : ∀ id ∈ ops, c'.engine.home? id = c.engine.home? id) :
    c'.Issued w latch n ops where
  awaits := hissued.awaits.moves h.start.proper h.moves hsince
  housed id hid := by
    obtain ⟨hsingle, node, hnode, hlodged⟩ := hissued.housed id hid
    exact ⟨hsingle.follows h.goes.follows, node, (hhome id hid).trans hnode, h.lodged hsingle hlodged⟩

/-- Tables have been extended. -/
theorem Issued.extend (hissued : c.Issued w latch n ops) (hc : c.Regular since) {r : Reports}
    (hextends : c.engine.reports.Extends r)
    (hlatches : ∀ latch ∈ r.outline.completions, latch < r.outline.latches) :
    (c.mapReports fun _ => r).Issued w latch n ops :=
  hissued.leads (hc.rebase.leads_engine (Engine.Move.extend hextends hlatches).moves)
    hissued.awaits.within fun _ _ => rfl

/-- One more operation is joined to the latch and handed to a node. -/
theorem Issued.submit (hissued : c.Issued w latch n ops) (hc : c.Regular since) (command : Command)
    {callback : Callback} (hknown : callback.Known c.engine.reports.outline)
    (hbeyond : callback.Beyond since c.engine.reports.outline)
    (hjoins : w.Joins c.engine.reports.outline latch callback) (hnode : (c.queue? node).isSome) :
    let made := { c with engine := (c.engine.create command callback).1 }
    Leads since c made ∧ Leads since made (made.submit c.engine.size node).1 ∧
      (made.submit c.engine.size node).1.Issued w latch n (ops ++ [c.engine.size]) := by
  intro made
  obtain ⟨hmade, hfree⟩ := leads_create hc command hknown hbeyond
  have hsingle : made.engine.IsSingle c.engine.size := isSingle_create c.engine command callback
  have hawaits : made.engine.Awaits w latch n (ops ++ [c.engine.size]) :=
    hissued.awaits.add _ _ hknown hjoins
  -- the latch is there already, so that handing the operation over cannot lead to it
  have hboth := fun {since : Outline} (hregular : made.Regular since) =>
    @leads_submit since made c.engine.size node hregular hfree hsingle
  obtain ⟨hsubmit, hlodged⟩ := hboth hmade.regular
  obtain ⟨hmoves, -⟩ := hboth hmade.regular.rebase
  have hled := hmade.trans hsubmit
  refine ⟨hmade, hsubmit, hawaits.moves hmade.regular.proper hmoves.moves hawaits.within,
    fun id hid => ?_⟩
  have hhome := home?_submit hmade.regular hsingle node id
  rcases List.mem_append.1 hid with hid | hid
  · obtain ⟨hold, nd, hnd, hheld⟩ := hissued.housed id hid
    have hlt := Engine.lt_size_of_isSingle hold
    refine ⟨hold.follows hled.goes.follows, nd, ?_, hled.lodged hold hheld⟩
    rw [hhome, if_neg (Nat.ne_of_lt hlt)]
    exact (Engine.home?_create_of_lt c.engine command callback hlt).trans hnd
  · rw [List.mem_singleton] at hid
    subst hid
    refine ⟨hsingle.follows hsubmit.goes.follows, node, ?_, hlodged hnode⟩
    rw [hhome, if_pos rfl]

end Cluster

/-! ## Steps of a call -/

namespace Call

variable {α β : Type} {since : Outline} {c : Cluster} {Q : α → Cluster → Prop} {R : β → Cluster → Prop}

/-- The call leads the cluster on, and if it goes through its result is as described. -/
structure Yields (since : Outline) (c : Cluster) (x : Call α) (Q : α → Cluster → Prop) : Prop where
  leads : Leads since c (x c).1
  result : ∀ {a}, (x c).2 = .ok a → Q a (x c).1

theorem yields_pure (h : c.Regular since) {a : α} (hQ : Q a c) : Yields since c (pure a) Q :=
  ⟨h.leads_refl, fun ha => by cases ha; exact hQ⟩

theorem yields_fail (h : c.Regular since) (error : CacheError) : Yields since c (fail error) Q :=
  ⟨h.leads_refl, fun ha => by cases ha⟩

namespace Yields

theorem bind {x : Call α} {f : α → Call β} (hx : Yields since c x Q)
    (hf : ∀ {a c'}, Leads since c c' → Q a c' → Yields since c' (f a) R) :
    Yields since c (x >>= f) R := by
  rcases bind_fst x f c with ⟨error, -, heq⟩ | ⟨a, ha, heq⟩
  · exact ⟨by rw [heq]; exact hx.leads, fun hb => by rw [heq] at hb; cases hb⟩
  · have hrest := hf hx.leads (hx.result (congrArg Prod.snd ha))
    exact ⟨by rw [heq]; exact hx.leads.trans hrest.leads, fun hb => by
      rw [heq] at hb ⊢
      exact hrest.result hb⟩

theorem congr {x x' : Call α} (hx : Yields since c x Q) (heq : x' c = x c) : Yields since c x' Q :=
  ⟨by rw [heq]; exact hx.leads, fun ha => by rw [heq] at ha ⊢; exact hx.result ha⟩

theorem mono {Q' : α → Cluster → Prop} {x : Call α} (hx : Yields since c x Q)
    (himp : ∀ {a c'}, Leads since c c' → Q a c' → Q' a c') : Yields since c x Q' :=
  ⟨hx.leads, fun ha => himp hx.leads (hx.result ha)⟩

end Yields

theorem yields_check (h : c.Regular since) (result : Except CacheError Unit) :
    Yields since c (check result) fun _ _ => True := ⟨h.leads_refl, fun _ => trivial⟩

theorem yields_forM (result : α → Except CacheError Unit) : ∀ (as : List α) {c : Cluster},
    c.Regular since → Yields since c (as.forM fun a => check (result a)) fun _ _ => True
  | [], _, h => yields_pure h trivial
  | a :: as, _, h => (yields_check h (result a)).bind fun hled _ => yields_forM result as hled.regular

end Call

/-- The latch and the multiplexer have been made since. -/
structure Wiring.After (w : Wiring) (latch : Nat) (since : Outline) : Prop where
  latch : since.latches ≤ latch
  multiplexer : ∀ m, w = .gathered m → since.multiplexers ≤ m

theorem Callback.beyond_of_latch? {callback : Callback} {since o : Outline} {latch : Nat}
    (h : callback.latch? o = some latch) (hsince : since.latches ≤ latch) :
    callback.Beyond since o := by
  cases callback with
  | completion id =>
    cases h
    exact hsince
  | shard keys answer l =>
    cases h
    exact hsince
  | _ => cases h

theorem Wiring.Joins.beyond {w : Wiring} {callback : Callback} {since o : Outline} {latch : Nat}
    (h : w.Joins o latch callback) (hsince : w.After latch since) : callback.Beyond since o := by
  cases w with
  | direct => exact Callback.beyond_of_latch? h hsince.latch
  | gathered m =>
    obtain ⟨aggregate, rfl, hlatch⟩ := h
    exact ⟨hsince.multiplexer m rfl, Callback.beyond_of_latch? hlatch hsince.latch⟩

namespace Call

variable {α : Type} {since : Outline} {c : Cluster} {w : Wiring} {latch n : Nat} {ops : List Nat}
  {Q : α → Cluster → Prop}

theorem yields_latch (h : c.Regular since) (n : Nat) : Yields since c (Call.latch n) fun latch c' =>
    c'.Issued .direct latch n [] ∧ Wiring.direct.After latch since := by
  have hextends := c.engine.reports.extends_addLatch n
  refine ⟨h.leads_engine (Engine.moves_extend h.proper hextends rfl), fun ha => ?_⟩
  cases ha
  exact ⟨⟨Engine.awaits_addLatch h.proper n, fun id hid => by cases hid⟩, h.since.latches,
    fun m hm => by cases hm⟩

theorem latch?_addCompletion (r : Reports) (latch : Nat) :
    (Callback.completion r.completions.length).latch? (r.addCompletion latch).1.outline =
      some latch := by
  simp [Callback.latch?, Outline.latchOf, Reports.outline, Reports.addCompletion]

theorem yields_completion (h : c.Regular since) (hissued : c.Issued w latch n ops) :
    Yields since c (Call.completion latch) fun completion c' => c'.Issued w latch n ops ∧
      (Callback.completion completion).Known c'.engine.reports.outline ∧
      (Callback.completion completion).latch? c'.engine.reports.outline = some latch ∧
      c.engine.reports.outline.completions.length ≤ completion := by
  have hextends := c.engine.reports.extends_addCompletion latch
  have hlatches : ∀ l ∈ (c.engine.reports.addCompletion latch).1.outline.completions,
      l < (c.engine.reports.addCompletion latch).1.outline.latches := fun l hl => by
    rw [Reports.outline, Reports.addCompletion, List.map_append] at hl
    rcases List.mem_append.1 hl with hl | hl
    · exact h.proper.latches l hl
    · rw [List.mem_singleton.1 hl]
      exact hissued.awaits.within.latch
  refine ⟨h.leads_engine (Engine.Move.extend hextends hlatches).moves, fun ha => ?_⟩
  cases ha
  refine ⟨hissued.extend h hextends hlatches, ?_, latch?_addCompletion c.engine.reports latch,
    Nat.le_of_eq (List.length_map _)⟩
  change c.engine.reports.completions.length < _
  simp [Call.completion, Call.change, Cluster.mapReports, Reports.outline, Reports.addCompletion]

theorem yields_multiplexer (h : c.Regular since) (hissued : c.Issued .direct latch 1 []) (hn : 0 < n)
    (hsince : Wiring.direct.After latch since) :
    Yields since c (Call.multiplexer n) fun m c' =>
      c'.Issued (.gathered m) latch n [] ∧ (Wiring.gathered m).After latch since := by
  have hextends := c.engine.reports.extends_addMultiplexer n
  refine ⟨h.leads_engine (Engine.moves_extend h.proper hextends rfl), fun ha => ?_⟩
  cases ha
  refine ⟨⟨hissued.awaits.gather h.proper hn, fun id hid => by cases hid⟩, hsince.latch, fun m hm => ?_⟩
  cases hm
  exact h.since.multiplexers

/-- Makes an answer that shards share. -/
def answer (a : SortedGet.Answer StoredValue) : Call Nat :=
  change fun c => (c.mapReports fun r => (r.addAnswer a).1, c.engine.reports.answers.length)

theorem yields_answer (h : c.Regular since) (hissued : c.Issued w latch n ops)
    (a : SortedGet.Answer StoredValue) : Yields since c (Call.answer a) fun id c' =>
      c'.Issued w latch n ops ∧ id < c'.engine.reports.answers.length := by
  have hextends := c.engine.reports.extends_addAnswer a
  refine ⟨h.leads_engine (Engine.moves_extend h.proper hextends rfl), fun ha => ?_⟩
  cases ha
  refine ⟨hissued.extend h hextends h.proper.latches, ?_⟩
  simp [Call.answer, Call.change, Cluster.mapReports, Reports.addAnswer]

theorem submit_eq_submitAfter (operation node : Nat) :
    submit operation node = submitAfter [] operation node := by
  funext c
  unfold submit submitAfter
  rcases c.submit operation node with ⟨c', error | _⟩ <;> rfl

theorem yields_submitAfter {operation node : Nat} (h : Leads since c (c.submit operation node).1)
    (queued : List Nat) : Yields since c (submitAfter queued operation node) fun _ c' =>
      c' = (c.submit operation node).1 := by
  unfold submitAfter
  constructor <;> rcases hsubmit : c.submit operation node with ⟨c', error | _⟩ <;> rw [hsubmit] at h
  · refine h.trans (h.regular.leads_engine
      (e := (c'.engine.cancelAll queued "fan-out aborted").1) ?_)
    rw [Engine.cancelAll_fst]
    exact Engine.moves_each (fun id he => Engine.moves_cancel he id _) queued h.regular.proper
  · exact h
  · exact fun hok => by cases hok
  · exact fun _ => rfl

/-- One more operation is joined to the latch and handed to a node; if it cannot be, those before it are
given up. -/
theorem yields_hand (h : c.Regular since) (hissued : c.Issued w latch n ops)
    (hsince : w.After latch since) {command : Command} {callback : Callback}
    (hknown : callback.Known c.engine.reports.outline)
    (hjoins : w.Joins c.engine.reports.outline latch callback) {node : Nat}
    (hnode : (c.queue? node).isSome) (queued : List Nat) {rest : Nat → Call α}
    (hrest : ∀ {op c'}, Leads since c c' → c'.Issued w latch n (ops ++ [op]) →
      c'.engine.Carries op command callback → Yields since c' (rest op) Q) :
    Yields since c (Call.operation command callback >>= fun op =>
      Call.submitAfter queued op node >>= fun _ => rest op) Q := by
  obtain ⟨hmade, hsubmit, hissued'⟩ :=
    hissued.submit h command hknown (hjoins.beyond hsince) hjoins hnode
  have hoperation : Yields since c (Call.operation command callback) fun op c' =>
      op = c.engine.size ∧ c' = { c with engine := (c.engine.create command callback).1 } :=
    ⟨hmade, fun ha => by cases ha; exact ⟨rfl, rfl⟩⟩
  refine hoperation.bind fun {op c'} _ hmade' => ?_
  obtain ⟨rfl, rfl⟩ := hmade'
  refine (yields_submitAfter hsubmit queued).bind fun {_ c''} hled heq => ?_
  subst heq
  exact hrest (hmade.trans hled) hissued'
    ((Engine.carries_create c.engine command callback).goes hsubmit.goes)

/-- The same with a completion of its own. -/
theorem yields_join (h : c.Regular since) (hissued : c.Issued .direct latch n ops)
    (hsince : Wiring.direct.After latch since) {command : Command} {node : Nat}
    (hnode : (c.queue? node).isSome) (queued : List Nat) {rest : Nat → Nat → Call α}
    (hrest : ∀ {completion op c'}, Leads since c c' → c'.Issued .direct latch n (ops ++ [op]) →
      (Callback.completion completion).Known c'.engine.reports.outline →
      (Callback.completion completion).latch? c'.engine.reports.outline = some latch →
      c'.engine.Carries op command (.completion completion) →
      c.engine.reports.outline.completions.length ≤ completion →
      Yields since c' (rest completion op) Q) :
    Yields since c (Call.completion latch >>= fun completion =>
      Call.operation command (.completion completion) >>= fun op =>
        Call.submitAfter queued op node >>= fun _ => rest completion op) Q := by
  refine (yields_completion h hissued).bind fun {completion c'} hled
    ⟨hissued', hknown, hlatch, hnew⟩ => ?_
  refine yields_hand hled.regular hissued' hsince hknown hlatch (hled.there hnode) queued
    fun {op c''} hled' hissued'' hcarries => ?_
  have hgrows := hled'.moves.grows
  exact hrest (hled.trans hled') hissued'' (hknown.grows hgrows)
    ((hknown.latch?_eq hgrows).trans hlatch) hcarries hnew

end Call

end ShardedCache

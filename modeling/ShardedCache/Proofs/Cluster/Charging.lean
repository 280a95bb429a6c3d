import ShardedCache.Proofs.Client.Agreement
import ShardedCache.Proofs.Cluster.Facets
import ShardedCache.Proofs.Node.Health

/-!
# Charging waits

A wait that expires is charged to each node that one of its unfinished operations was handed to, and a
wait that ends in time clears each node that one of its operations was handed to, once however many
operations the node has in it and whatever else is in the list. Together with the resets of new connections
these are the marks of a node (`Cluster.marks`), and its health is what they tell
(`Cluster.health_agrees_with_history`).
-/

namespace ShardedCache

open Client (nodup_eraseDups)
open Health (Mark)

namespace Cluster

variable {c : Cluster} {node : Nat}

def health? (c : Cluster) (node : Nat) : Option Health := c.facet? (·.health) node

/-! ## Each node once -/

theorem health?_modifyNode (c : Cluster) (node nd : Nat) (f : Health → Health) :
    (c.modifyNode nd fun n => { n with health := f n.health }).health? node =
      (c.health? node).map fun h => if nd = node then f h else h := by
  rw [health?, facet?_modifyNode, health?, facet?, Option.map_map]
  rfl

/-- A change made to each node of a list without repetitions is made once to those in it. -/
theorem health?_foldl {change : Cluster → Nat → Cluster} {f : Health → Health}
    (hchange : ∀ c nd, (change c nd).health? node =
      (c.health? node).map fun h => if nd = node then f h else h) :
    ∀ (nodes : List Nat) (c : Cluster), nodes.Nodup →
      (nodes.foldl change c).health? node =
        (c.health? node).map fun h => if node ∈ nodes then f h else h
  | [], c, _ => by
    rw [List.foldl_nil]
    simp
  | nd :: nodes, c, hnodup => by
    obtain ⟨hfresh, hnodup⟩ := List.nodup_cons.1 hnodup
    rw [List.foldl_cons, health?_foldl hchange nodes _ hnodup, hchange, Option.map_map]
    congr 1
    funext h
    by_cases hnd : nd = node
    · subst hnd
      simp [hfresh]
    · have hmem : node ∈ nd :: nodes ↔ node ∈ nodes := by simp [Ne.symm hnd]
      simp only [Function.comp_apply, if_neg hnd, hmem]

/-- The nodes of some operations are each changed once. -/
theorem health?_nodesOf {change : Cluster → Nat → Cluster} {f : Health → Health}
    (hchange : ∀ c nd, (change c nd).health? node =
      (c.health? node).map fun h => if nd = node then f h else h)
    (e : Engine) (operations : List Nat) (c : Cluster) :
    ((nodesOf e operations).foldl change c).health? node = (c.health? node).map fun h =>
      if ∃ id ∈ operations, e.home? id = some node then f h else h := by
  refine (health?_foldl hchange _ c (nodup_eraseDups _)).trans ?_
  congr 1
  funext h
  exact if_congr mem_nodesOf rfl rfl

/-- An expired wait is charged once to each node of an operation that has not ended. -/
theorem health?_chargeTimeout (c : Cluster) (operations : List Nat) (node : Nat) :
    (c.chargeTimeout operations).health? node = (c.health? node).map fun h =>
      if ∃ id ∈ operations, c.engine.isTerminal id = false ∧ c.engine.home? id = some node then
        h.recordTimeout
      else h := by
  rw [chargeTimeout]
  refine (health?_nodesOf (f := Health.recordTimeout) (fun c nd => ?_) _ _ _).trans ?_
  · exact health?_modifyNode c node nd Health.recordTimeout
  congr 1
  funext h
  refine if_congr ?_ rfl rfl
  simp only [List.mem_filter, Bool.not_eq_eq_eq_not, Bool.not_true, and_assoc]

/-- A wait that has ended in time clears each node of an operation once. -/
theorem health?_chargeSuccess (c : Cluster) (operations : List Nat) (node : Nat) :
    (c.chargeSuccess operations).health? node = (c.health? node).map fun h =>
      if ∃ id ∈ operations, c.engine.home? id = some node then h.recordSuccess else h :=
  health?_nodesOf (f := Health.recordSuccess)
    (fun c nd => health?_modifyNode c node nd Health.recordSuccess) _ _ c

/-- A connection resets the health of its node when it is opened, and does nothing else to any. -/
theorem health?_step (c : Cluster) (nd : Nat) (state : Connection) (event : LinkEvent) (node : Nat) :
    (Connection.step c nd state event).1.health? node = (c.health? node).map fun h =>
      if state.opens event ∧ nd = node then h.reset else h := by
  rw [health?, Connection.facet?_step fun _ _ _ => rfl, health?, facet?, Option.map_map]
  cases state.opens event with
  | true => simp only [true_and, if_true]; rfl
  | false => simp only [Bool.false_eq_true, false_and, if_false]; rfl

/-! ## Histories -/

/-- What may happen: a wait for some operations expires or ends in time, something happens to the
connection of a node, or whatever else to the operations and their nodes. -/
inductive Incident where
  | expired (operations : List Nat)
  | satisfied (operations : List Nat)
  | link (node : Nat) (state : Connection) (event : LinkEvent)
  | meanwhile (engine : Engine)

def undergo (c : Cluster) : Incident → Cluster
  | .expired operations => c.chargeTimeout operations
  | .satisfied operations => c.chargeSuccess operations
  | .link node state event => (Connection.step c node state event).1
  | .meanwhile engine => { c with engine }

/-- The marks that a node is to be given for it. -/
def marks (c : Cluster) (node : Nat) : Incident → List Mark
  | .expired operations =>
    if ∃ id ∈ operations, c.engine.isTerminal id = false ∧ c.engine.home? id = some node then
      [.timeout]
    else []
  | .satisfied operations =>
    if ∃ id ∈ operations, c.engine.home? id = some node then [.success] else []
  | .link nd state event => if state.opens event ∧ nd = node then [.reset] else []
  | .meanwhile _ => []

def undergoAll (c : Cluster) (incidents : List Incident) : Cluster := incidents.foldl undergo c

/-- The marks that a node is to be given for all of them, oldest first. -/
def history (node : Nat) : List Incident → Cluster → List Mark
  | [], _ => []
  | i :: later, c => c.marks node i ++ history node later (c.undergo i)

theorem health?_undergo (c : Cluster) (node : Nat) (i : Incident) :
    (c.undergo i).health? node = (c.health? node).map (·.after (c.marks node i)) := by
  cases i with
  | expired operations =>
    rw [undergo, health?_chargeTimeout]
    congr 1
    funext h
    rw [marks]
    split <;> rfl
  | satisfied operations =>
    rw [undergo, health?_chargeSuccess]
    congr 1
    funext h
    rw [marks]
    split <;> rfl
  | link nd state event =>
    rw [undergo, health?_step]
    congr 1
    funext h
    rw [marks]
    split <;> rfl
  | meanwhile engine => exact Option.map_id'.symm

theorem health?_undergoAll (node : Nat) : ∀ (incidents : List Incident) (c : Cluster),
    (c.undergoAll incidents).health? node = (c.health? node).map (·.after (c.history node incidents))
  | [], c => Option.map_id'.symm
  | i :: later, c => by
    change ((c.undergo i).undergoAll later).health? node = _
    rw [health?_undergoAll node later, health?_undergo, Option.map_map]
    congr 1
    funext h
    exact (List.foldl_append ..).symm

/-- **The health of a node is its history.** An expired wait is charged exactly once to every node that
has an unfinished operation in the list, a satisfied one clears exactly once every node that has an
operation in the list, and neither changes the health of another node. So after whatever has happened, the
health of a node agrees with the marks that it was given. -/
theorem health_agrees_with_history {size : Option Nat} (h : c.health? node = some (.fresh size))
    (incidents : List Incident) :
    (∀ (c : Cluster) (operations : List Nat) (node : Nat),
      (c.chargeTimeout operations).health? node = (c.health? node).map fun h =>
        if ∃ id ∈ operations, c.engine.isTerminal id = false ∧ c.engine.home? id = some node then
          h.recordTimeout
        else h) ∧
    (∀ (c : Cluster) (operations : List Nat) (node : Nat),
      (c.chargeSuccess operations).health? node = (c.health? node).map fun h =>
        if ∃ id ∈ operations, c.engine.home? id = some node then h.recordSuccess else h) ∧
    ∃ health, (c.undergoAll incidents).health? node = some health ∧
      health.Agrees size (c.history node incidents) := by
  refine ⟨health?_chargeTimeout, health?_chargeSuccess, _, ?_,
    (Health.tells_after size (c.history node incidents)).agrees⟩
  rw [health?_undergoAll, h]
  rfl

/-! ### Three waits for two nodes -/

/-- Two nodes with windows over the last two outcomes. -/
def untried : Cluster where
  nodes := ["a", "b"].map fun name => { Node.ofConfig name {} 0 with health := .fresh (some 2) }

def handed (phase : Phase) (node : Option Nat) : Operation :=
  { tag := 0, work := .single .noop, idempotent := true, callback := .silent, phase, node }

/-- The first node has two operations and the second one that has ended; the last has no node. -/
def handedOut : Engine where
  operations :=
    [handed .reading (some 0), handed .queued (some 0), handed .complete (some 1), handed .queued none]

def waits : List Incident :=
  [.meanwhile handedOut, .expired [0, 1, 2, 3], .expired [1], .satisfied [3, 0, 1]]

theorem history_waits : untried.health? 0 = some (.fresh (some 2)) ∧
    untried.history 0 waits = [.timeout, .timeout, .success] ∧ untried.history 1 waits = [] := by
  decide +kernel

/-- The first node was charged once for each expired wait, and then cleared. -/
theorem health_after_waits : untried.health? 0 = some (.fresh (some 2)) ∧
    ∃ health, (untried.undergoAll waits).health? 0 = some health ∧
      health.Agrees (some 2) [.timeout, .timeout, .success] := by
  obtain ⟨hfresh, hhistory, -⟩ := history_waits
  obtain ⟨-, -, health, hhealth, hagrees⟩ := health_agrees_with_history hfresh waits
  rw [hhistory] at hagrees
  exact ⟨hfresh, health, hhealth, hagrees⟩

end Cluster

end ShardedCache

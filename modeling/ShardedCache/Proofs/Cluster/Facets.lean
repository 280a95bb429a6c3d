import ShardedCache.Node.Connection

/-!
# What a connection leaves alone

A connection changes the queues of its node and whether the node has let the client in. Of a part of a
node that depends on neither (`Node.Lasting`), only one thing is left that may change: when a connection is
opened, the health of its node is reset (`Connection.facet?_step`).
-/

namespace ShardedCache

variable {α : Type}

/-- The part of a node depends on nothing that its connection works on. -/
def Node.Lasting (part : Node → α) : Prop :=
  ∀ (n : Node) (queue : Queue) (authenticated : Bool), part { n with queue, authenticated } = part n

namespace Cluster

variable {c : Cluster} {node nd : Nat} {part : Node → α}

/-- A part of a node. -/
def facet? (c : Cluster) (part : Node → α) (node : Nat) : Option α := (c.node? node).map part

theorem facet?_modifyNode (part : Node → α) (c : Cluster) (nd : Nat) (f : Node → Node) :
    (c.modifyNode nd f).facet? part node =
      (c.node? node).map fun n => if nd = node then part (f n) else part n := by
  rw [facet?, node?, modifyNode, List.getElem?_modify, node?]
  cases c.nodes[node]? with
  | none => rfl
  | some n => by_cases h : nd = node <;> simp [h]

theorem facet?_modifyNode_of_eq (c : Cluster) (nd : Nat) {f : Node → Node}
    (hf : ∀ n, part (f n) = part n) : (c.modifyNode nd f).facet? part node = c.facet? part node := by
  rw [facet?_modifyNode, facet?]
  congr 1
  funext n
  rw [hf, ite_self]

theorem facet?_withQueue {β : Type} (hpart : Node.Lasting part) (c : Cluster) (nd : Nat) (default : β)
    (f : Queue → Engine → Queue × Engine × β) :
    (c.withQueue nd default f).1.facet? part node = c.facet? part node := by
  unfold withQueue
  split
  · next n hn =>
    obtain ⟨hlt, -⟩ := List.getElem?_eq_some_iff.1 hn
    rw [facet?, facet?, node?, node?]
    by_cases h : nd = node
    · subst h
      rw [List.getElem?_set_self hlt, show c.nodes[nd]? = some n from hn]
      exact congrArg some (hpart n _ n.authenticated)
    · rw [List.getElem?_set_ne h]
  · rfl

end Cluster

namespace Connection

open Cluster (facet?_withQueue facet?_modifyNode_of_eq)

/-- Whether the event opens a connection. -/
def opens : Connection → LinkEvent → Bool
  | down _, .connected => true
  | _, _ => false

/-- The cluster when a connection has been opened, before it logs in. -/
def opening (c : Cluster) (node attempt : Nat) : Cluster :=
  ((countRetry c node attempt).modifyNode node
    fun n => { n with health := n.health.reset }).mapMetrics (·.recordConnected)

variable {c c' : Cluster} {node nd : Nat} {auth auth' : Option Nat} {part : Node → α}

theorem nodes_countRetry (c : Cluster) (node attempt : Nat) :
    (countRetry c node attempt).nodes = c.nodes := by
  unfold countRetry
  split <;> rfl

theorem facet?_countRetry (part : Node → α) (c : Cluster) (node attempt : Nat) :
    (countRetry c node attempt).facet? part nd = c.facet? part nd := by
  rw [Cluster.facet?, Cluster.node?, nodes_countRetry]
  rfl

theorem facet?_opening (part : Node → α) (c : Cluster) (node attempt : Nat) :
    (opening c node attempt).facet? part nd = (c.node? nd).map fun n =>
      if node = nd then part { n with health := n.health.reset } else part n := by
  change ((countRetry c node attempt).modifyNode node _).facet? part nd = _
  rw [Cluster.facet?_modifyNode, Cluster.node?, nodes_countRetry]
  rfl

section Lasting

variable (hpart : Node.Lasting part)

include hpart

theorem facet?_close (c : Cluster) (node : Nat) :
    (close c node).facet? part nd = c.facet? part nd := by
  refine facet?_modifyNode_of_eq _ node fun n => ?_
  split
  · exact hpart n n.queue false
  · rfl

theorem facet?_authenticate (c : Cluster) (node : Nat) :
    (authenticate c node).1.facet? part nd = c.facet? part nd := by
  unfold authenticate
  split
  · rfl
  · exact facet?_withQueue hpart _ node () _

theorem facet?_refill (c : Cluster) (node : Nat) (auth : Option Nat) :
    (refill c node auth).facet? part nd = c.facet? part nd := by
  unfold refill
  dsimp only
  split
  · exact (facet?_withQueue hpart _ node () _).trans (facet?_withQueue hpart c node 0 _)
  · exact facet?_withQueue hpart c node () _

theorem facet?_drop (c : Cluster) (node : Nat) :
    (drop c node).1.facet? part nd = c.facet? part nd :=
  (facet?_withQueue hpart _ node () _).trans (facet?_close hpart c node)

theorem facet?_judge (h : judge c node auth = some (c', auth')) :
    c'.facet? part nd = c.facet? part nd := by
  unfold judge at h
  split at h
  · cases h
    rfl
  · split at h
    · cases h
      rfl
    · split at h
      · cases h
        exact facet?_modifyNode_of_eq c node fun n => hpart n n.queue true
      · cases h

theorem facet?_process (c : Cluster) (node : Nat) (bytes : Bytes) :
    ((c.appendRead node bytes).process node).1.facet? part nd = c.facet? part nd :=
  (facet?_withQueue hpart _ node none _).trans (facet?_withQueue hpart c node () _)

/-- **All that a connection does to other parts of its node is to reset the health when it is opened.** -/
theorem facet?_step (c : Cluster) (node : Nat) (state : Connection) (event : LinkEvent) :
    (step c node state event).1.facet? part nd =
      if state.opens event then
        (c.node? nd).map fun n =>
          if node = nd then part { n with health := n.health.reset } else part n
      else c.facet? part nd := by
  unfold step
  split
  · next attempt =>
    exact (facet?_refill hpart _ node _).trans
      ((facet?_authenticate hpart _ node).trans (facet?_opening part c node attempt))
  · exact facet?_countRetry part c node _
  · exact facet?_refill hpart c node _
  · exact (facet?_refill hpart _ node _).trans (facet?_withQueue hpart c node [] _)
  · next auth bytes =>
    have hprocessed : ((c.appendRead node bytes).process node).1.facet? part nd = c.facet? part nd :=
      facet?_process hpart c node bytes
    split
    · next c' _ heq =>
      rw [heq] at hprocessed
      exact (facet?_drop hpart c' node).trans hprocessed
    · next c' heq =>
      rw [heq] at hprocessed
      split
      · next c'' _ hjudge =>
        exact (facet?_refill hpart c'' node _).trans ((facet?_judge hpart hjudge).trans hprocessed)
      · exact (facet?_drop hpart c' node).trans hprocessed
  · exact facet?_drop hpart c node
  · exact (facet?_withQueue hpart _ node () _).trans (facet?_close hpart c node)
  · exact facet?_withQueue hpart c node () _
  · next hopening _ _ _ _ _ _ _ =>
    have hopens : state.opens event = false := by
      unfold opens
      split
      · exact (hopening _ rfl rfl).elim
      · rfl
    rw [hopens]
    rfl

end Lasting

end Connection

end ShardedCache

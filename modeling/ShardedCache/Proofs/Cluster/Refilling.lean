import ShardedCache.Proofs.Cluster.Events
import ShardedCache.Proofs.Node.Copying

/-!
# What a connection copies into its write buffer

Whatever happens to a connection, the write buffer is refilled at the end or not at all
(`Connection.step_of_ready`, `Connection.writeBuffer_step_of_idle`). So all that is copied in a step is
what this one packing copies (`Connection.copies`, `Connection.writeBuffer_step`). Nothing that has
lapsed outside of all batches is ever among it (`Connection.copies_spare`).
-/

namespace ShardedCache

open Engine (Moves)
open Cluster (Leads)

namespace Cluster

/-- What packing copies into the write buffer of a node. -/
def copies (c : Cluster) (node : Nat) : List Piece :=
  ((c.queue? node).map fun q => q.copies c.engine).getD []

variable {c : Cluster} {node : Nat}

/-- A step of the queues of one node leaves those of the others alone. -/
theorem queue?_withQueue {α : Type} (c : Cluster) (node : Nat) (default : α)
    (f : Queue → Engine → Queue × Engine × α) (nd : Nat) :
    (c.withQueue node default f).1.queue? nd =
      if nd = node then (c.queue? node).map fun q => (f q c.engine).1 else c.queue? nd := by
  cases hn : c.node? node with
  | none =>
    have hsame : (c.withQueue node default f).1 = c := by rw [withQueue, hn]
    have hnone : c.queue? node = none := by rw [queue?, hn]; rfl
    rw [hsame, hnone]
    split
    · next heq => rw [heq, hnone]; rfl
    · rfl
  | some n =>
    have hq : c.queue? node = some n.queue := by rw [queue?, hn]; rfl
    rw [hq, withQueue, hn]
    exact queue?_set hn _ _ nd

theorem engine_withQueue {α : Type} {q : Queue} (hq : c.queue? node = some q) (default : α)
    (f : Queue → Engine → Queue × Engine × α) :
    (c.withQueue node default f).1.engine = (f q c.engine).2.1 := by
  obtain ⟨n, hn, rfl⟩ := Option.map_eq_some_iff.1 hq
  rw [withQueue, hn]

/-- The write buffer of a node. -/
def writeBuffer (c : Cluster) (node : Nat) : Bytes := ((c.queue? node).map (·.writeBuffer)).getD []

theorem copies_of_queue? {q : Queue} (hq : c.queue? node = some q) :
    c.copies node = q.copies c.engine := by
  rw [copies, hq]
  rfl

theorem exists_queue_of_mem_copies {p : Piece} (hp : p ∈ c.copies node) :
    ∃ q, c.queue? node = some q ∧ p ∈ q.copies c.engine := by
  cases hq : c.queue? node with
  | none =>
    rw [copies, hq] at hp
    cases hp
  | some q => exact ⟨q, rfl, copies_of_queue? hq ▸ hp⟩

end Cluster

namespace Connection

/-- The cluster that an event leaves before the write buffer is refilled, and the authentication that
has not been answered by then. Nothing if the buffer is not refilled. -/
def ready? (c : Cluster) (node : Nat) : Connection → LinkEvent → Option (Cluster × Option Nat)
  | down attempt, .connected =>
    let c := (countRetry c node attempt).modifyNode node fun n => { n with health := n.health.reset }
    some (authenticate (c.mapMetrics (·.recordConnected)) node)
  | up auth, .woken => some (c, auth)
  | up auth, .sent n => some ((c.takeWritten node n).1, auth)
  | up auth, .received bytes =>
    match (c.appendRead node bytes).process node with
    | (_, some _) => none
    | (c, none) => judge c node auth
  | _, _ => none

/-- Takes submissions in, unless they are held back. -/
def takeIn (c : Cluster) (node : Nat) (auth : Option Nat) : Cluster :=
  if auth.isNone then (c.copyInput node).1 else c

/-- What is copied into the write buffer when something happens to the connection. -/
def copies (c : Cluster) (node : Nat) (state : Connection) (event : LinkEvent) : List Piece :=
  match ready? c node state event with
  | some (c, auth) => (takeIn c node auth).copies node
  | none => []

variable {c c' : Cluster} {node : Nat} {state : Connection} {event : LinkEvent} {auth : Option Nat}

/-- The last thing that is done is to refill the write buffer. -/
theorem step_of_ready (h : ready? c node state event = some (c', auth)) :
    step c node state event = ((takeIn c' node auth).pack node, up auth) := by
  unfold ready? at h
  split at h
  · rw [step]
    dsimp only
    rw [Option.some.inj h]
    rfl
  · cases h
    rfl
  · cases h
    rfl
  · next bytes =>
    cases hprocess : (c.appendRead node bytes).process node with
    | mk c₁ fault =>
      rw [hprocess] at h
      cases fault with
      | some fault => cases h
      | none =>
        dsimp only at h
        simp only [step, hprocess, h]
        rfl
  · cases h

/-- What has been read ends the connection if the write buffer is not refilled afterwards. -/
theorem step_of_refused {bytes : Bytes} (h : ready? c node (up auth) (.received bytes) = none) :
    ∃ c₁, step c node (up auth) (.received bytes) = drop c₁ node := by
  cases hprocess : (c.appendRead node bytes).process node with
  | mk c₁ fault =>
    refine ⟨c₁, ?_⟩
    cases fault with
    | some fault => simp only [step, hprocess]
    | none =>
      simp only [ready?, hprocess] at h
      simp only [step, hprocess, h]

theorem queue?_countRetry (c : Cluster) (node attempt nd : Nat) :
    (countRetry c node attempt).queue? nd = c.queue? nd := by
  unfold countRetry
  split <;> rfl

/-- All that a step adds to the write buffer is copied in the end. -/
theorem writeBuffer_step (h : ready? c node state event = some (c', auth)) :
    (step c node state event).1.writeBuffer node =
      (takeIn c' node auth).writeBuffer node ++ (copies c node state event).flatMap (·.bytes) := by
  rw [step_of_ready h, copies, h]
  dsimp only
  rw [Cluster.writeBuffer, Cluster.pack, Cluster.queue?_withQueue, if_pos rfl, Cluster.writeBuffer,
    Cluster.copies]
  cases (takeIn c' node auth).queue? node with
  | none => rfl
  | some q => exact q.writeBuffer_pack _

/-- Dropping the connection empties the write buffer. -/
theorem writeBuffer_drop (c : Cluster) (node : Nat) : (drop c node).1.writeBuffer node = [] := by
  rw [drop, Cluster.resend, Cluster.writeBuffer, Cluster.queue?_withQueue, if_pos rfl]
  cases (close c node).queue? node <;> rfl

theorem writeBuffer_destroy (c : Cluster) (node : Nat) (cause : String) :
    (c.destroy node cause).writeBuffer node = [] := by
  rw [Cluster.destroy, Cluster.writeBuffer, Cluster.queue?_withQueue, if_pos rfl]
  cases c.queue? node <;> rfl

/-- A step that does not refill the write buffer leaves it alone or empties it. -/
theorem writeBuffer_step_of_idle (h : ready? c node state event = none) :
    (step c node state event).1.writeBuffer node = c.writeBuffer node ∨
      (step c node state event).1.writeBuffer node = [] := by
  cases state with
  | down attempt =>
    cases event with
    | connected => cases h
    | connectFailed =>
      refine .inl ?_
      rw [step, Cluster.writeBuffer, queue?_countRetry]
      rfl
    | shutDown => exact .inr (writeBuffer_destroy c node _)
    | _ => exact .inl rfl
  | up auth =>
    cases event with
    | received bytes =>
      obtain ⟨c₁, hdropped⟩ := step_of_refused h
      rw [hdropped]
      exact .inr (writeBuffer_drop c₁ node)
    | woken => cases h
    | sent n => cases h
    | lost => exact .inr (writeBuffer_drop c node)
    | shutDown => exact .inr (writeBuffer_destroy _ node _)
    | _ => exact .inl rfl
  | stopped => cases event <;> exact .inl rfl

section Regular

variable {since : Outline} (hc : c.Regular since)

include hc

theorem leads_ready (h : ready? c node state event = some (c', auth)) : Leads since c c' := by
  unfold ready? at h
  split at h
  · next attempt =>
    have hretried := Cluster.leads_countRetry hc node attempt
    have hreset := hretried.trans (hretried.regular.leads_modifyNode node
      (f := fun n => { n with health := n.health.reset }) fun _ => rfl)
    have hcounted := hreset.trans (hreset.regular.leads_mapMetrics (·.recordConnected))
    have hauth := hcounted.trans (Cluster.leads_authenticate hcounted.regular node)
    rw [Option.some.inj h] at hauth
    exact hauth
  · cases h
    exact hc.leads_refl
  · cases h
    exact Cluster.leads_takeWritten hc node _
  · next bytes =>
    have hread := Cluster.leads_appendRead hc node bytes
    have hprocessed := hread.trans (Cluster.leads_process hread.regular node)
    split at h
    · cases h
    · next heq =>
      rw [heq] at hprocessed
      exact hprocessed.trans (Cluster.leads_judge hprocessed.regular node h)
  · cases h

theorem leads_takeIn (node : Nat) (auth : Option Nat) : Leads since c (takeIn c node auth) := by
  unfold takeIn
  split
  · exact Cluster.leads_copyInput hc node
  · exact hc.leads_refl

/-- **What has lapsed outside of all batches is never copied,** neither alone nor as a member of a
batch. -/
theorem copies_spare (node : Nat) (state : Connection) (event : LinkEvent) {x : Nat}
    (hx : c.engine.Shelved x) : ∀ p ∈ copies c node state event,
      x ∉ p.owner :: (step c node state event).1.engine.members p.owner := by
  intro p hp
  have hlater := (Cluster.leads_step hc node state event).shelved hx
  rw [List.mem_cons, not_or]
  refine ⟨?_, hlater.apart p.owner⟩
  unfold copies at hp
  split at hp
  · next c' auth hready =>
    have hled := leads_ready hc hready
    have htaken := leads_takeIn hled.regular node auth
    obtain ⟨q, hq, hp⟩ := Cluster.exists_queue_of_mem_copies hp
    have hshelved := (hled.trans htaken).shelved hx
    have hproper := htaken.regular.proper
    have hkeeps : ∀ {q q' : Queue} {e e' : Engine}, Queue.Packing q e q' e' →
        e.Proper ∧ e.lapsed x = true → e'.Proper ∧ e'.lapsed x = true :=
      fun hstep ⟨hproper, hlapsed⟩ =>
        have hmoves := Queue.moves_packing hproper (Nat.le_refl _) hstep
        ⟨hproper.moves hmoves, hmoves.lapsed hlapsed⟩
    obtain ⟨q', e', ⟨-, hlapsed⟩, hwritten, -⟩ :=
      Queue.copiedOut_of_mem_copies hkeeps hproper.orderly.sound ⟨hproper, hshelved.lapsed⟩ p hp
    rintro rfl
    rw [hwritten.due.lapsed] at hlapsed
    cases hlapsed
  · cases hp

end Regular

end Connection

end ShardedCache

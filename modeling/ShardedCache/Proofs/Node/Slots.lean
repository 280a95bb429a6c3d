import ShardedCache.Proofs.Engine.Same
import ShardedCache.Proofs.Node.Server
import ShardedCache.Proofs.Node.Steps

/-!
# Slots

On the wire an operation is one request, and a batch is one for each member and one of its own that
is always answered. A `Slot` is such a request with the operation that it is for. Which slots an
operation has depends on natures only, so it stays as it is for all of the operation's life.
-/

namespace ShardedCache

open Wire (Frame)

/-- The command of an operation that is no batch. -/
def Work.command? : Work → Option Command
  | .single c => some c
  | .batch _ => none

/-- A request on the wire. The last request of a batch is for no operation in particular. -/
structure Slot where
  owner : Option Nat
  frame : Frame
  deriving DecidableEq

/-- The operations that slots are for. -/
def owners (slots : List Slot) : List Nat := slots.filterMap (·.owner)

@[simp] theorem owners_nil : owners [] = [] := rfl

@[simp] theorem owners_append (slots slots' : List Slot) :
    owners (slots ++ slots') = owners slots ++ owners slots' := List.filterMap_append

theorem mem_owners {slots : List Slot} {id : Nat} :
    id ∈ owners slots ↔ ∃ s ∈ slots, s.owner = some id := List.mem_filterMap

/-- The bytes of slots. -/
def encodeSlots (slots : List Slot) : Bytes := Frame.encodeAll (slots.map (·.frame))

@[simp] theorem encodeSlots_nil : encodeSlots [] = [] := rfl

@[simp] theorem encodeSlots_append (slots slots' : List Slot) :
    encodeSlots (slots ++ slots') = encodeSlots slots ++ encodeSlots slots' := by
  simp [encodeSlots]

theorem encodeSlots_eq_nil {slots : List Slot} : encodeSlots slots = [] ↔ slots = [] := by
  simp [encodeSlots, Frame.encodeAll_eq_nil]

/-- Of two ends of the same slots, the one with as many bytes or more takes in the other. -/
theorem suffix_of_length_encodeSlots {slots front front' back back' : List Slot}
    (h : slots = front ++ back) (h' : slots = front' ++ back')
    (hlen : (encodeSlots back').length ≤ (encodeSlots back).length) :
    ∃ between, back = between ++ back' := by
  have hsuffix : back <:+ slots := ⟨front, h.symm⟩
  have hsuffix' : back' <:+ slots := ⟨front', h'.symm⟩
  rcases List.suffix_or_suffix_of_suffix hsuffix' hsuffix with ⟨between, hb⟩ | ⟨between, hb⟩
  · exact ⟨between, hb.symm⟩
  · rw [← hb, encodeSlots_append, List.length_append] at hlen
    have hnil : between = [] := encodeSlots_eq_nil.1 (List.length_eq_zero_iff.1 (by omega))
    exact ⟨[], by rw [← hb, hnil]; rfl⟩

namespace Engine

def command? (e : Engine) (id : Nat) : Option Command := (e.nature? id).bind (·.work.command?)

theorem Same.command?_eq {e e' : Engine} {id : Nat} (h : e.Same e' id) :
    e'.command? id = e.command? id := by
  rw [command?, h.nature, ← command?]

/-- The request for a member of a batch. -/
def memberSlot (e : Engine) (m : Nat) : Slot where
  owner := some m
  frame := (((e.nature? m).bind fun n => n.work.command?.map (·.quiet n.tag))).getD
    (Command.noop.request 0)

/-- The requests of an operation, in the order in which they are written. -/
def slots (e : Engine) (id : Nat) : List Slot :=
  match e.nature? id with
  | none => []
  | some n =>
    match n.work with
    | .single c => [⟨some id, c.request n.tag⟩]
    | .batch b => b.members.map e.memberSlot ++ [⟨none, Command.noop.request n.tag⟩]

theorem slots_single {e : Engine} {id : Nat} {n : Nature} {c : Command}
    (hn : e.nature? id = some n) (hc : n.work = .single c) :
    e.slots id = [⟨some id, c.request n.tag⟩] := by
  simp [slots, hn, hc]

theorem slots_batch {e : Engine} {id : Nat} {n : Nature} {b : Batch} (hn : e.nature? id = some n)
    (hb : n.work = .batch b) :
    e.slots id = b.members.map e.memberSlot ++ [⟨none, Command.noop.request n.tag⟩] := by
  simp [slots, hn, hb]

theorem owners_members (e : Engine) (members : List Nat) :
    owners (members.map e.memberSlot) = members := by
  induction members with
  | nil => rfl
  | cons m members ih => simpa [owners, memberSlot] using ih

theorem members_of_nature? {e : Engine} {id : Nat} {n : Nature} (hn : e.nature? id = some n) :
    e.members id = n.work.members := by
  rw [members_eq_nature?, hn]
  rfl

/-- An operation is for itself, and a batch is for its members. -/
theorem owners_slots_single {e : Engine} {id : Nat} (h : e.IsSingle id) :
    owners (e.slots id) = [id] := by
  obtain ⟨n, c, hn, hc⟩ := h
  rw [slots_single hn hc]
  rfl

theorem owners_flatMap_slots {e : Engine} {ids : List Nat} (h : ∀ id ∈ ids, e.IsSingle id) :
    owners (ids.flatMap e.slots) = ids := by
  induction ids with
  | nil => rfl
  | cons id ids ih =>
    rw [List.flatMap_cons, owners_append, owners_slots_single (h id List.mem_cons_self),
      ih fun x hx => h x (List.mem_cons_of_mem id hx)]
    rfl

theorem owners_slots_batch {e : Engine} {id : Nat} {n : Nature} {b : Batch}
    (hn : e.nature? id = some n) (hb : n.work = .batch b) : owners (e.slots id) = e.members id := by
  rw [slots_batch hn hb, owners_append, owners_members, members_of_nature? hn, hb]
  exact List.append_nil _

/-- What a slot is: a request for what its owner's command asks for, under the owner's tag, or the
last request of a batch. -/
def Describes (e : Engine) (s : Slot) : Prop :=
  match s.owner with
  | some id => ∃ n c, e.nature? id = some n ∧ n.work = .single c ∧
      (s.frame = c.request n.tag ∨ s.frame = c.quiet n.tag)
  | none => ∃ tag, s.frame = Command.noop.request tag

theorem describes_of_mem_slots {e : Engine} (hflat : e.Flat) {id : Nat} {s : Slot}
    (hs : s ∈ e.slots id) : e.Describes s := by
  unfold slots at hs
  split at hs
  · cases hs
  · next n hn =>
    split at hs
    · next c hc =>
      rw [List.mem_singleton.1 hs]
      exact ⟨n, c, hn, hc, .inl rfl⟩
    · next b hb =>
      rcases List.mem_append.1 hs with hs | hs
      · obtain ⟨m, hm, rfl⟩ := List.mem_map.1 hs
        have hmember : m ∈ e.members id := by rwa [members_of_nature? hn, hb]
        obtain ⟨n', c, hn', hc⟩ := (hflat id m hmember).2
        refine ⟨n', c, hn', hc, .inr ?_⟩
        simp [memberSlot, hn', hc, Work.command?]
      · rw [List.mem_singleton.1 hs]
        exact ⟨n.tag, rfl⟩

theorem describes_some {e : Engine} {s : Slot} (h : e.Describes s) {id : Nat}
    (hid : s.owner = some id) : ∃ n c, e.nature? id = some n ∧ n.work = .single c ∧
      s.frame.tag = n.tag ∧ s.frame.loud = c.request 0 := by
  unfold Describes at h
  rw [hid] at h
  obtain ⟨n, c, hn, hc, hframe⟩ := h
  refine ⟨n, c, hn, hc, ?_⟩
  rcases hframe with hframe | hframe <;> simp [hframe]

theorem describes_none {e : Engine} {s : Slot} (h : e.Describes s) (hid : s.owner = none) :
    ∃ tag, s.frame = Command.noop.request tag := by
  unfold Describes at h
  rwa [hid] at h

/-! ## What has been written -/

/-- The bytes of an operation's requests that have not been written. -/
def outstanding (e : Engine) (id : Nat) : Bytes :=
  match e.request? id with
  | some r => r.left
  | none => encodeSlots (e.slots id)

theorem outstanding_of_none {e : Engine} {id : Nat} (h : e.request? id = none) :
    e.outstanding id = encodeSlots (e.slots id) := by
  simp [outstanding, h]

theorem flatMap_outstanding {e : Engine} {ids : List Nat} (h : ∀ id ∈ ids, e.request? id = none) :
    ids.flatMap e.outstanding = encodeSlots (ids.flatMap e.slots) := by
  induction ids with
  | nil => rfl
  | cons id ids ih =>
    rw [List.flatMap_cons, List.flatMap_cons, encodeSlots_append,
      outstanding_of_none (h id List.mem_cons_self), ih fun x hx => h x (List.mem_cons_of_mem id hx)]

theorem isStarted_eq (e : Engine) (id : Nat) :
    Queue.isStarted e id = (e.request? id).any (0 < ·.written) := by
  rw [Queue.isStarted, request?]
  cases e.get? id <;> rfl

/-- A batch whose members may join it, and have not been cancelled. -/
def Joined (e : Engine) (id : Nat) : Prop :=
  ∀ n b, e.nature? id = some n → n.work = .batch b → ∀ m ∈ b.members, ∃ c,
    e.command? m = some c ∧ c.family? = some b.family

theorem joined_of_isSingle {e : Engine} {id : Nat} (h : e.IsSingle id) : e.Joined id := by
  obtain ⟨n, c, hn, hc⟩ := h
  intro n' b hn' hb
  rw [hn] at hn'
  cases hn'
  rw [hc] at hb
  cases hb

theorem quietBytes_eq {e : Engine} {m : Nat} {op : Operation} {c : Command}
    (hop : e.get? m = some op) (hwork : op.work = .single c) (hphase : op.phase ≠ .cancelled) :
    e.quietBytes m = ((c.quietRequest? op.tag).map (·.encode)).getD [] := by
  cases op
  cases hwork
  simp [quietBytes, hop, hphase]

/-- What is written are the slots, if no member has been cancelled. -/
theorem encode_eq_encodeSlots {e : Engine} {id : Nat} {op : Operation} (hop : e.get? id = some op)
    (hjoined : e.Joined id) (hopen : ∀ m ∈ e.members id, e.isTerminal m = false) :
    e.encode op = encodeSlots (e.slots id) := by
  have hn := nature?_of_get? hop
  cases hwork : op.work with
  | single c =>
    rw [slots_single hn hwork]
    simp [encode, hwork, encodeSlots, Operation.nature]
  | batch b =>
    have hmembers : e.members id = b.members := by rw [members_of_nature? hn]; exact congrArg _ hwork
    have hquiet : ∀ m ∈ b.members, e.quietBytes m = (e.memberSlot m).frame.encode := fun m hm => by
      obtain ⟨c, hc, hfamily⟩ := hjoined _ b hn hwork m hm
      have hm := hopen m (hmembers ▸ hm)
      cases hmop : e.get? m with
      | none => simp [command?, nature?, hmop] at hc
      | some member =>
        have hphase : member.phase ≠ .cancelled := fun hp => by
          simp [isTerminal, hmop, Operation.isTerminal, hp, Phase.isTerminal] at hm
        have hcommand : member.work.command? = some c := by
          simpa [command?, nature?, hmop, Operation.nature] using hc
        obtain ⟨c', hwork'⟩ : ∃ c', member.work = .single c' := by
          cases hw : member.work with
          | single c' => exact ⟨c', rfl⟩
          | batch b' => rw [hw] at hcommand; cases hcommand
        rw [hwork'] at hcommand
        cases hcommand
        rw [quietBytes_eq hmop hwork' hphase, (Command.quiet_of_family hfamily member.tag).1]
        simp [hmop, hwork', memberSlot, nature?, Operation.nature, Work.command?]
    rw [slots_batch hn hwork]
    simp only [encode, hwork, encodeSlots, List.map_append, Frame.encodeAll_append]
    congr 1
    rw [Frame.encodeAll, List.flatMap_map, List.flatMap_map, List.flatMap_def, List.flatMap_def]
    exact congrArg _ (List.map_congr_left hquiet)

end Engine

end ShardedCache

import ShardedCache.Proofs.Engine.Reach
import ShardedCache.Proofs.Node.Sending

/-!
# A stream of whole requests

What has been written for a connection is the requests of the operations that have been handed on,
and as much of the next one as its operation counts as written (`Queue.Aligned`). For this the read
queue stands for all that has been handed on, be it answered or not. Between two rounds of packing
the operation at the head is in the middle of its request or has not begun it (`Queue.AtRest`), and
then a cancellation does no harm (`AtRest.spare`): a request in flight is kept.
-/

namespace ShardedCache

namespace Engine

/-! ## What has been copied -/

/-- The bytes of an operation's request that have been written. -/
def copied (e : Engine) (id : Nat) : Bytes :=
  ((e.request? id).map fun r => r.bytes.take r.written).getD []

theorem copied_of_some {e : Engine} {id : Nat} {r : Request} (h : e.request? id = some r) :
    e.copied id = r.bytes.take r.written := by
  simp [copied, h]

theorem copied_of_none {e : Engine} {id : Nat} (h : e.request? id = none) : e.copied id = [] := by
  simp [copied, h]

theorem copied_of_not_isStarted {e : Engine} {id : Nat} (h : Queue.isStarted e id = false) :
    e.copied id = [] := by
  cases hr : e.request? id with
  | none => exact copied_of_none hr
  | some r =>
    have hzero : r.written = 0 := by
      rw [isStarted_eq, hr] at h
      simpa using h
    rw [copied_of_some hr, hzero, List.take_zero]

theorem flatMap_copied_of_not_isStarted {e : Engine} {ids : List Nat}
    (h : ∀ id ∈ ids, Queue.isStarted e id = false) : ids.flatMap e.copied = [] :=
  List.flatMap_eq_nil_iff.2 fun id hid => copied_of_not_isStarted (h id hid)

theorem isStarted_of_none {e : Engine} {id : Nat} (h : e.request? id = none) :
    Queue.isStarted e id = false := by
  rw [isStarted_eq, h]
  rfl

theorem Rewinds.isStarted {e e' : Engine} {id : Nat} (h : e.Rewinds e' id) :
    Queue.isStarted e' id = false := by
  rw [isStarted_eq, h.request]
  cases e.request? id <;> rfl

/-- An operation whose request waits to be written on. A batch that has not been encoded waits in
vain. -/
structure Paused (e : Engine) (id : Nat) : Prop where
  encoded : e.request? id = none → e.members id = [] ∨ e.isCancelled id = true
  left : ∀ r, e.request? id = some r → r.written < r.bytes.length

section Spares

variable {e e' : Engine} {id : Nat} (h : e.Spares e' id)

include h

theorem Spares.request?_of_some {r : Request} (hr : e'.request? id = some r) :
    e.request? id = some r := by
  cases h with
  | kept h => exact h.request.symm.trans hr
  | cancelled _ hrequest =>
    rw [hrequest] at hr
    exact (Option.filter_eq_some_iff.1 hr).1

/-- What has been written of a request stays in flight. -/
theorem Spares.copied (hpaused : e.Paused id) :
    e'.copied id = e.copied id ∧ Queue.isStarted e' id = Queue.isStarted e id := by
  rw [isStarted_eq, isStarted_eq, Engine.copied, Engine.copied]
  cases h with
  | kept h => rw [h.request]; exact ⟨rfl, rfl⟩
  | cancelled _ hrequest =>
    rw [hrequest]
    cases hr : e.request? id with
    | none => exact ⟨rfl, rfl⟩
    | some r =>
      have hleft := hpaused.left r hr
      by_cases hwritten : 0 < r.written
      · have hflight : r.inFlight = true := by simp [Request.inFlight, hwritten, hleft]
        rw [Option.filter_some, if_pos hflight]
        exact ⟨rfl, rfl⟩
      · have hflight : ¬ r.inFlight = true := by simp [Request.inFlight, hwritten]
        have hzero : r.written = 0 := by omega
        rw [Option.filter_some, if_neg hflight]
        simp [hzero]

theorem Spares.paused (hpaused : e.Paused id) (hmembers : e'.members id = e.members id) :
    e'.Paused id := by
  refine ⟨fun hr => ?_, fun r hr => hpaused.left r (h.request?_of_some hr)⟩
  cases h with
  | kept h =>
    rw [hmembers, h.cancelled]
    exact hpaused.encoded (h.request.symm.trans hr)
  | cancelled hcancelled _ => exact .inr hcancelled

end Spares

/-! ## The same requests later on -/

section Follows

variable {e e' : Engine} (h : e.Follows e') (he : e.Sound)

include h he

theorem Follows.nature?_member {id m : Nat} (hid : id < e.size) (hm : m ∈ e.members id) :
    e'.nature? m = e.nature? m :=
  h.nature?_eq (Nat.lt_trans (he.flat id m hm).1 hid)

theorem Follows.slots_eq {id : Nat} (hid : id < e.size) : e'.slots id = e.slots id :=
  slots_congr (h.nature?_eq hid) fun _ hm => h.nature?_member he hid hm

theorem Follows.flatMap_slots_eq {ids : List Nat} (hids : ∀ id ∈ ids, id < e.size) :
    ids.flatMap e'.slots = ids.flatMap e.slots :=
  List.flatMap_congr fun id hid => h.slots_eq he (hids id hid)

theorem Follows.joined {id : Nat} (hid : id < e.size) (hjoined : e.Joined id) : e'.Joined id := by
  intro n b hn hb m hm
  rw [h.nature?_eq hid] at hn
  have hmember : m ∈ e.members id := by rwa [members_of_nature? hn, hb]
  rw [command?, h.nature?_member he hid hmember]
  exact hjoined n b hn hb m hm

end Follows

theorem isSingle_of_follows {e e' : Engine} (h : e.Follows e') (hsize : e'.size = e.size) {id : Nat}
    (hid : e'.IsSingle id) : e.IsSingle id := by
  rwa [IsSingle, ← h.nature?_eq (hsize ▸ lt_size_of_isSingle hid)]

/-- Whoever a request is for is the operation or a member of it. -/
theorem mem_of_mem_owners_slots {e : Engine} {id x : Nat} (h : x ∈ owners (e.slots id)) :
    x = id ∨ x ∈ e.members id := by
  cases hn : e.nature? id with
  | none => simp [slots, hn] at h
  | some n =>
    cases hwork : n.work with
    | single c =>
      rw [owners_slots_single ⟨n, c, hn, hwork⟩] at h
      exact .inl (List.mem_singleton.1 h)
    | batch b =>
      rw [owners_slots_batch hn hwork] at h
      exact .inr h

theorem slots_ne_nil {e : Engine} {id : Nat} (h : id < e.size) : e.slots id ≠ [] := by
  obtain ⟨op, hop⟩ := get?_of_lt_size h
  have hn := nature?_of_get? hop
  cases hwork : op.work with
  | single c => rw [slots_single hn hwork]; exact List.cons_ne_nil _ _
  | batch b => rw [slots_batch hn hwork]; simp

end Engine

namespace Queue

/-- Everything that waits to be written: operations, and the members of batches. -/
def unsent (q : Queue) (e : Engine) : List Nat :=
  q.input ++ (q.writeQueue ++ q.writeQueue.flatMap e.members)

/-- The requests of a connection, in the order in which they are written. -/
def requests (q : Queue) (e : Engine) : List Slot :=
  (q.readQueue ++ (q.writeQueue ++ q.input)).flatMap e.slots

/-- What has been written is in line with the requests. `taken` has left the buffer, and `order` is
the order in which operations were submitted. -/
structure Aligned (accepted : List Nat) (taken : Bytes) (order : List Nat) (q : Queue) (e : Engine) :
    Prop where
  custody : q.Custody accepted e
  room : q.writeBuffer.length ≤ q.settings.writeBufferSize
  bytes : taken ++ q.writeBuffer =
    encodeSlots (q.readQueue.flatMap e.slots) ++ q.writeQueue.flatMap e.copied
  waiting : ∀ id ∈ q.unsent e, e.isUnwritten id = true ∨ e.isCancelled id = true
  encoded : ∀ id ∈ q.writeQueue, ∀ r, e.request? id = some r →
    r.bytes = encodeSlots (e.slots id) ∧ r.written ≤ r.bytes.length
  behind : ∀ id ∈ q.writeQueue.tail, isStarted e id = false
  input : ∀ id ∈ q.input, e.request? id = none
  joined : ∀ id ∈ q.writeQueue, e.Joined id
  listed : (owners (q.requests e)).Sublist order
  omitted : ∀ id ∈ order, id ∉ owners (q.requests e) → e.isCancelled id = true
  untouched : ∀ id, e.IsSingle id → id ∉ accepted →
    e.request? id = none ∧ (e.isUnwritten id = true ∨ e.isCancelled id = true)

/-- Between two rounds of packing. -/
structure AtRest (accepted : List Nat) (taken : Bytes) (order : List Nat) (q : Queue) (e : Engine) :
    Prop extends Aligned accepted taken order q e where
  paused : ∀ id ∈ q.writeQueue, e.Paused id

/-- The head of the write queue is about to be written. -/
structure AtHand (accepted : List Nat) (taken : Bytes) (order : List Nat) (q : Queue) (e : Engine) :
    Prop extends Aligned accepted taken order q e where
  paused : ∀ id ∈ q.writeQueue.tail, e.Paused id
  ready : ∀ id ∈ q.writeQueue.head?,
    (e.request? id = none → ∀ m ∈ e.members id, e.isCancelled m = false) ∧
      ∀ r, e.request? id = some r → r.written < r.bytes.length

/-! ## What is unsent -/

theorem unsent_perm (q : Queue) (e : Engine) :
    (q.unsent e ++ (q.readQueue ++ q.readQueue.flatMap e.members)).Perm (q.held e) := by
  refine List.perm_iff_count.2 fun x => ?_
  simp only [unsent, held, line, List.flatMap_append, List.count_append]
  omega

theorem mem_held_of_mem_unsent {q : Queue} {e : Engine} {id : Nat} (h : id ∈ q.unsent e) :
    id ∈ q.held e := (unsent_perm q e).mem_iff.1 (List.mem_append_left _ h)

/-- Whoever may be written yet: what is unsent, and what clients have not submitted. -/
def Awaits (accepted : List Nat) (q : Queue) (e : Engine) (id : Nat) : Prop :=
  id ∈ q.unsent e ∨ e.IsSingle id ∧ id ∉ accepted

/-- What has been handed on is not written again. -/
theorem Custody.not_awaits {accepted : List Nat} {q : Queue} {e : Engine}
    (h : Custody accepted q e) {id j : Nat} (hid : id ∈ q.readQueue) (hj : j ∈ id :: e.members id) :
    ¬ q.Awaits accepted e j := by
  have hmem : j ∈ q.readQueue ++ q.readQueue.flatMap e.members := by
    rcases List.mem_cons.1 hj with rfl | hj
    · exact List.mem_append_left _ hid
    · exact List.mem_append_right _ (List.mem_flatMap.2 ⟨id, hid, hj⟩)
  have hperm := unsent_perm q e
  rintro (hunsent | ⟨hsingle, hnew⟩)
  · exact (List.nodup_append.1 (hperm.nodup_iff.2 h.nodup)).2.2 j hunsent j hmem rfl
  · exact hnew (h.owned j (hperm.mem_iff.1 (List.mem_append_right _ hmem)) hsingle)

theorem mem_unsent_of_mem_writeQueue {q : Queue} {e : Engine} {id : Nat} (h : id ∈ q.writeQueue) :
    id ∈ q.unsent e := List.mem_append_right _ (List.mem_append_left _ h)

theorem mem_unsent_of_mem_members {q : Queue} {e : Engine} {id m : Nat} (h : id ∈ q.writeQueue)
    (hm : m ∈ e.members id) : m ∈ q.unsent e :=
  List.mem_append_right _ (List.mem_append_right _ (List.mem_flatMap.2 ⟨id, h, hm⟩))

namespace Aligned

variable {accepted order : List Nat} {taken : Bytes} {q : Queue} {e : Engine}
  (h : Aligned accepted taken order q e)

include h

theorem lt_size {id : Nat} (hid : id ∈ q.readQueue ++ (q.writeQueue ++ q.input)) : id < e.size := by
  refine h.custody.known id (mem_held_of_mem_line ?_)
  simp only [line, List.mem_append] at hid ⊢
  grind

theorem lt_size_of_mem_writeQueue {id : Nat} (hid : id ∈ q.writeQueue) : id < e.size :=
  h.lt_size (List.mem_append_right _ (List.mem_append_left _ hid))

/-- Beyond what has been handed on only the head has been written of. -/
theorem copied_of_cons {id : Nat} {rest : List Nat} (hq : q.writeQueue = id :: rest) :
    taken ++ q.writeBuffer = encodeSlots (q.readQueue.flatMap e.slots) ++ e.copied id := by
  have hrest : rest.flatMap e.copied = [] :=
    Engine.flatMap_copied_of_not_isStarted fun x hx => h.behind x (by rwa [hq])
  rw [h.bytes, hq, List.flatMap_cons, hrest, List.append_nil]

/-- What waits in vain waits in vain with all its members. -/
theorem isCancelled_member {id m : Nat} (hid : id ∈ q.writeQueue) (hc : e.isCancelled id = true)
    (hm : m ∈ e.members id) : e.isCancelled m = true := by
  have hend := h.custody.sound.settled (isTerminal_of_isCancelled hc) m hm
  refine (h.waiting m (mem_unsent_of_mem_members hid hm)).resolve_left fun hunwritten => ?_
  rw [Engine.isTerminal_of_isUnwritten hunwritten] at hend
  cases hend

theorem isCancelled_of_mem_owners {id x : Nat} (hid : id ∈ q.writeQueue)
    (hc : e.isCancelled id = true) (hx : x ∈ owners (e.slots id)) : e.isCancelled x = true := by
  rcases Engine.mem_of_mem_owners_slots hx with rfl | hm
  · exact hc
  · exact h.isCancelled_member hid hc hm

end Aligned

/-! ## Other steps of the engine -/

section Spare

variable {accepted order : List Nat} {taken : Bytes} {q : Queue} {e e' : Engine}

theorem unsent_congr (hmembers : ∀ id ∈ q.writeQueue, e'.members id = e.members id) :
    q.unsent e' = q.unsent e := by
  rw [unsent, unsent, List.flatMap_congr hmembers]

/-- The engine goes on, and what waits to be written may have been cancelled. -/
theorem AtRest.goes (h : AtRest accepted taken order q e) (hgoes : e.Goes e')
    (hspares : ∀ id ∈ q.unsent e, e.Spares e' id)
    (huntouched : ∀ id, e'.IsSingle id → id ∉ accepted →
      e.IsSingle id ∧ e.Spares e' id ∨ e'.request? id = none ∧ e'.isUnwritten id = true)
    (readBuffer : Bytes) : AtRest accepted taken order { q with readBuffer } e' := by
  have hsound := h.custody.sound
  have hfollows := hgoes.follows
  have hwrite : ∀ {id}, id ∈ q.writeQueue → id < e.size := h.lt_size_of_mem_writeQueue
  have hspare : ∀ {id}, id ∈ q.writeQueue → e.Spares e' id := fun hid =>
    hspares _ (mem_unsent_of_mem_writeQueue hid)
  have hmembers : ∀ id ∈ q.writeQueue, e'.members id = e.members id := fun id hid =>
    hfollows.members_eq (hwrite hid)
  have hunsent : ({ q with readBuffer } : Queue).unsent e' = q.unsent e := unsent_congr hmembers
  have hrequests : ({ q with readBuffer } : Queue).requests e' = q.requests e :=
    hfollows.flatMap_slots_eq hsound fun id hid => h.lt_size hid
  refine ⟨⟨h.custody.goes hgoes rfl rfl, h.room, ?_, fun id hid => ?_, fun id hid r hr => ?_,
    fun id hid => ?_, fun id hid => ?_, fun id hid => ?_, ?_, fun id hid hnot => ?_,
    fun id hid hnew => ?_⟩, fun id hid => ?_⟩
  · refine h.bytes.trans ?_
    rw [hfollows.flatMap_slots_eq hsound fun id hid => h.lt_size (List.mem_append_left _ hid)]
    exact congrArg _ (List.flatMap_congr fun id hid => ((hspare hid).copied (h.paused id hid)).1.symm)
  · rw [hunsent] at hid
    exact (hspares id hid).resumes.waiting (h.waiting id hid)
  · rw [hfollows.slots_eq hsound (hwrite hid)]
    exact h.encoded id hid r ((hspare hid).request?_of_some hr)
  · have hmem := List.mem_of_mem_tail hid
    rw [((hspare hmem).copied (h.paused id hmem)).2]
    exact h.behind id hid
  · exact (hspares id (List.mem_append_left _ hid)).resumes.unrequested (h.input id hid)
  · exact hfollows.joined hsound (hwrite hid) (h.joined id hid)
  · rw [hrequests]
    exact h.listed
  · rw [hrequests] at hnot
    exact Engine.isCancelled_of_follows hfollows (h.omitted id hid hnot)
  · rcases huntouched id hid hnew with ⟨hsingle, hspare⟩ | ⟨hnone, hunwritten⟩
    · obtain ⟨hnone, hwaiting⟩ := h.untouched id hsingle hnew
      exact ⟨hspare.resumes.unrequested hnone, hspare.resumes.waiting hwaiting⟩
    · exact ⟨hnone, .inl hunwritten⟩
  · exact (hspare hid).paused (h.paused id hid) (hmembers id hid)

/-- The same if nobody new has come in. -/
theorem AtRest.spare (h : AtRest accepted taken order q e) (hgoes : e.Goes e')
    (hsize : e'.size = e.size) (hspares : ∀ id, q.Awaits accepted e id → e.Spares e' id)
    (readBuffer : Bytes) : AtRest accepted taken order { q with readBuffer } e' := by
  refine h.goes hgoes (fun id hid => hspares id (.inl hid)) (fun id hid hnew => ?_) readBuffer
  have hsingle := Engine.isSingle_of_follows hgoes.follows hsize hid
  exact .inl ⟨hsingle, hspares id (.inr ⟨hsingle, hnew⟩)⟩

end Spare

end Queue

end ShardedCache

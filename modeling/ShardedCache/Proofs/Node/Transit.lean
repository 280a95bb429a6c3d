import Mathlib.Data.List.Basic
import ShardedCache.Proofs.Node.Exchange

/-!
# Where everything is

At any time in an exchange the requests of the operations that wait to be written or answered fall
into three parts, in the order in which they were submitted: some have been answered, some have been
seen by the server, and the rest has not. The bytes in the buffers and on their way are those of the
third part and of the responses to the second. `Transit` says so, and what has come of each
operation so far; here it is stated, with what follows from it at once.
-/

namespace ShardedCache

open Wire (Frame)

/-- A request that the server has seen, and its response, if there is one. -/
structure Turn where
  slot : Slot
  reply : Option Frame

/-- How far an exchange has come. -/
structure Course where
  /-- Operations that have left the queues. -/
  done : List Nat
  /-- Requests of the batch at the head of the read queue that are over with. -/
  answered : List Slot
  underWay : List Turn
  /-- Requests that the server has not seen in full. -/
  unsent : List Slot

namespace Course

/-- Requests whose responses have not been processed. -/
def served (k : Course) : List Slot := k.underWay.map (·.slot)

def replies (k : Course) : List Frame := k.underWay.filterMap (·.reply)

def slots (k : Course) : List Slot := k.answered ++ (k.served ++ k.unsent)

/-- With more requests at the end. -/
def await (k : Course) (slots : List Slot) : Course := { k with unsent := k.unsent ++ slots }

theorem slots_await (k : Course) (slots : List Slot) : (k.await slots).slots = k.slots ++ slots := by
  simp [Course.slots, await, served]

end Course

/-- The requests are in the order of submission. -/
structure Ordered (accepted : List Nat) (q : Queue) (e : Engine) (k : Course) : Prop where
  nodup : accepted.Nodup
  fits : ∀ id ∈ accepted, ∃ c, e.command? id = some c ∧ c.Fits
  order : accepted.reverse = k.done ++ (owners k.slots ++ q.input)
  slots : (q.readQueue ++ q.writeQueue).flatMap e.slots = k.slots
  heading : k.answered = [] ∨ ∃ id rest, q.readQueue = id :: rest ∧
    k.answered.length < (e.slots id).length
  joined : ∀ id ∈ q.readQueue ++ q.writeQueue, e.Joined id
  plain : q.settings.optimize = false → ∀ id ∈ q.writeQueue, e.IsSingle id

/-- Only the head of the write queue has begun to be written, and what has not reached the server
lies ready. -/
structure Sending (accepted : List Nat) (p : Peer) (q : Queue) (e : Engine) (k : Course) :
    Prop where
  bytes : p.begun ++ (q.writeBuffer ++ q.writeQueue.flatMap e.outstanding) = encodeSlots k.unsent
  begun : Frame.parse Wire.requestMagic p.begun = .incomplete
  head : ∀ id rest r, q.writeQueue = id :: rest → e.request? id = some r →
    0 < r.written ∧ r.left ≠ []
  fresh : ∀ id ∈ q.writeQueue.tail ++ q.input, e.request? id = none
  untouched : ∀ id, e.IsSingle id → id ∉ accepted → e.request? id = none

/-- What the server has said is on its way, and what has been processed has been understood. -/
structure Receiving (server : Server) (accepted : List Nat) (p : Peer) (q : Queue) (e : Engine)
    (k : Course) : Prop where
  bytes : q.readBuffer ++ p.outbox = Frame.encodeAll k.replies
  replies : ∀ t ∈ k.underWay, ∃ past, t.reply = server.reply? past t.slot.frame ∧
    ∀ id, t.slot.owner = some id → past = e.past accepted id
  past : p.past = e.asked (k.done ++ owners (k.answered ++ k.served))
  done : ∀ id ∈ k.done, e.isTerminal id
  waiting : ∀ id ∈ q.line, e.isTerminal id = false
  unanswered : ∀ id ∈ owners (k.served ++ k.unsent), e.isTerminal id = false
  silent : ∀ s ∈ k.answered, ∀ id, s.owner = some id → e.isTerminal id = false →
    server.reply? (e.past accepted id) s.frame = none
  answered : e.Answered server accepted

structure Transit (server : Server) (accepted : List Nat) (p : Peer) (q : Queue) (e : Engine)
    (k : Course) : Prop where
  custody : q.Custody accepted e
  ordered : Ordered accepted q e k
  sending : Sending accepted p q e k
  receiving : Receiving server accepted p q e k

/-! ## Consequences of the order -/

namespace Ordered

variable {accepted : List Nat} {q : Queue} {e : Engine} {k : Course}

theorem mem_accepted_of_owner (h : Ordered accepted q e k) {id : Nat} (hid : id ∈ owners k.slots) :
    id ∈ accepted := by
  have hmem : id ∈ accepted.reverse := by
    rw [h.order]
    exact List.mem_append_right _ (List.mem_append_left _ hid)
  exact List.mem_reverse.1 hmem

theorem mem_accepted_of_done (h : Ordered accepted q e k) {id : Nat} (hid : id ∈ k.done) :
    id ∈ accepted := by
  have hmem : id ∈ accepted.reverse := by
    rw [h.order]
    exact List.mem_append_left _ hid
  exact List.mem_reverse.1 hmem

/-- What is over with belongs to the head of the read queue. -/
theorem read_slots (h : Ordered accepted q e k) : ∃ rest,
    q.readQueue.flatMap e.slots = k.answered ++ rest ∧
      k.served ++ k.unsent = rest ++ q.writeQueue.flatMap e.slots := by
  have hslots := h.slots
  rw [List.flatMap_append, Course.slots] at hslots
  have hlen : k.answered.length ≤ (q.readQueue.flatMap e.slots).length := by
    rcases h.heading with hnil | ⟨id, rest, hq, hlt⟩
    · simp [hnil]
    · rw [hq, List.flatMap_cons, List.length_append]
      omega
  rcases List.append_eq_append_iff.1 hslots with ⟨front, hfront, hback⟩ | ⟨front, hfront, hback⟩
  · have hnil : front = [] := by
      rw [hfront, List.length_append] at hlen
      exact List.length_eq_zero_iff.1 (by omega)
    subst hnil
    exact ⟨[], by simpa using hfront.symm, by simpa using hback.symm⟩
  · exact ⟨front, hfront, hback⟩

theorem describes (h : Ordered accepted q e k) (he : e.Flat) {s : Slot} (hs : s ∈ k.slots) :
    e.Describes s := by
  rw [← h.slots] at hs
  obtain ⟨id, -, hs⟩ := List.mem_flatMap.1 hs
  exact Engine.describes_of_mem_slots he hs

theorem readable (h : Ordered accepted q e k) (he : e.Flat) {s : Slot} (hs : s ∈ k.slots) :
    s.frame.Readable Wire.requestMagic := by
  have hdescribes := h.describes he hs
  unfold Engine.Describes at hdescribes
  split at hdescribes
  · next id hid =>
    obtain ⟨n, c, hn, hc, hframe⟩ := hdescribes
    obtain ⟨c', hc', hfits⟩ := h.fits id (h.mem_accepted_of_owner (mem_owners.2 ⟨s, hs, hid⟩))
    have hcommand : e.command? id = some c := by simp [Engine.command?, hn, hc, Work.command?]
    rw [hcommand] at hc'
    cases hc'
    rcases hframe with hframe | hframe <;> rw [hframe]
    · exact hfits.readable n.tag
    · exact hfits.readable_quiet n.tag
  · obtain ⟨tag, hframe⟩ := hdescribes
    have hfits : Command.noop.Fits := by decide
    rw [hframe]
    exact hfits.readable tag

end Ordered

/-! ## The same in another engine -/

namespace Engine

variable {e e' : Engine}

theorem slots_congr {id : Nat} (h : e'.nature? id = e.nature? id)
    (hmembers : ∀ m ∈ e.members id, e'.nature? m = e.nature? m) : e'.slots id = e.slots id := by
  unfold slots
  rw [h]
  split
  · rfl
  · next n hn =>
    split
    · rfl
    · next b hb =>
      rw [members_of_nature? hn, hb] at hmembers
      congr 1
      refine List.map_congr_left fun m hm => ?_
      rw [memberSlot, memberSlot, hmembers m hm]

theorem asked_congr {ids : List Nat} (h : ∀ id ∈ ids, e'.command? id = e.command? id) :
    e'.asked ids = e.asked ids := by
  rw [asked, asked, List.filterMap_congr h]

theorem past_congr {accepted : List Nat} (h : ∀ id ∈ accepted, e'.command? id = e.command? id)
    (id : Nat) : e'.past accepted id = e.past accepted id :=
  asked_congr fun x hx => h x (List.mem_reverse.1 ((List.takeWhile_prefix _).subset hx))

end Engine

section Same

variable {server : Server} {accepted : List Nat} {p : Peer} {q : Queue} {e e' : Engine} {k : Course}

theorem mem_held_of_mem_members {id m : Nat} (hid : id ∈ q.readQueue ++ q.writeQueue)
    (hm : m ∈ e.members id) : m ∈ q.held e := by
  refine List.mem_append_right _ (List.mem_flatMap.2 ⟨id, ?_, hm⟩)
  exact List.mem_append.2 (List.mem_append.1 hid).symm

theorem mem_held_of_mem_queues {id : Nat} (hid : id ∈ q.readQueue ++ q.writeQueue) :
    id ∈ q.held e := by
  refine Queue.mem_held_of_mem_line (List.mem_append_right _ ?_)
  exact List.mem_append.2 (List.mem_append.1 hid).symm

theorem flatMap_slots_congr (h : ∀ id ∈ q.held e, e'.nature? id = e.nature? id) {ids : List Nat}
    (hids : ∀ id ∈ ids, id ∈ q.readQueue ++ q.writeQueue) :
    ids.flatMap e'.slots = ids.flatMap e.slots := by
  rw [List.flatMap_def, List.flatMap_def]
  refine congrArg _ (List.map_congr_left fun id hid => Engine.slots_congr ?_ fun m hm => ?_)
  · exact h id (mem_held_of_mem_queues (hids id hid))
  · exact h m (mem_held_of_mem_members (hids id hid) hm)

theorem Ordered.congr (h : Ordered accepted q e k)
    (haccepted : ∀ id ∈ accepted, e'.nature? id = e.nature? id)
    (hheld : ∀ id ∈ q.held e, e'.nature? id = e.nature? id) : Ordered accepted q e' k := by
  have hslots : ∀ {id}, id ∈ q.readQueue ++ q.writeQueue → e'.slots id = e.slots id := fun hid =>
    Engine.slots_congr (hheld _ (mem_held_of_mem_queues hid)) fun m hm =>
      hheld m (mem_held_of_mem_members hid hm)
  refine ⟨h.nodup, fun id hid => ?_, h.order, ?_, ?_, fun id hid => ?_, fun hplain id hid => ?_⟩
  · rw [Engine.command?, haccepted id hid]
    exact h.fits id hid
  · rw [flatMap_slots_congr hheld fun _ hid => hid]
    exact h.slots
  · refine h.heading.imp_right ?_
    rintro ⟨id, rest, hq, hlt⟩
    refine ⟨id, rest, hq, ?_⟩
    rwa [hslots (List.mem_append_left _ (hq ▸ List.mem_cons_self))]
  · intro n b hn hb m hm
    rw [hheld id (mem_held_of_mem_queues hid)] at hn
    have hmember : m ∈ e.members id := by rwa [Engine.members_of_nature? hn, hb]
    rw [Engine.command?, hheld m (mem_held_of_mem_members hid hmember)]
    exact h.joined id hid n b hn hb m hm
  · rw [Engine.IsSingle, hheld id (mem_held_of_mem_queues (List.mem_append_right _ hid))]
    exact h.plain hplain id hid

theorem Engine.Tells.congr {id : Nat} (h : e.Tells server accepted id) (hsame : e.Same e' id)
    (haccepted : ∀ x ∈ accepted, e'.command? x = e.command? x) : e'.Tells server accepted id := by
  intro c hc
  rw [hsame.command?_eq] at hc
  rw [Engine.past_congr haccepted, hsame.heard]
  exact h c hc

theorem Engine.Answered.congr (h : e.Answered server accepted)
    (hsame : ∀ id ∈ accepted, e.Same e' id) : e'.Answered server accepted := by
  intro id hid hend
  rw [(hsame id hid).terminal] at hend
  exact (h id hid hend).congr (hsame id hid) fun x hx => (hsame x hx).command?_eq

theorem Receiving.congr (h : Receiving server accepted p q e k) (ho : Ordered accepted q e k)
    (haccepted : ∀ id ∈ accepted, e.Same e' id) (hheld : ∀ id ∈ q.held e, e.Same e' id) :
    Receiving server accepted p q e' k := by
  have hpast := Engine.past_congr (fun id hid => (haccepted id hid).command?_eq)
  have howner : ∀ {s id}, s ∈ k.slots → s.owner = some id → e.Same e' id := fun hs hid =>
    haccepted _ (ho.mem_accepted_of_owner (mem_owners.2 ⟨_, hs, hid⟩))
  refine ⟨h.bytes, fun t ht => ?_, ?_, fun id hid => ?_, fun id hid => ?_, fun id hid => ?_,
    fun s hs id hid hopen => ?_, h.answered.congr haccepted⟩
  · obtain ⟨past, hreply, heq⟩ := h.replies t ht
    exact ⟨past, hreply, fun id hid => by rw [hpast, heq id hid]⟩
  · rw [h.past]
    refine (Engine.asked_congr fun id hid => ?_).symm
    rcases List.mem_append.1 hid with hid | hid
    · exact (haccepted id (ho.mem_accepted_of_done hid)).command?_eq
    · obtain ⟨s, hs, hid⟩ := mem_owners.1 hid
      refine (howner ?_ hid).command?_eq
      rw [Course.slots, ← List.append_assoc]
      exact List.mem_append_left _ hs
  · rw [(haccepted id (ho.mem_accepted_of_done hid)).terminal]
    exact h.done id hid
  · rw [(hheld id (Queue.mem_held_of_mem_line hid)).terminal]
    exact h.waiting id hid
  · obtain ⟨s, hs, hid'⟩ := mem_owners.1 hid
    rw [(howner (List.mem_append_right _ hs) hid').terminal]
    exact h.unanswered id hid
  · rw [(howner (List.mem_append_left _ hs) hid).terminal] at hopen
    rw [hpast]
    exact h.silent s hs id hid hopen

theorem Sending.congr (h : Sending accepted p q e k)
    (hheld : ∀ id ∈ q.held e, e'.nature? id = e.nature? id)
    (hrequest : ∀ id ∈ q.writeQueue ++ q.input, e'.request? id = e.request? id)
    (huntouched : ∀ id, e'.IsSingle id → id ∉ accepted → e'.request? id = none) :
    Sending accepted p q e' k := by
  have hknown : ∀ id ∈ q.writeQueue, id ∈ q.held e := fun id hid =>
    mem_held_of_mem_queues (List.mem_append_right _ hid)
  refine ⟨?_, h.begun, fun id rest r hq hr => ?_, fun id hid => ?_, huntouched⟩
  · have houtstanding : q.writeQueue.flatMap e'.outstanding = q.writeQueue.flatMap e.outstanding := by
      rw [List.flatMap_def, List.flatMap_def]
      refine congrArg _ (List.map_congr_left fun id hid => ?_)
      have hslots := Engine.slots_congr (hheld id (hknown id hid)) fun m hm =>
        hheld m (mem_held_of_mem_members (List.mem_append_right _ hid) hm)
      rw [Engine.outstanding, Engine.outstanding, hrequest id (List.mem_append_left _ hid), hslots]
    rw [houtstanding]
    exact h.bytes
  · rw [hrequest id (List.mem_append_left _ (hq ▸ List.mem_cons_self))] at hr
    exact h.head id rest r hq hr
  · rw [hrequest id ?_]
    · exact h.fresh id hid
    · exact List.mem_append.2 ((List.mem_append.1 hid).imp_left List.mem_of_mem_tail)

/-- Whatever happens to other operations, and to the listeners of these, does not matter. -/
theorem Transit.congr (h : Transit server accepted p q e k) (hgoes : e.Goes e')
    (haccepted : ∀ id ∈ accepted, e.Same e' id) (hheld : ∀ id ∈ q.held e, e.Same e' id)
    (hrequest : ∀ id ∈ q.held e, e'.request? id = e.request? id)
    (huntouched : ∀ id, e'.IsSingle id → id ∉ accepted → e'.request? id = none) :
    Transit server accepted p q e' k where
  custody := h.custody.goes hgoes rfl rfl
  ordered := h.ordered.congr (fun id hid => (haccepted id hid).nature) fun id hid =>
    (hheld id hid).nature
  sending := h.sending.congr (fun id hid => (hheld id hid).nature)
    (fun id hid => hrequest id (Queue.mem_held_of_mem_line ((List.mem_append.1 hid).elim
      (fun hid => List.mem_append_right _ (List.mem_append_left _ hid)) fun hid =>
        List.mem_append_left _ hid))) huntouched
  receiving := h.receiving.congr h.ordered haccepted hheld

end Same

/-! ## The same in other queues -/

section Queues

variable {server : Server} {accepted : List Nat} {p : Peer} {q q' : Queue} {e : Engine} {k : Course}

/-- Nothing changes if an operation goes from the front of the write queue to the back of the read
queue. -/
theorem Ordered.requeue (h : Ordered accepted q e k)
    (hqueues : q'.readQueue ++ q'.writeQueue = q.readQueue ++ q.writeQueue)
    (hhead : ∀ id rest, q.readQueue = id :: rest → ∃ rest', q'.readQueue = id :: rest')
    (hwrite : ∀ id ∈ q'.writeQueue, id ∈ q.writeQueue) (hinput : q'.input = q.input)
    (hsettings : q'.settings = q.settings) : Ordered accepted q' e k := by
  refine ⟨h.nodup, h.fits, ?_, ?_, ?_, ?_, fun hplain id hid => ?_⟩
  · rw [hinput]
    exact h.order
  · rw [hqueues]
    exact h.slots
  · refine h.heading.imp_right ?_
    rintro ⟨id, rest, hq, hlt⟩
    obtain ⟨rest', hq'⟩ := hhead id rest hq
    exact ⟨id, rest', hq', hlt⟩
  · rw [hqueues]
    exact h.joined
  · rw [hsettings] at hplain
    exact h.plain hplain id (hwrite id hid)

theorem Receiving.requeue (h : Receiving server accepted p q e k)
    (hread : q'.readBuffer = q.readBuffer) (hline : ∀ id ∈ q'.line, id ∈ q.line) :
    Receiving server accepted p q' e k :=
  ⟨by rw [hread]; exact h.bytes, h.replies, h.past, h.done, fun id hid => h.waiting id (hline id hid),
    h.unanswered, h.silent, h.answered⟩

end Queues

end ShardedCache

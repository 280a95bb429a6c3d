import ShardedCache.Proofs.Node.Response
import ShardedCache.Proofs.Node.Upkeep
import ShardedCache.Proofs.Wire.Replies

/-!
# One reply for each operation

If no batch waits for a response, each reply that is taken off the stream belongs to the operation at
the head of the read queue, be it a frame or not, and ends that operation and no other
(`Queue.process_replies`). So the operations that have ended are those that have been cancelled or
answered, and whoever was answered has heard what its own reply comes to (`Engine.Matched`).
-/

namespace ShardedCache

open Wire (Frame FrameFault RawFrame)

/-- What a command makes of a reply. One that is no frame fails it. -/
def Command.conclude (c : Command) (tag : UInt32) : Except FrameFault Frame → Except ProtocolError Reply
  | .ok f => c.interpret tag f
  | .error fault => .error ⟨.general, fault.reason⟩

namespace Life

/-- What a reply does to an operation for one command. -/
def settle (c : Command) : Except FrameFault Frame → Life → Life
  | .ok f, l => l.answer c f
  | .error fault, l => l.fail ⟨.general, fault.reason⟩

theorem isTerminal_settle (c : Command) (judged : Except FrameFault Frame) (l : Life) :
    (l.settle c judged).isTerminal := by
  cases judged with
  | ok f => exact isTerminal_answer c f l
  | error fault => exact isTerminal_fail _ l

theorem heard_settle {l : Life} (hl : l.Sound) (hopen : l.isTerminal = false) (c : Command)
    (judged : Except FrameFault Frame) :
    (l.settle c judged).heard = Event.ofReply (c.conclude l.operation.tag judged) := by
  cases judged with
  | ok f => exact heard_answer hl hopen c f
  | error fault => exact heard_fail hl hopen _

end Life

namespace Engine

/-- A reply is handed to the operation that it is for, or charged to it. -/
def settle (e : Engine) (id : Nat) : Except FrameFault Frame → Engine
  | .ok f => (e.receive id f).1
  | .error fault => e.fail id ⟨.general, fault.reason⟩

/-- Each of the replies is for the next operation. -/
def settleAll (e : Engine) (ids : List Nat) (replies : List RawFrame) : Engine :=
  (ids.zip replies).foldl (fun e (id, r) => e.settle id r.judged) e

@[simp] theorem settleAll_nil (e : Engine) (ids : List Nat) : e.settleAll ids [] = e := by
  rw [settleAll, List.zip_nil_right, List.foldl_nil]

@[simp] theorem settleAll_cons (e : Engine) (id : Nat) (ids : List Nat) (r : RawFrame)
    (replies : List RawFrame) :
    e.settleAll (id :: ids) (r :: replies) = (e.settle id r.judged).settleAll ids replies := rfl

theorem becomes_settle {e : Engine} (hflat : e.Flat) {id : Nat} {op : Operation} {c : Command}
    (hop : e.get? id = some op) (hc : op.work = .single c) (judged : Except FrameFault Frame) :
    e.Becomes (among [id] (·.settle c judged)) (e.settle id judged) := by
  cases judged with
  | ok f => exact (receiveTo_single id hflat hop hc f).1
  | error fault =>
    refine (becomes_fail hflat id ⟨.general, fault.reason⟩).congr fun j l _ => ?_
    rw [members_of_isSingle (isSingle_of_get? hop hc), among_of_not_mem List.not_mem_nil]
    rfl

theorem goes_settle {e : Engine} (he : e.Sound) (id : Nat) (judged : Except FrameFault Frame) :
    e.Goes (e.settle id judged) := by
  cases judged with
  | ok f => exact (goes_receive he id f).1
  | error fault => exact (goes_fail he id _).1

/-- An operation for one command is done with its first reply, unless the server wants the
connection dropped. -/
theorem receive_snd {e : Engine} (hflat : e.Flat) {id : Nat} (hid : e.IsSingle id) {f : Frame}
    (hstatus : f.status ≠ Wire.invalidArguments) : (e.receive id f).2 = .done := by
  obtain ⟨n, c, hn, hc⟩ := hid
  obtain ⟨op, hop, rfl⟩ := Option.map_eq_some_iff.1 hn
  rw [show (e.receive id f).2 = _ from (receiveTo_single id hflat hop hc f).2]
  refine frameOutcome_eq_done fun hfatal => hstatus ?_
  exact beq_iff_eq.1 (isConnectionFatal_of_frameOutcome hfatal)

end Engine

namespace Queue

theorem process_of_incomplete {q : Queue} {e : Engine}
    (hparse : Frame.parse Wire.responseMagic q.readBuffer = .incomplete) : q.process e = (q, e, none) := by
  rw [process]
  split
  · rfl
  · next h => rw [hparse] at h; cases h
  · next h => rw [hparse] at h; cases h

/-- One reply goes to the head of the read queue, which is done then. -/
theorem process_of_reply {q : Queue} {e : Engine} (hflat : e.Flat) {id : Nat} {waiting : List Nat}
    (hq : q.readQueue = id :: waiting) (hid : e.IsSingle id) {r : RawFrame} {rest : Bytes}
    (hstatus : r.header.status ≠ Wire.invalidArguments)
    (hparse : Frame.parse Wire.responseMagic q.readBuffer = .ofWhole rest r.judged) :
    q.process e =
      process { q with readQueue := waiting, readBuffer := rest } (e.settle id r.judged) := by
  cases hjudged : r.judged with
  | ok f =>
    rw [hjudged] at hparse
    have hdone := Engine.receive_snd hflat hid (RawFrame.status_of_judged hjudged ▸ hstatus)
    rw [process]
    split
    · next h => rw [hparse] at h; cases h
    · next g rest' h =>
      rw [hparse] at h
      cases h
      dsimp only
      split
      · next hnil => rw [hq] at hnil; cases hnil
      · next id' waiting' hcons =>
        rw [hq] at hcons
        cases hcons
        rw [Engine.settle]
        split
        · next hreceive => rw [hreceive] at hdone; cases hdone
        · next hreceive => rw [hreceive]
        · next hreceive => rw [hreceive] at hdone; cases hdone
    · next h => rw [hparse] at h; cases h
  | error fault =>
    rw [hjudged] at hparse
    have hconsumed := Frame.consumed_of_judge Wire.responseMagic r.header hjudged
    rw [process]
    split
    · next h => rw [hparse] at h; cases h
    · next h => rw [hparse] at h; cases h
    · next fault' rest' h =>
      rw [hparse] at h
      cases h
      rw [dif_pos hconsumed]
      simp only [hq, List.tail_cons]
      rfl

/-- Of replies that arrive, each one that is there in full is for the next operation. -/
theorem process_replies {later : Bytes} : ∀ {replies : List RawFrame} {q : Queue} {e : Engine}, e.Sound →
    (∀ id ∈ q.readQueue, e.IsSingle id) → (∀ r ∈ replies, r.header.status ≠ Wire.invalidArguments) →
    replies.length ≤ q.readQueue.length → q.readBuffer ++ later = RawFrame.encodeAll replies →
      ∃ n left, n ≤ replies.length ∧
        q.process e = ({ q with readQueue := q.readQueue.drop n, readBuffer := left },
          e.settleAll q.readQueue (replies.take n), none) ∧
        left ++ later = RawFrame.encodeAll (replies.drop n) ∧
        Frame.parse Wire.responseMagic left = .incomplete := by
  intro replies
  induction replies with
  | nil =>
    intro q e _ _ _ _ harrived
    rcases RawFrame.parse_stream harrived with ⟨hidle, -⟩ | ⟨_, _, _, hcons, -⟩
    · refine ⟨0, q.readBuffer, Nat.le_refl 0, ?_, harrived, hidle⟩
      rw [process_of_incomplete hidle, List.take_zero, Engine.settleAll_nil, List.drop_zero]
    · cases hcons
  | cons r replies ih =>
    intro q e he hsingle hstatus hlength harrived
    rcases RawFrame.parse_stream harrived with ⟨hidle, -⟩ | ⟨r', rest, replies', hcons, hparse, hrest⟩
    · refine ⟨0, q.readBuffer, Nat.zero_le _, ?_, harrived, hidle⟩
      rw [process_of_incomplete hidle, List.take_zero, Engine.settleAll_nil, List.drop_zero]
    · cases hcons
      cases hq : q.readQueue with
      | nil =>
        rw [hq] at hlength
        cases hlength
      | cons id waiting =>
        rw [hq] at hsingle hlength
        have hgoes := Engine.goes_settle he id r.judged
        obtain ⟨n, left, hn, hprocess, hleft, hidle⟩ :=
          @ih { q with readQueue := waiting, readBuffer := rest } (e.settle id r.judged) hgoes.sound
            (fun x hx => (hsingle x (List.mem_cons_of_mem id hx)).follows hgoes.follows)
            (fun s hs => hstatus s (List.mem_cons_of_mem r hs)) (Nat.le_of_succ_le_succ hlength) hrest
        refine ⟨n + 1, left, Nat.succ_le_succ hn, ?_, hleft, hidle⟩
        rw [process_of_reply he.flat hq (hsingle id List.mem_cons_self) (hstatus r List.mem_cons_self)
          hparse, hprocess]
        rfl

end Queue

/-! ## Who has heard what -/

namespace Engine

/-- A callback has heard what this reply to the operation comes to. -/
def Concludes (e : Engine) (id : Nat) (r : RawFrame) : Prop :=
  ∃ n c, e.nature? id = some n ∧ n.work = .single c ∧
    (e.heardOf id).1 = Event.ofReply (c.conclude n.tag r.judged)

/-- Of the operations that have been handed on, the first `k` have had their replies. -/
structure Matched (e : Engine) (handed : List Nat) (reply : Nat → RawFrame) (k : Nat) : Prop where
  ended : ∀ id < e.size, e.isTerminal id = true → e.isCancelled id = true ∨
    ∃ i < k, handed[i]? = some id ∧ e.Concludes id (reply i)
  settled : ∀ i < k, ∀ id, handed[i]? = some id → e.isTerminal id = true

section Matched

variable {e e' : Engine} {handed handed' : List Nat} {reply : Nat → RawFrame} {k : Nat}

/-- Of an operation that has ended nothing more is heard. -/
theorem Concludes.follows {id : Nat} {r : RawFrame} (h : e.Concludes id r) (hfollows : e.Follows e')
    (hend : e.isTerminal id = true) : e'.Concludes id r := by
  obtain ⟨n, c, hn, hc, hheard⟩ := h
  have hid := lt_size_of_nature? hn
  refine ⟨n, c, (hfollows.nature?_eq hid).trans hn, hc, ?_⟩
  obtain ⟨l, hl⟩ := life?_of_lt_size hid
  obtain ⟨l', hl', hlater⟩ := hfollows id l hl
  rw [isTerminal_eq, hl] at hend
  rw [heardOf_of_life? hl] at hheard
  rw [heardOf_of_life? hl', ← hheard]
  exact congrArg Ending.heard (hlater.ending hend)

/-- Nothing ends but by being cancelled. -/
def OnlyCancels (e e' : Engine) : Prop :=
  ∀ id < e'.size, e'.isTerminal id = true →
    (id < e.size ∧ e.isTerminal id = true) ∨ e'.isCancelled id = true

theorem Matched.goes (h : e.Matched handed reply k) (hfollows : e.Follows e')
    (honly : e.OnlyCancels e') (hhanded : handed <+: handed') (hk : k ≤ handed.length)
    (hknown : ∀ id ∈ handed, id < e.size) : e'.Matched handed' reply k := by
  obtain ⟨more, rfl⟩ := hhanded
  have hsame : ∀ i < k, (handed ++ more)[i]? = handed[i]? := fun i hi =>
    List.getElem?_append_left (Nat.lt_of_lt_of_le hi hk)
  refine ⟨fun id hid hend => ?_, fun i hi id hidx => ?_⟩
  · rcases honly id hid hend with ⟨hid, hend⟩ | hcancelled
    · rcases h.ended id hid hend with hcancelled | ⟨i, hi, hidx, hheard⟩
      · exact .inl (isCancelled_of_follows hfollows hcancelled)
      · exact .inr ⟨i, hi, (hsame i hi).trans hidx, hheard.follows hfollows hend⟩
    · exact .inl hcancelled
  · rw [hsame i hi] at hidx
    exact hfollows.isTerminal (hknown id (List.mem_of_getElem? hidx)) (h.settled i hi id hidx)

/-- The next reply ends the next operation and no other. -/
theorem Matched.settle (h : e.Matched handed reply k) (he : e.Sound)
    (hsingle : ∀ id ∈ handed, e.IsSingle id) {id : Nat} (hidx : handed[k]? = some id) :
    (e.settle id (reply k).judged).Matched handed reply (k + 1) := by
  obtain ⟨n, c, hn, hc⟩ := hsingle id (List.mem_of_getElem? hidx)
  obtain ⟨op, hop, rfl⟩ := Option.map_eq_some_iff.1 hn
  have hfollows := (goes_settle he id (reply k).judged).follows
  have hstep := becomes_settle he.flat hop hc (reply k).judged
  have hlife := life?_of_get? hop
  have hlife' := hstep.lives id
  rw [hlife, Option.map_some, among_of_mem (List.mem_singleton_self id)] at hlife'
  refine ⟨fun x hx hend => ?_, fun i hi x hx => ?_⟩
  · rw [hstep.size_eq] at hx
    by_cases hold : e.isTerminal x = true
    · rcases h.ended x hx hold with hcancelled | ⟨i, hi, hidx, hheard⟩
      · exact .inl (isCancelled_of_follows hfollows hcancelled)
      · exact .inr ⟨i, Nat.lt_succ_of_lt hi, hidx, hheard.follows hfollows hold⟩
    · have hxid : x = id := by
        by_contra hne
        refine hold ?_
        rw [isTerminal_eq, hstep.lives x] at hend
        rw [isTerminal_eq]
        cases hl : e.life? x with
        | none => rfl
        | some l =>
          rwa [hl, Option.map_some, among_of_not_mem (by simpa using hne)] at hend
      subst hxid
      refine .inr ⟨k, Nat.lt_succ_self k, hidx, op.nature, c, ?_, hc, ?_⟩
      · rw [hfollows.nature?_eq hx]
        exact hn
      · rw [isTerminal_eq, hlife, Bool.not_eq_true] at hold
        rw [heardOf_of_life? hlife']
        exact Life.heard_settle (he.lives hlife) hold c _
  · rcases Nat.lt_succ_iff_lt_or_eq.1 hi with hi | rfl
    · have hknown := lt_size_of_isSingle (hsingle x (List.mem_of_getElem? hx))
      exact hfollows.isTerminal hknown (h.settled i hi x hx)
    · rw [hidx] at hx
      cases hx
      rw [isTerminal_eq, hlife']
      exact Life.isTerminal_settle c _ _

/-- The next `n` replies end the next `n` operations and no others. -/
theorem Matched.settleAll : ∀ (n : Nat) {e : Engine} {k : Nat}, e.Matched handed reply k → e.Sound →
    (∀ id ∈ handed, e.IsSingle id) → k + n ≤ handed.length →
      (e.settleAll (handed.drop k) ((List.range' k n).map reply)).Matched handed reply (k + n)
  | 0, e, k, h, _, _, _ => by
    rwa [List.range'_zero, List.map_nil, settleAll_nil, Nat.add_zero]
  | n + 1, e, k, h, he, hsingle, hlength => by
    have hk : k < handed.length := by omega
    have hgoes := goes_settle he handed[k] (reply k).judged
    have hnext := h.settle he hsingle (List.getElem?_eq_getElem hk)
    have hrest := hnext.settleAll n hgoes.sound (fun id hid => (hsingle id hid).follows hgoes.follows)
      (by omega)
    rw [List.drop_eq_getElem_cons hk, List.range'_succ, List.map_cons, settleAll_cons]
    rwa [Nat.add_right_comm] at hrest

end Matched

end Engine

end ShardedCache

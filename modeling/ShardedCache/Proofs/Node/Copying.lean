import ShardedCache.Proofs.Node.Steps

/-!
# What packing copies

`Queue.pack` appends to the write buffer pieces of the requests of operations, one after the other.
`Queue.packRecorded` is the same loop with a record of those pieces (`packRecorded_snd`): they are all
that is added to the buffer (`writeBuffer_pack`), and each was written for an operation that was at the
head of the write queue then, and there to be written (`copiedOut_of_mem_copies`).
-/

namespace ShardedCache

/-- Bytes that have been copied into a write buffer, and the operation whose request they are of. -/
structure Piece where
  owner : Nat
  bytes : Bytes
  deriving DecidableEq, Repr

namespace Queue

/-- Packing with a record of what is copied. -/
def packRecorded (q : Queue) (e : Engine) : List Piece × Queue × Engine :=
  if q.writeBuffer.length < q.settings.writeBufferSize then
    match _hq : q.writeQueue with
    | [] => ([], q, e)
    | id :: rest =>
      if !isStarted e id && e.isCancelled id then packRecorded { q with writeQueue := rest } e
      else
        let regrouped := q.regroup e id
        match _hr : regrouped.1.writeQueue with
        | [] => ([], regrouped)
        | head :: rest =>
          let room := q.settings.writeBufferSize - q.writeBuffer.length
          let (filled, copied) := regrouped.2.fill head room
          let q' := { regrouped.1 with writeBuffer := q.writeBuffer ++ copied }
          if (filled.unwritten head).isEmpty then
            let (pieces, result) :=
              packRecorded { q' with writeQueue := rest, readQueue := q'.readQueue ++ [head] }
                (filled.finishWriting head)
            (⟨head, copied⟩ :: pieces, result)
          else ([⟨head, copied⟩], q', filled)
  else ([], q, e)
termination_by q.writeQueue.length
decreasing_by
  · simp [_hq]
  · have h := length_regroup_le q e id
    have hr := congrArg List.length _hr
    simp only [List.length_cons, regrouped] at hr h ⊢
    omega

/-- What packing copies into the write buffer. -/
def copies (q : Queue) (e : Engine) : List Piece := (q.packRecorded e).1

/-- The record makes no difference. -/
theorem packRecorded_snd (q : Queue) (e : Engine) : (q.packRecorded e).2 = q.pack e := by
  fun_induction packRecorded q e with
  | case1 q e hroom hq => exact (pack_of_nil hq e).symm
  | case2 q e hroom id rest hq hskip ih => exact ih.trans (pack_of_drop hroom hq hskip).symm
  | case3 q e hroom id rest hq hdue regrouped hr => exact absurd hr (regroup_ne_nil hq)
  | case4 q e hroom id rest hq hdue regrouped head rest' hr room filled copied heq q' hleft pieces result
      hrec ih =>
    rw [hrec] at ih
    rw [pack_of_write hroom hq hdue hr heq, if_pos hleft]
    exact ih
  | case5 q e hroom id rest hq hdue regrouped head rest' hr room filled copied heq q' hleft =>
    rw [pack_of_write hroom hq hdue hr heq, if_neg hleft]
  | case6 q e hfull =>
    unfold pack
    rw [if_neg hfull]

/-- Packing adds nothing else to the write buffer. -/
theorem writeBuffer_pack (q : Queue) (e : Engine) :
    (q.pack e).1.writeBuffer = q.writeBuffer ++ (q.copies e).flatMap (·.bytes) := by
  rw [← packRecorded_snd, copies]
  fun_induction packRecorded q e with
  | case1 q e hroom hq => exact (List.append_nil _).symm
  | case2 q e hroom id rest hq hskip ih => exact ih
  | case3 q e hroom id rest hq hdue regrouped hr => exact absurd hr (regroup_ne_nil hq)
  | case4 q e hroom id rest hq hdue regrouped head rest' hr room filled copied heq q' hleft pieces result
      hrec ih =>
    rw [hrec] at ih
    refine ih.trans ?_
    simp [q', List.flatMap_cons]
  | case5 q e hroom id rest hq hdue regrouped head rest' hr room filled copied heq q' hleft =>
    simp [q']
  | case6 q e hfull => exact (List.append_nil _).symm

/-- The piece is copied out of the request of the head of the write queue. -/
structure CopiedOut (q : Queue) (e : Engine) (p : Piece) : Prop where
  head : q.writeQueue.head? = some p.owner
  due : IsDue e p.owner
  bytes : p.bytes = (e.fill p.owner (q.settings.writeBufferSize - q.writeBuffer.length)).2

section Round

variable {P : Queue → Engine → Prop} (hstep : ∀ {q e q' e'}, Packing q e q' e' → P q e → P q' e')
  {q : Queue} {e : Engine} {id head : Nat} {rest rest' : List Nat} {filled : Engine} {copied : Bytes}

include hstep

/-- A piece is copied right after regrouping. -/
theorem copiedOut_regroup (hsound : e.Sound) (hq : q.writeQueue = id :: rest) (hnot : ¬(!isStarted e id && e.isCancelled id) = true)
    (hr : (q.regroup e id).1.writeQueue = head :: rest')
    (hfill : (q.regroup e id).2.fill head (q.settings.writeBufferSize - q.writeBuffer.length) =
      (filled, copied)) (h : P q e) :
    P (q.regroup e id).1 (q.regroup e id).2 ∧
      CopiedOut (q.regroup e id).1 (q.regroup e id).2 ⟨head, copied⟩ ∧
      (q.regroup e id).2.Goes filled := by
  have hround := Packing.regroup hq (isDue_of_not hnot)
  have hgoes := (goes_packing hround hsound).1
  have hfilled := Engine.goes_fill hgoes.sound head (q.settings.writeBufferSize - q.writeBuffer.length)
  rw [hfill] at hfilled
  refine ⟨hstep hround h, ⟨?_, isDue_regroup hq (isDue_of_not hnot) hr, ?_⟩, hfilled⟩
  · rw [hr]
    rfl
  · rw [regroup_eq q e id, hfill]

end Round

/-- Whatever every round of packing keeps, holds when a piece is copied. -/
theorem copiedOut_of_mem_copies {P : Queue → Engine → Prop}
    (hstep : ∀ {q e q' e'}, Packing q e q' e' → P q e → P q' e') {q : Queue} {e : Engine}
    (hsound : e.Sound) (h : P q e) :
    ∀ p ∈ q.copies e, ∃ q' e', P q' e' ∧ CopiedOut q' e' p ∧ e'.Goes (q.pack e).2 := by
  unfold copies
  fun_induction packRecorded q e with
  | case1 q e hroom hq => exact List.forall_mem_nil _
  | case2 q e hroom id rest hq hskip ih =>
    rw [pack_of_drop hroom hq hskip]
    simp only [Bool.and_eq_true, Bool.not_eq_true'] at hskip
    exact ih hsound (hstep (.drop hq hskip.1 hskip.2) h)
  | case3 q e hroom id rest hq hdue regrouped hr => exact absurd hr (regroup_ne_nil hq)
  | case4 q e hroom id rest hq hnot regrouped head rest' hr room filled copied heq q' hleft pieces result
      hrec ih =>
    obtain ⟨hregrouped, hwritten, hfilled⟩ := copiedOut_regroup hstep hsound hq hnot hr heq h
    have hfinished := Engine.goes_finishWriting hfilled.sound head
    obtain ⟨hbuffer, hsettings⟩ : regrouped.1.writeBuffer = q.writeBuffer ∧
        regrouped.1.settings = q.settings := by
      constructor <;> rw [regroup_eq q e id]
    have hfill : regrouped.2.fill head (regrouped.1.settings.writeBufferSize -
        regrouped.1.writeBuffer.length) = (filled, copied) := by
      rw [hbuffer, hsettings]
      exact heq
    have hround := Packing.handOn hr hwritten.due (by rwa [hbuffer, hsettings])
      (by rw [hfill]; exact List.isEmpty_iff.1 hleft)
    rw [hfill, hbuffer] at hround
    rw [pack_of_write hroom hq hnot hr heq, if_pos hleft]
    rw [hrec] at ih
    refine List.forall_mem_cons.2 ⟨?_, ih hfinished.sound (hstep hround hregrouped)⟩
    exact ⟨_, _, hregrouped, hwritten, (hfilled.trans hfinished).trans (goes_pack _ hfinished.sound).1⟩
  | case5 q e hroom id rest hq hnot regrouped head rest' hr room filled copied heq q' hleft =>
    obtain ⟨hregrouped, hwritten, hfilled⟩ := copiedOut_regroup hstep hsound hq hnot hr heq h
    rw [pack_of_write hroom hq hnot hr heq, if_neg hleft]
    refine List.forall_mem_singleton.2 ⟨_, _, hregrouped, hwritten, hfilled⟩
  | case6 q e hfull => exact List.forall_mem_nil _

end Queue

end ShardedCache

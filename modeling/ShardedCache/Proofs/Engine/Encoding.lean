import ShardedCache.Proofs.Engine.Acts

/-!
# Requests are encoded once

An operation keeps the request that has been encoded for it until that is written or given up. Nothing ever
puts other bytes in its place: in whatever state an engine is (`Engine.Reachable`), a request that an
operation for one command keeps is the request of that command (`Engine.Reachable.encoded`).
-/

namespace ShardedCache

open Wire (Status Frame)

/-- The request that an operation for one command keeps is that of the command. -/
def Operation.Encoded (op : Operation) : Prop :=
  ∀ c r, op.work = .single c → op.request = some r → r.bytes = (c.request op.tag).encode

namespace Engine

def Encoded (e : Engine) : Prop := ∀ id op, e.get? id = some op → op.Encoded

/-! ## One change -/

namespace Encoded

variable {e e' : Engine}

theorem congr (h : e.Encoded) (heq : e'.operations = e.operations) : e'.Encoded := by
  intro id op hop
  rw [get?, heq] at hop
  exact h id op hop

theorem modify (h : e.Encoded) (id : Nat) {f : Operation → Operation}
    (hf : ∀ op, e.get? id = some op → op.Encoded → (f op).Encoded) : (e.modify id f).Encoded := by
  intro j op hop
  rw [get?_modify] at hop
  split at hop
  · next hid =>
    obtain ⟨before, hbefore, rfl⟩ := Option.map_eq_some_iff.1 hop
    exact hf before (hid ▸ hbefore) (h j before hbefore)
  · exact h j op hop

/-- A change of something else than the request. -/
theorem modify_of_same (h : e.Encoded) (id : Nat) {f : Operation → Operation}
    (hf : ∀ op, (f op).tag = op.tag ∧ (f op).work = op.work ∧ (f op).request = op.request) :
    (e.modify id f).Encoded :=
  h.modify id fun op _ hop c r hwork hr => by
    obtain ⟨htag, hsame, hrequest⟩ := hf op
    rw [htag]
    exact hop c r (hsame ▸ hwork) (hrequest ▸ hr)

theorem each {f : Engine → Nat → Engine} (hf : ∀ e m, e.Encoded → (f e m).Encoded) :
    ∀ (ids : List Nat) {e : Engine}, e.Encoded → (e.each ids f).Encoded
  | [], _, h => h
  | m :: ids, e, h => each hf ids (hf e m h)

theorem advance (h : e.Encoded) (id : Nat) (next : Phase) : (e.advance id next).1.Encoded := by
  unfold Engine.advance
  split
  · split
    · exact h.modify_of_same id fun _ => ⟨rfl, rfl, rfl⟩
    · exact h
  · exact h

/-! ## Writing -/

theorem prepare (h : e.Encoded) (id : Nat) : (e.prepare id).Encoded := by
  unfold Engine.prepare
  split
  · next op hop =>
    split
    · exact h
    · refine h.modify id fun op' hop' _ c r hwork hr => ?_
      cases hop.symm.trans hop'
      cases hr
      change e.encode op = _
      have hwork : op.work = .single c := hwork
      rw [encode, hwork]
  · exact h

theorem count (h : e.Encoded) (id n : Nat) : (e.count id n).Encoded :=
  h.modify id fun op _ hop c r hwork hr => by
    obtain ⟨before, hbefore, rfl⟩ := Option.map_eq_some_iff.1 hr
    exact hop c before hwork hbefore

theorem advanceMembers (h : e.Encoded) (id : Nat) (next : Phase) :
    (e.advanceMembers id next).Encoded := each (fun _ m h => h.advance m next) _ h

theorem fill (h : e.Encoded) (id room : Nat) : (e.fill id room).1.Encoded := by
  have hcounted := (h.prepare id).count id (((e.prepare id).unwritten id).take room).length
  have hadvanced := hcounted.advance id .writing
  unfold Engine.fill
  dsimp only
  split
  · exact hcounted
  · split
    · next heq =>
      rw [heq] at hadvanced
      exact hadvanced.advanceMembers id .writing
    · next heq =>
      rw [heq] at hadvanced
      exact hadvanced

theorem finishWriting (h : e.Encoded) (id : Nat) : (e.finishWriting id).Encoded := by
  have hadvanced := h.advance id .reading
  unfold Engine.finishWriting
  split
  · next heq =>
    rw [heq] at hadvanced
    exact hadvanced.advanceMembers id .reading
  · next heq =>
    rw [heq] at hadvanced
    split
    · exact hadvanced.modify id fun _ _ _ _ _ _ hr => by cases hr
    · exact hadvanced

theorem resetTo : ∀ (depth : Nat) {e : Engine} (id : Nat), e.Encoded → (resetTo depth e id).Encoded
  | 0, _, _, h => h
  | depth + 1, e, id, h => by
    unfold Engine.resetTo
    split
    · split
      · refine each (fun _ m h => resetTo depth m h) _ (h.modify id fun op _ hop c r hwork hr => ?_)
        obtain ⟨before, hbefore, rfl⟩ := Option.map_eq_some_iff.1 hr
        exact hop c before hwork hbefore
      · exact h
    · exact h

/-! ## Ending -/

theorem deliver (h : e.Encoded) (id : Nat) (status : Status) : (e.deliver id status).Encoded := by
  unfold Engine.deliver
  split
  · exact h
  · split
    · exact h
    · have hkept : (e.modify id fun op => { op with
          status := some status, request := op.request.filter (·.inFlight) }).Encoded :=
        h.modify id fun op _ hop c r hwork hr => hop c r hwork (Option.filter_eq_some_iff.1 hr).1
      exact hkept.congr rfl

theorem deliverPayload (h : e.Encoded) (id : Nat) (payload : Payload) :
    (e.deliverPayload id payload).Encoded := by
  unfold Engine.deliverPayload
  split
  · split
    · exact h
    · exact h.congr rfl
  · exact h

theorem complete (h : e.Encoded) (id : Nat) (status : Status) : (e.complete id status).Encoded := by
  have hadvanced := h.advance id .complete
  unfold Engine.complete
  split
  · next op advanced _ heq =>
    rw [heq] at hadvanced
    have hcounted : Encoded { advanced with
        metrics := advanced.metrics.recordCompletion op.kind status } := hadvanced.congr rfl
    exact hcounted.deliver id status
  · exact h

theorem failTo : ∀ (depth : Nat) {e : Engine} (id : Nat) (error : ProtocolError), e.Encoded →
    (failTo depth e id error).Encoded
  | 0, _, _, _, h => h
  | depth + 1, e, id, error, h => by
    have hmembers : (e.each (e.members id) fun e m =>
        if e.isTerminal m then e else Engine.failTo depth e m error).Encoded := by
      refine each (fun e m h => ?_) _ h
      split
      · exact h
      · exact failTo depth m error h
    exact (hmembers.modify_of_same id (f := ({ · with error := some error }))
      fun _ => ⟨rfl, rfl, rfl⟩).complete id _

theorem cancelTo : ∀ (depth : Nat) {e : Engine} (id : Nat) (cause : String), e.Encoded →
    (cancelTo depth e id cause).Encoded
  | 0, _, _, _, h => h
  | depth + 1, e, id, cause, h => by
    have hadvanced := h.advance id .cancelled
    unfold Engine.cancelTo
    split
    · next heq =>
      rw [heq] at hadvanced
      exact hadvanced
    · next advanced heq =>
      rw [heq] at hadvanced
      have hmarked := hadvanced.modify_of_same id (f := ({ · with cancelCause := some cause }))
        fun _ => ⟨rfl, rfl, rfl⟩
      refine deliver ?_ id _
      exact (each (fun _ m h => cancelTo depth m cause h) _ hmarked).congr rfl

/-! ## Responses -/

theorem refuse (h : e.Encoded) (id : Nat) (status : UInt16) (error : ProtocolError) :
    (e.refuse id status error).1.Encoded := by
  have hlogged : (e.logRejection id error.message).Encoded := by
    unfold logRejection
    split
    · exact h.congr rfl
    · exact h
  unfold Engine.refuse
  split
  · exact hlogged.failTo _ id error
  · exact h.failTo _ id error

theorem settleMembers (h : e.Encoded) (b : Batch) : (e.settleMembers b).Encoded := by
  refine each (fun e m h => ?_) _ h
  split
  · exact h
  · exact h.complete m _

theorem receiveTo : ∀ (depth : Nat) {e : Engine} (id : Nat) (f : Frame), e.Encoded →
    (receiveTo depth e id f).1.Encoded
  | 0, _, _, _, h => h
  | depth + 1, e, id, f, h => by
    unfold Engine.receiveTo
    split
    · exact h
    · split
      · split
        · exact h.refuse id _ _
        · refine complete ?_ id _
          split
          · exact h.deliverPayload id _
          · exact h
      · split
        · exact (h.settleMembers _).complete id _
        · split
          · exact h
          · next m _ =>
            have hmember := receiveTo depth m f h
            split
            · next heq =>
              rw [heq] at hmember
              exact hmember.refuse id _ _
            · next heq =>
              rw [heq] at hmember
              exact hmember

/-! ## Making and joining -/

theorem listen (h : e.Encoded) (id : Nat) (listener : Callback) : (e.listen id listener).1.Encoded := by
  unfold Engine.listen
  split
  · split
    · exact h
    · exact h.modify_of_same id fun _ => ⟨rfl, rfl, rfl⟩
  · exact h

theorem join (h : e.Encoded) (multiplexer : Callback) (member : Nat) :
    (join multiplexer e member).Encoded := by
  have hlistening := h.listen member multiplexer
  unfold Engine.join
  split
  · next heq =>
    rw [heq] at hlistening
    exact hlistening
  · next heq =>
    rw [heq] at hlistening
    exact hlistening.congr rfl

theorem add (h : e.Encoded) (work : Work) (idempotent : Bool) (callback : Callback) :
    (e.add work idempotent callback).1.Encoded := by
  intro id op hop
  rw [get?_add] at hop
  split at hop
  · cases hop
    intro _ _ _ hr
    cases hr
  · exact h id op hop

theorem batch (h : e.Encoded) (family : BatchFamily) (members : List Nat) (aggregate : Callback) :
    (e.batch family members aggregate).1.Encoded := by
  obtain ⟨multiplexer, idempotent, hbatch⟩ := batch_eq e family members aggregate
  have hjoined : (e.joined members aggregate).Encoded := by
    unfold joined
    refine each (fun _ m h => h.join _ m) members ?_
    exact h.congr rfl
  rw [hbatch]
  exact hjoined.add _ idempotent .silent

theorem act (h : e.Encoded) (a : Act) : (e.act a).Encoded := by
  cases a with
  | create command callback => exact h.add _ _ callback
  | batch family members aggregate => exact h.batch family members aggregate
  | listen id listener => exact h.listen id listener
  | fill id room => exact h.fill id room
  | finishWriting id => exact h.finishWriting id
  | reset id => exact h.resetTo _ id
  | receive id f => exact h.receiveTo _ id f
  | fail id error => exact h.failTo _ id error
  | complete id status => exact h.complete id status
  | cancel id cause => exact h.cancelTo _ id cause

end Encoded

/-! ## Every state -/

/-- The states of an engine: operations are made, joined, written, answered and ended in any order, and
whatever else is noted about them may change at any time. -/
inductive Reachable : Engine → Prop where
  | start {e : Engine} (h : e.Initial) : Reachable e
  | act {e : Engine} (h : Reachable e) (a : Act) : Reachable (e.act a)
  /-- An operation is handed to a node, or a wait for it runs out of time. -/
  | note {e : Engine} (h : Reachable e) (id : Nat) {f : Operation → Operation}
    (hf : ∀ op, ∃ timedOut node, f op = { op with timedOut, node }) : Reachable (e.modify id f)
  | aside {e e' : Engine} (h : Reachable e) (hsame : e'.operations = e.operations) : Reachable e'

/-- No act, and nothing that is noted, puts another request in the place of one that has been encoded. -/
theorem Reachable.encoded {e : Engine} (h : e.Reachable) : e.Encoded := by
  induction h with
  | start h =>
    intro id op hop
    rw [get?, h.operations] at hop
    cases hop
  | act _ a ih => exact ih.act a
  | note _ id hf ih =>
    refine ih.modify_of_same id fun op => ?_
    obtain ⟨timedOut, node, heq⟩ := hf op
    rw [heq]
    exact ⟨rfl, rfl, rfl⟩
  | aside _ hsame ih => exact ih.congr hsame

end Engine

end ShardedCache

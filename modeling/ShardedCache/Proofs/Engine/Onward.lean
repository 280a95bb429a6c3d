import ShardedCache.Proofs.Engine.Reach

/-!
# There is no way back

A request that has been written in full, or whose operation has ended, is never again one that has
to be written: no step of the engine leads back from there (`Engine.Onward`). Starting over is for
requests that have not been written in full.
-/

namespace ShardedCache

open Wire (Frame)

namespace Life

/-- The request still has to be written only if it had to be before. -/
def Onward (l l' : Life) : Prop :=
  l'.operation.isUnwritten = true → l.operation.isUnwritten = true

theorem Onward.refl (l : Life) : l.Onward l := id

theorem isUnwritten_of_isTerminal {l : Life} (h : l.isTerminal = true) :
    l.operation.isUnwritten = false := by
  rw [isTerminal, Operation.isTerminal] at h
  rw [Operation.isUnwritten]
  cases hp : l.operation.phase <;> rw [hp] at h <;> first | rfl | cases h

theorem onward_of_isTerminal (l : Life) {l' : Life} (h : l'.isTerminal = true) : l.Onward l' := by
  rw [Onward, isUnwritten_of_isTerminal h]
  exact fun hwaits => by cases hwaits

/-- Whoever moves on to wait for a response has nothing left to write. -/
theorem isUnwritten_moveTo_reading (l : Life) : (l.moveTo .reading).operation.isUnwritten = false := by
  unfold moveTo
  split
  · rfl
  · next hmay =>
    cases hp : l.operation.phase <;> rw [hp] at hmay <;>
      first | exact absurd rfl hmay | simp [Operation.isUnwritten, hp]

theorem isUnwritten_handOn (l : Life) : l.handOn.operation.isUnwritten = false := by
  cases hend : l.isTerminal with
  | true => exact isUnwritten_of_isTerminal (isTerminal_handOn l ▸ hend)
  | false => rw [handOn_of_open hend, isUnwritten_moveTo_reading]

theorem onward_among {g : Life → Life} (hg : ∀ l : Life, l.Onward (g l)) (ids : List Nat) (id : Nat)
    {l l' : Life} (h : l.Onward l') : l.Onward (Engine.among ids g id l') := by
  unfold Engine.among
  split
  · exact fun hwaits => h (hg l' hwaits)
  · exact h

end Life

namespace Engine

/-- No operation that is known has come back to where it has to be written. -/
def Onward (e e' : Engine) : Prop :=
  ∀ id < e.size, e'.isUnwritten id = true → e.isUnwritten id = true

theorem Onward.refl (e : Engine) : e.Onward e := fun _ _ h => h

theorem Onward.trans {e e' e'' : Engine} (h : e.Onward e') (h' : e'.Onward e'')
    (hsize : e.size ≤ e'.size) : e.Onward e'' :=
  fun id hid hwaits => h id hid (h' id (Nat.lt_of_lt_of_le hid hsize) hwaits)

theorem Becomes.onward {e e' : Engine} {g : Nat → Life → Life} (h : e.Becomes g e')
    (hg : ∀ id (l : Life), l.Onward (g id l)) : e.Onward e' := by
  intro id _ hwaits
  rw [isUnwritten_eq, h.lives id] at hwaits
  rw [isUnwritten_eq]
  cases hl : e.life? id with
  | none => rw [hl] at hwaits; cases hwaits
  | some l =>
    rw [hl, Option.map_some, Option.any_some] at hwaits
    exact hg id l hwaits

theorem Onward.of_level {e e' : Engine} (h : ∀ id, e'.isUnwritten id = e.isUnwritten id) :
    e.Onward e' := fun id _ hwaits => (h id).symm.trans hwaits

theorem isUnwritten_of_isTerminal {e : Engine} {id : Nat} (h : e.isTerminal id = true) :
    e.isUnwritten id = false := by
  cases hw : e.isUnwritten id with
  | false => rfl
  | true => rw [isTerminal_of_isUnwritten hw] at h; cases h

section Steps

variable {e : Engine} (hflat : e.Flat) (id : Nat)

include hflat

theorem onward_cancel (cause : String) : e.Onward (e.cancel id cause).1 := by
  refine (becomes_cancel hflat id cause).onward fun j l => ?_
  split
  · exact .refl l
  · exact Life.onward_among (fun l => Life.onward_of_isTerminal l (Life.isTerminal_cancel cause l)) _ j
      (.refl l)

theorem onward_fail (error : ProtocolError) : e.Onward (e.fail id error) := by
  refine (becomes_fail hflat id error).onward fun j l => ?_
  refine Life.onward_among (fun l => Life.onward_of_isTerminal l (Life.isTerminal_fail error l)) _ j ?_
  exact Life.onward_among (fun l => Life.onward_of_isTerminal l (Life.isTerminal_failOpen error l)) _ j
    (.refl l)

/-- A frame ends operations or leaves them alone. -/
theorem onward_receive (f : Frame) : e.Onward (e.receive id f).1 := by
  obtain ⟨g, hg, hstep⟩ := becomes_receive hflat id f
  generalize (e.receive id f).2 = outcome at hg
  have hanswer : ∀ (c : Command) (l : Life), l.Onward (l.answer c f) := fun c l =>
    Life.onward_of_isTerminal l (Life.isTerminal_answer c f l)
  have hcomplete : ∀ (s : Wire.Status) (l : Life), l.Onward (l.complete s) := fun s l =>
    Life.onward_of_isTerminal l (Life.isTerminal_complete s l)
  refine hstep.onward fun j l => ?_
  cases hg with
  | idle => exact .refl l
  | single hop hc => exact Life.onward_among (hanswer _) _ j (.refl l)
  | sentinel hop hb htag =>
    exact Life.onward_among (hcomplete _) _ j (Life.onward_among (hcomplete _) _ j (.refl l))
  | member hop hb hm hmember hc => exact Life.onward_among (hanswer _) _ j (.refl l)
  | fatal hop hb hm hmember hc error =>
    refine Life.onward_among (fun l => Life.onward_of_isTerminal l (Life.isTerminal_fail error l)) _ j ?_
    refine Life.onward_among (fun l => Life.onward_of_isTerminal l (Life.isTerminal_failOpen error l)) _ j ?_
    exact Life.onward_among (hanswer _) _ j (.refl l)

theorem onward_finishWriting : e.Onward (e.finishWriting id) := by
  cases hop : e.get? id with
  | none =>
    have hstep : e.finishWriting id = e := by simp [finishWriting, advance, hop, modify_of_none hop]
    rw [hstep]
    exact .refl e
  | some op =>
    have hmove : ∀ l : Life, l.Onward (l.moveTo .reading) := fun l hwaits => by
      rw [Life.isUnwritten_moveTo_reading] at hwaits
      cases hwaits
    have hhand : ∀ l : Life, l.Onward l.handOn := fun l hwaits => by
      rw [Life.isUnwritten_handOn] at hwaits
      cases hwaits
    exact (becomes_finishWriting hflat hop).onward fun j l =>
      Life.onward_among hmove _ j (Life.onward_among hhand _ j (.refl l))

end Steps

/-- Nothing is left to write of an operation that is handed on, nor of its members. -/
theorem isUnwritten_finishWriting {e : Engine} (he : e.Sound) {id : Nat}
    (hwaits : e.isUnwritten id = true ∨ e.isCancelled id = true) {j : Nat}
    (hj : j ∈ id :: e.members id) : (e.finishWriting id).isUnwritten j = false := by
  have hflat := he.flat
  cases hop : e.get? id with
  | none =>
    have hnone : e.members id = [] := by rw [members, hop]; rfl
    rw [hnone, List.mem_singleton] at hj
    have hstep : e.finishWriting id = e := by simp [finishWriting, advance, hop, modify_of_none hop]
    rw [hstep, hj, isUnwritten, hop]
    rfl
  | some op =>
    have hlife := (becomes_finishWriting hflat hop).lives j
    rw [isUnwritten_eq, hlife]
    cases hl : e.life? j with
    | none => rfl
    | some l =>
      rw [Option.map_some, Option.any_some]
      by_cases hmay : op.phase.mayBecome .reading
      · rw [if_pos hmay]
        rcases List.mem_cons.1 hj with rfl | hm
        · rw [among_of_mem (List.mem_singleton_self j), among_of_not_mem fun hself =>
            Nat.lt_irrefl j (hflat j j hself).1]
          exact Life.isUnwritten_handOn l
        · rw [among_of_mem hm]
          exact Life.isUnwritten_moveTo_reading _
      · have hend : e.isTerminal id = true := by
          rcases hwaits with hw | hc
          · rcases (isUnwritten_of_get? hop).1 hw with hp | hp <;> rw [hp] at hmay <;>
              exact absurd rfl hmay
          · have hphase : op.phase = .cancelled := by
              simpa [isCancelled, hop, Operation.isCancelled] using hc
            rw [isTerminal, hop, Option.map_some, Option.getD_some, Operation.isTerminal, hphase]
            rfl
        rw [if_neg hmay, among_of_not_mem List.not_mem_nil]
        rcases List.mem_cons.1 hj with rfl | hm
        · rw [among_of_mem (List.mem_singleton_self j)]
          exact Life.isUnwritten_handOn l
        · have hmember := isUnwritten_of_isTerminal (he.settled hend j hm)
          rw [isUnwritten_eq, hl, Option.any_some] at hmember
          rw [among_of_not_mem]
          · exact hmember
          · rw [List.mem_singleton]
            rintro rfl
            exact Nat.lt_irrefl j (hflat j j hm).1

end Engine

end ShardedCache

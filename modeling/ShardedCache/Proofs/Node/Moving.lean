import ShardedCache.Proofs.Engine.Moves
import ShardedCache.Proofs.Node.Custody

/-!
# Queues only move engines

Whatever the queues of a node do to an engine is made of moves, and none of it lets go of an operation
that has not ended (`Queue.Advances`). A node that has been destroyed holds nothing.
-/

namespace ShardedCache

open Engine (Proper Moves)

namespace Queue

variable {since : Outline} {q q' q'' : Queue} {e e' e'' : Engine}

/-- The queues have gone on, and are open to submissions as before. -/
structure Advances (since : Outline) (q : Queue) (e : Engine) (q' : Queue) (e' : Engine) : Prop where
  moves : e.Moves since e'
  closed : q'.closed = q.closed
  custody : ∀ {accepted}, Custody accepted q e → Custody accepted q' e'

namespace Advances

theorem refl (q : Queue) (e : Engine) : Advances since q e q e := ⟨Moves.refl e, rfl, fun h => h⟩

theorem trans (h : Advances since q e q' e') (h' : Advances since q' e' q'' e'') :
    Advances since q e q'' e'' :=
  ⟨h.moves.trans h'.moves, h'.closed.trans h.closed, fun hcustody => h'.custody (h.custody hcustody)⟩

end Advances

/-! ## Writing -/

theorem lapsed_of_fits {family : BatchFamily} {id : Nat} (h : fits e family id) :
    e.lapsed id = false := by
  obtain ⟨op, hop, hfits⟩ := (Option.any_eq_true _ _).1 h
  simp only [Bool.and_eq_true, Bool.not_eq_true', beq_iff_eq] at hfits
  rw [Engine.lapsed, hop, Option.any_some, Operation.lapsed, hfits.1.2, Bool.false_and]

theorem IsDue.lapsed {id : Nat} (h : IsDue e id) : e.lapsed id = false := by
  cases hop : e.get? id with
  | none => rw [Engine.lapsed, hop, Option.any_none]
  | some op =>
    rw [Engine.lapsed, hop, Option.any_some, Operation.lapsed]
    rcases h with hstarted | hopen
    · rw [isStarted, hop, Option.any_some] at hstarted
      simp [hstarted]
    · rw [Engine.isCancelled, hop] at hopen
      simp only [Option.map_some, Option.getD_some] at hopen
      simp [hopen]

theorem moves_fill (he : e.Proper) {id : Nat} (hdue : IsDue e id) (room : Nat) :
    e.Moves since (e.fill id room).1 :=
  Engine.moves_act (a := .fill id room) he trivial fun _ _ heq => by
    cases heq
    exact hdue.lapsed

section Since

variable (he : e.Proper) (hsince : since.multiplexers ≤ e.reports.outline.multiplexers)

include he hsince

theorem moves_optimize (q : Queue) : e.Moves since (q.optimize e).2 := by
  unfold optimize
  split
  · exact Moves.refl e
  · next family _ =>
    dsimp only
    split
    · exact Moves.refl e
    · obtain ⟨n, hcount, hrun⟩ := runLength_spec q.settings e family q.writeQueue 0 0
      have hsingle : ∀ id ∈ q.writeQueue.take (runLength q.settings e family 0 0 q.writeQueue),
          e.IsSingle id := fun id hid => by
        rw [hcount, Nat.zero_add] at hid
        exact isSingle_of_fits (hrun.fits id hid)
      have hopen : ∀ id ∈ q.writeQueue.take (runLength q.settings e family 0 0 q.writeQueue),
          e.lapsed id = false := fun id hid => by
        rw [hcount, Nat.zero_add] at hid
        exact lapsed_of_fits (hrun.fits id hid)
      have hbatch := Engine.moves_batch he hsince family hsingle hopen
      refine hbatch.trans ?_
      have hbatched := he.moves hbatch
      have hassign := fun id => @Engine.moves_modify since _ hbatched id
        ({ · with node := some q.node }) fun op => ⟨rfl, rfl, rfl, rfl, rfl, rfl, rfl⟩
      exact (hassign _).trans (Engine.moves_record (hbatched.moves (hassign _)) _ _)

theorem moves_packing (hstep : Packing q e q' e') : e.Moves since e' := by
  cases hstep with
  | drop _ _ _ => exact Moves.refl e
  | @regroup id _ _ _ =>
    rcases regroup_cases q e id with heq | ⟨-, heq⟩
    · rw [heq]
      exact Moves.refl e
    · rw [heq]
      exact moves_optimize he hsince q
  | @fill id _ _ hdue _ _ => exact moves_fill he hdue _
  | @handOn id _ _ hdue _ _ =>
    have hfill : e.Moves since
        (e.fill id (q.settings.writeBufferSize - q.writeBuffer.length)).1 := moves_fill he hdue _
    exact hfill.trans (Engine.moves_act (a := .finishWriting id) (he.moves hfill) trivial
      fun _ _ heq => by cases heq)

theorem advances_packing (hstep : Packing q e q' e') : Advances since q e q' e' where
  moves := moves_packing he hsince hstep
  closed := by
    cases hstep with
    | @regroup id _ _ _ => rw [regroup_eq]
    | _ => rfl
  custody := custody_packing hstep

theorem advances_pack (q : Queue) : Advances since q e (q.pack e).1 (q.pack e).2 := by
  refine pack_induction (P := fun q' e' => Advances since q e q' e') (fun hstep hadvances => ?_) q e
    (Advances.refl q e)
  exact hadvances.trans (advances_packing (he.moves hadvances.moves)
    (Nat.le_trans hsince hadvances.moves.grows.multiplexers) hstep)

end Since

theorem advances_copyInput (q : Queue) (e : Engine) : Advances since q e (q.copyInput e).1 e :=
  ⟨Moves.refl e, rfl, custody_copyInput⟩

theorem advances_takeWritten (q : Queue) (e : Engine) (n : Nat) :
    Advances since q e (q.takeWritten n).1 e :=
  ⟨Moves.refl e, rfl, fun h => h.goes (Engine.Goes.refl h.sound) rfl rfl⟩

theorem advances_appendRead (q : Queue) (e : Engine) (bytes : Bytes) :
    Advances since q e (q.appendRead bytes) e :=
  ⟨Moves.refl e, rfl, fun h => h.goes (Engine.Goes.refl h.sound) rfl rfl⟩

/-! ## Reading -/

theorem advances_processing (he : e.Proper) (hstep : Processing q e q' e') :
    Advances since q e q' e' where
  moves := by
    cases hstep with
    | stray _ _ => exact Moves.refl e
    | @pending f _ id _ _ _ _ => exact Engine.moves_act (a := .receive id f) he trivial fun _ _ heq => by cases heq
    | @last f _ id _ _ _ _ => exact Engine.moves_act (a := .receive id f) he trivial fun _ _ heq => by cases heq
    | strayFault _ _ => exact Moves.refl e
    | @fault fault _ id _ _ _ => exact Engine.moves_act (a := .fail id _) he trivial fun _ _ heq => by cases heq
  closed := by cases hstep <;> rfl
  custody := custody_processing hstep

theorem advances_process (q : Queue) (he : e.Proper) :
    Advances since q e (q.process e).1 (q.process e).2.1 := by
  refine process_induction (P := fun q' e' => Advances since q e q' e') (fun hstep hadvances => ?_) q e
    (Advances.refl q e)
  exact hadvances.trans (advances_processing (he.moves hadvances.moves) hstep)

/-! ## Faults and the end -/

theorem moves_cancelEach (he : e.Proper) (ids : List Nat) (cause : String) :
    e.Moves since (cancelEach e ids cause) :=
  Engine.moves_each (fun id he => Engine.moves_cancel he id cause) ids he

theorem advances_resend (he : e.Proper) (q : Queue) (cause : String) :
    Advances since q e (q.resend e cause).1 (q.resend e cause).2 where
  moves := by
    have hcancel : e.Moves since (cancelEach e q.readQueue cause) :=
      moves_cancelEach he q.readQueue cause
    have hlater := he.moves hcancel
    unfold resend
    dsimp only
    split
    · exact hcancel
    · next id rest _ =>
      split
      · exact hcancel
      · split
        · exact hcancel.trans (Engine.moves_act (a := .reset id) hlater trivial fun _ _ heq => by cases heq)
        · exact hcancel.trans (Engine.moves_cancel hlater id cause)
  closed := rfl
  custody h := custody_resend h cause

end Queue

end ShardedCache

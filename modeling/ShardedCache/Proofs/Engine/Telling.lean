import ShardedCache.Proofs.Engine.Life

/-!
# Who tells whom

Whatever an engine does to the tables of reports, it does by telling callbacks events
(`Reports.Says`). So what is in the journal, in a completion or on a latch afterwards follows from
who was allowed to tell whom.
-/

namespace ShardedCache

/-- An event told to this callback may reach the completion. -/
def Callback.leadsTo (completion : Nat) : Callback → Bool
  | .silent | .record _ | .shard _ _ _ => false
  | .completion id => id == completion
  | .multiplex _ aggregate => aggregate.leadsTo completion

namespace Reports

/-! ## One event -/

/-- An event is entered in the journal, and all that is entered besides comes from
multiplexers. -/
theorem mem_journal_tell {t : Teller} {r : Reports} {receiver : Callback} {event : Event}
    {d : Delivery} (hd : d ∈ (r.tell t receiver event).journal) :
    d ∈ r.journal ∨ (∃ id, d.teller = .multiplexer id) ∨ d.teller = t ∧ d.receiver = receiver := by
  revert hd
  refine tell_induction (P := fun r' => d ∈ r'.journal →
      d ∈ r.journal ∨ (∃ id, d.teller = .multiplexer id) ∨ d.teller = t ∧ d.receiver = receiver)
    (fun _ _ _ h hd => h (by simpa using hd)) (fun _ _ _ _ h hd => h (by simpa using hd))
    (fun _ _ _ _ h => h) (fun id _ _ _ h hd => ?_) (fun hd => ?_)
  · rcases List.mem_cons.1 hd with rfl | hd
    · exact .inr (.inl ⟨id, rfl⟩)
    · exact h hd
  · rcases List.mem_cons.1 hd with rfl | hd
    · exact .inr (.inr ⟨rfl, rfl⟩)
    · exact .inl hd

theorem latchCount_countDown_le (r : Reports) (latch l : Nat) :
    (r.countDown latch).latchCount l ≤ r.latchCount l := by
  simp only [latchCount, countDown, List.getD_eq_getElem?_getD, List.getElem?_modify]
  split
  · cases r.latches[l]? <;> simp
  · exact Nat.le_of_eq (by simp)

/-- Latches are counted down only. -/
theorem latchCount_tell_le (r : Reports) (t : Teller) (receiver : Callback) (event : Event)
    (l : Nat) : (r.tell t receiver event).latchCount l ≤ r.latchCount l := by
  refine tell_induction (P := fun r' => r'.latchCount l ≤ r.latchCount l)
    (fun _ event _ h => ?_) (fun _ _ _ event h => ?_) (fun _ _ _ _ h => h) (fun _ _ _ _ h => h)
    (Nat.le_refl _)
  · cases event with
    | payload p => exact h
    | status s => exact h
    | finished => exact Nat.le_trans (latchCount_countDown_le _ _ l) h
  · cases event with
    | payload p => cases p <;> exact h
    | status s =>
      simp only [tellShard]
      split <;> exact h
    | finished => exact Nat.le_trans (latchCount_countDown_le _ _ l) h

theorem leadsTo_of_behind {k : Nat} {receiver : Callback}
    (h : (Callback.completion k).Behind receiver) : receiver.leadsTo k = true := by
  induction h with
  | self => simp [Callback.leadsTo]
  | multiplex id _ ih => exact ih

/-- A completion hears only what leads to it. -/
theorem completion_tell {receiver : Callback} {k : Nat} (h : receiver.leadsTo k = false)
    (r : Reports) (t : Teller) (event : Event) :
    (r.tell t receiver event).completion k = r.completion k := by
  refine tell_induction (P := fun r' => r'.completion k = r.completion k)
    (fun id event hbehind hr => ?_) (fun _ _ _ event hr => ?_) (fun _ _ _ _ hr => hr)
    (fun _ _ _ _ hr => hr) rfl
  · have hne : id ≠ k := by
      rintro rfl
      simp [leadsTo_of_behind hbehind] at h
    rw [← hr]
    cases event <;> simp [tellCompletion, completion, modifyCompletion, countDown, hne]
  · cases event with
    | payload p => cases p <;> exact hr
    | status s =>
      simp only [tellShard]
      split <;> exact hr
    | finished => exact hr

/-! ## Any number of events -/

/-- Callbacks have been told events, by those who may tell them. -/
inductive Says (may : Teller → Callback → Prop) (r : Reports) : Reports → Prop where
  | nothing : Says may r r
  | tell {r' : Reports} {t : Teller} {receiver : Callback} (h : Says may r r')
    (hmay : may t receiver) (event : Event) : Says may r (r'.tell t receiver event)

variable {may may' : Teller → Callback → Prop} {r r' r'' : Reports}

theorem Says.mono (h : Says may r r') (hmay : ∀ t receiver, may t receiver → may' t receiver) :
    Says may' r r' := by
  induction h with
  | nothing => exact .nothing
  | tell _ ht event ih => exact ih.tell (hmay _ _ ht) event

theorem Says.trans (h : Says may r r') (h' : Says may r' r'') : Says may r r'' := by
  induction h' with
  | nothing => exact h
  | tell _ ht event ih => exact ih.tell ht event

theorem Says.conclude {t : Teller} {receiver : Callback} (h : Says may r r') (hmay : may t receiver)
    (status : Wire.Status) : Says may r (r'.conclude t receiver status) :=
  (h.tell hmay _).tell hmay _

theorem Says.mem_journal (h : Says may r r') {d : Delivery} (hd : d ∈ r'.journal) :
    d ∈ r.journal ∨ (∃ id, d.teller = .multiplexer id) ∨ may d.teller d.receiver := by
  induction h with
  | nothing => exact .inl hd
  | tell _ hmay event ih =>
    rcases mem_journal_tell hd with hd | hd | ⟨ht, hr⟩
    · exact ih hd
    · exact .inr (.inl hd)
    · rw [ht, hr]
      exact .inr (.inr hmay)

/-- A latch that is open stays open. -/
theorem Says.isOpen (h : Says may r r') {latch : Nat} (hopen : r.isOpen latch) :
    r'.isOpen latch := by
  induction h with
  | nothing => exact hopen
  | @tell r' t receiver _ _ event ih =>
    have hcount : r'.latchCount latch = 0 := by simpa [Reports.isOpen] using ih
    have hle := latchCount_tell_le r' t receiver event latch
    have hzero : (r'.tell t receiver event).latchCount latch = 0 := by omega
    simp [Reports.isOpen, hzero]

theorem Says.completion_eq (h : Says may r r') {k : Nat}
    (hmay : ∀ t receiver, may t receiver → receiver.leadsTo k = false) :
    r'.completion k = r.completion k := by
  induction h with
  | nothing => rfl
  | tell _ ht event ih => rw [completion_tell (hmay _ _ ht), ih]

end Reports

end ShardedCache

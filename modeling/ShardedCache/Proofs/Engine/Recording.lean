import ShardedCache.Proofs.Engine.Moves

/-!
# What completions and operations stand by

Whatever happens to an engine, a completion is what it makes of the events that it has been told
(`Reports.Recorded`), and an operation that has been cancelled has said so (`Engine.Candid`). So a value
stands in a completion just when somebody has told it.
-/

namespace ShardedCache

open Wire (Status)

/-- What a completion makes of an event. -/
def Completion.hear (c : Completion) : Event → Completion
  | .payload p => { c with payloads := c.payloads ++ [p] }
  | .status s => { c with status := some s }
  | .finished => c

namespace Reports

/-- What a callback has been told, oldest first. -/
def told (r : Reports) (receiver : Callback) : List Event :=
  (r.journal.reverse.filter (·.receiver = receiver)).map (·.event)

/-- What a completion that counts down the latch makes of events. -/
def replay (latch : Nat) (events : List Event) : Completion :=
  events.foldl Completion.hear { latch }

/-- Every completion is what it makes of what it has been told. -/
def Recorded (r : Reports) : Prop :=
  ∀ k < r.completions.length,
    r.completion k = replay (r.outline.latchOf k) (r.told (.completion k))

/-! ## One event -/

theorem told_cons (r : Reports) (d : Delivery) (receiver : Callback) :
    told { r with journal := d :: r.journal } receiver =
      r.told receiver ++ if d.receiver = receiver then [d.event] else [] := by
  simpa [told] using events_cons (·.receiver = receiver) d r.journal

theorem completions_tellShard (r : Reports) (keys : List String) (answer latch : Nat) (event : Event) :
    (r.tellShard keys answer latch event).completions = r.completions := by
  cases event with
  | payload p => cases p <;> rfl
  | status s =>
    simp only [tellShard]
    split <;> rfl
  | finished => rfl

theorem length_tellCompletion (r : Reports) (id : Nat) (event : Event) :
    (r.tellCompletion id event).completions.length = r.completions.length := by
  cases event <;> simp [tellCompletion, modifyCompletion, countDown]

theorem completion_tellCompletion (r : Reports) (id : Nat) (event : Event) {k : Nat}
    (hk : k < r.completions.length) : (r.tellCompletion id event).completion k =
      if id = k then (r.completion k).hear event else r.completion k := by
  cases event <;> by_cases h : id = k <;>
    simp [tellCompletion, completion, modifyCompletion, countDown, Completion.hear, h, hk]

variable {r r' : Reports}

namespace Recorded

theorem congr (h : r.Recorded) (hcompletions : r'.completions = r.completions)
    (hjournal : r'.journal = r.journal) : r'.Recorded := by
  intro k hk
  rw [hcompletions] at hk
  have hsame := h k hk
  rwa [completion, outline, told, ← hcompletions, ← hjournal] at hsame

/-- An event for someone else. -/
theorem enter (h : r.Recorded) (t : Teller) {receiver : Callback}
    (hother : ∀ k, receiver ≠ .completion k) (event : Event) :
    Recorded { r with journal := ⟨t, receiver, event⟩ :: r.journal } := by
  intro k hk
  rw [told_cons, if_neg (hother k), List.append_nil]
  exact h k hk

/-- An event for a completion. -/
theorem hear (h : r.Recorded) (t : Teller) (id : Nat) (event : Event) : Recorded
    (tellCompletion { r with journal := ⟨t, .completion id, event⟩ :: r.journal } id event) := by
  intro k hk
  rw [length_tellCompletion] at hk
  have htold : told (tellCompletion { r with journal := ⟨t, .completion id, event⟩ :: r.journal } id
      event) (.completion k) = r.told (.completion k) ++ if id = k then [event] else [] := by
    rw [told, journal_tellCompletion]
    exact (told_cons r _ _).trans (by simp only [Callback.completion.injEq])
  rw [completion_tellCompletion _ _ _ hk, outline_tellCompletion, htold]
  have hsame : completion { r with journal := ⟨t, .completion id, event⟩ :: r.journal } k =
      replay (r.outline.latchOf k) (r.told (.completion k)) := h k hk
  change (if id = k then _ else _) = replay (r.outline.latchOf k) _
  by_cases hid : id = k
  · rw [if_pos hid, if_pos hid, hsame, replay, replay, List.foldl_append]
    rfl
  · rw [if_neg hid, if_neg hid, hsame, List.append_nil]

theorem tell (h : r.Recorded) (t : Teller) (receiver : Callback) (event : Event) :
    (r.tell t receiver event).Recorded := by
  induction receiver generalizing r t event with
  | completion id =>
    rw [Reports.tell.eq_def]
    exact h.hear t id event
  | shard keys answer latch =>
    have hother : ∀ k, Callback.shard keys answer latch ≠ .completion k := fun k h => by cases h
    have hentered := h.enter t hother event
    rw [Reports.tell.eq_def]
    exact hentered.congr (completions_tellShard _ keys answer latch event)
      (journal_tellShard _ keys answer latch event)
  | multiplex id aggregate ih =>
    have hother : ∀ k, Callback.multiplex id aggregate ≠ .completion k := fun k h => by cases h
    have hentered := h.enter t hother event
    -- no completion is touched until the multiplexer passes something on
    have hcounted : ∀ f, Recorded (modifyMultiplexer
        { r with journal := ⟨t, .multiplex id aggregate, event⟩ :: r.journal } id f) :=
      fun _ => hentered.congr rfl rfl
    rw [Reports.tell.eq_def]
    cases event with
    | payload p => exact ih hentered _ _
    | status s =>
      dsimp only
      split
      · exact hentered
      · exact hcounted _
    | finished =>
      dsimp only
      split
      · exact ih (ih (hcounted _) _ _) _ _
      · exact hcounted _
      · exact hentered
  | silent =>
    have hother : ∀ k, Callback.silent ≠ .completion k := fun k h => by cases h
    exact h.enter t hother event
  | record name =>
    have hother : ∀ k, Callback.record name ≠ .completion k := fun k h => by cases h
    exact h.enter t hother event

theorem of_says {may : Teller → Callback → Prop} (h : r.Recorded) (htold : r.Says may r') :
    r'.Recorded := by
  induction htold with
  | nothing => exact h
  | tell _ _ event ih => exact ih.tell _ _ event

/-- New completions have been told nothing. -/
theorem extend (h : r.Recorded) (hextends : r.Extends r') (hknown : r.Observes r.outline.Covers) :
    r'.Recorded := by
  intro k hk
  have htold : r'.told (.completion k) = r.told (.completion k) := by
    rw [told, told, hextends.journal]
  rw [htold]
  by_cases hold : k < r.completions.length
  · have hlatch : r'.outline.latchOf k = r.outline.latchOf k :=
      hextends.grows.latchOf_eq (by simpa [outline] using hold)
    rw [hextends.completion_eq hold, hlatch]
    exact h k hold
  · have hnothing : r.told (.completion k) = [] := by
      have hnobody : ∀ d ∈ r.journal, d.receiver ≠ .completion k := fun d hd hreceiver => by
        have hk := (hknown d hd).2
        rw [hreceiver] at hk
        exact hold (by simpa [outline, Callback.Known] using hk)
      rw [told, List.filter_eq_nil_iff.2 fun d hd => by
        simpa using hnobody d (List.mem_reverse.1 hd)]
      rfl
    obtain ⟨latch, hblank⟩ := hextends.blank k (Nat.le_of_not_lt hold)
    rw [hnothing, ← r'.latch_completion, hblank]
    rfl

end Recorded

end Reports

/-! ## Moves -/

namespace Engine

/-- Every operation that has been cancelled has said so. -/
def Candid (e : Engine) : Prop := ∀ id op, e.get? id = some op → op.Candid

variable {since : Outline} {e e' : Engine}

theorem Move.recorded (hmove : e.Move since e') (he : e.Proper) (h : e.reports.Recorded) :
    e'.reports.Recorded := by
  cases hmove with
  | evolve hevolves _ _ => exact h.of_says hevolves.reports
  | add work idempotent _ _ _ => exact h
  | listen id _ _ => exact (reports_listen e id _).symm ▸ h
  | conclude member _ _ status => exact (h.tell _ _ _).tell _ _ _
  | extend hextends _ => exact h.extend hextends he.known.journal

theorem Life.candid_listen {l : Life} (h : l.operation.Candid) (listener : Callback) :
    (l.listen listener).operation.Candid := by
  unfold Life.listen
  split <;> exact h

theorem Move.candid (hmove : e.Move since e') (he : e.Proper) (h : e.Candid) : e'.Candid := by
  intro id op' hop'
  cases hmove with
  | evolve hevolves _ _ =>
    cases hop : e.get? id with
    | none =>
      rw [hevolves.none hop] at hop'
      cases hop'
    | some op =>
      have hl := life?_of_get? hop
      obtain ⟨l', hl', hlife⟩ := hevolves.lives hl
      rw [← operation_eq hop' hl']
      exact hlife.candid (he.orderly.sound.lives hl) (h id op hop)
  | add work idempotent _ _ _ _ =>
    rw [get?_add] at hop'
    split at hop'
    · cases hop'
      exact Operation.candid_of_phase fun h => by cases h
    · exact h id op' hop'
  | @listen x listener _ _ =>
    have hlives := (becomes_listen e x listener).lives id
    rw [life?_of_get? hop'] at hlives
    obtain ⟨l, hl, hlistened⟩ := Option.map_eq_some_iff.1 hlives.symm
    have hcandid := h id l.operation (get?_of_life? hl)
    rw [show op' = (among [x] (·.listen listener) id l).operation from (congrArg (·.operation) hlistened).symm]
    unfold among
    split
    · exact Life.candid_listen hcandid _
    · exact hcandid
  | conclude member _ _ status => exact h id op' hop'
  | extend _ _ => exact h id op' hop'

/-- **Whatever happens, completions hold what they have been told, and operations own up to their
cancellation.** -/
theorem Moves.recorded (hmoves : e.Moves since e') (he : e.Proper) (hrecorded : e.reports.Recorded)
    (hcandid : e.Candid) : e'.reports.Recorded ∧ e'.Candid := by
  induction hmoves with
  | refl => exact ⟨hrecorded, hcandid⟩
  | tail hmoves hmove ih =>
    have hproper := he.moves hmoves
    exact ⟨hmove.recorded hproper ih.1, hmove.candid hproper ih.2⟩

/-- An operation that has been successful is complete. -/
theorem Candid.phase_of_success (h : e.Candid) (he : e.Sound) {id : Nat} {op : Operation}
    (hop : e.get? id = some op) {status : Status} (hstatus : op.status = some status)
    (hsuccess : status.isSuccess) : op.phase = .complete := by
  have hend : op.isTerminal := by
    have hended : op.isTerminal = op.status.isSome := (he.lives (life?_of_get? hop)).ended
    rw [hended, hstatus]
    rfl
  cases hphase : op.phase with
  | complete => rfl
  | cancelled =>
    obtain ⟨cause, hcause⟩ := h id op hop (by rw [Operation.isCancelled, hphase]; rfl)
    rw [hstatus] at hcause
    cases hcause
    cases hsuccess
  | _ =>
    rw [Operation.isTerminal, hphase] at hend
    cases hend

end Engine

end ShardedCache

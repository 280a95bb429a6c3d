import ShardedCache.Node.Health
import Mathlib.Data.List.Induction

/-!
# A node's health is its history

The window of a node keeps its outcomes in a ring. Read from the slot to be written next, the ring is a
shift register: an outcome enters at its end and the oldest leaves at its front (`ring_record`). As long
as the window is not full, what leaves is a slot that nothing has been written to; from then on it is the
oldest outcome (`TimeoutWindow.Shows`). The count of timeouts follows from that, and with it the health of
a node after any sequence of marks (`Health.tells_after`).
-/

namespace ShardedCache

/-! ## The window -/

namespace TimeoutWindow

variable {w : TimeoutWindow} {size : Nat} {outcomes : List Bool}

/-- The slots in the order in which they will be written. -/
def ring (w : TimeoutWindow) : List Bool := w.slots.drop w.next ++ w.slots.take w.next

/-- The last `size` outcomes. -/
def recent (size : Nat) (outcomes : List Bool) : List Bool := outcomes.drop (outcomes.length - size)

/-- The window keeps the last `size` of these outcomes, behind the slots that are still to be written for
the first time. -/
structure Shows (size : Nat) (outcomes : List Bool) (w : TimeoutWindow) : Prop where
  length : w.slots.length = size
  next_lt : w.next < size
  ring : w.ring = List.replicate (size - outcomes.length) false ++ recent size outcomes
  filled : w.filled = min size outcomes.length
  timeouts : w.timeouts = w.ring.count true

theorem length_recent (size : Nat) (outcomes : List Bool) :
    (recent size outcomes).length = min size outcomes.length := by
  rw [recent, List.length_drop]
  omega

/-- What is written next stands first in the ring. -/
theorem ring_eq_cons (h : w.next < w.slots.length) :
    w.ring = w.slots.getD w.next false :: (w.slots.drop (w.next + 1) ++ w.slots.take w.next) := by
  rw [ring, List.drop_eq_getElem_cons h, List.getD_eq_getElem?_getD,
    List.getElem?_eq_getElem h, List.cons_append, Option.getD_some]

/-- An outcome enters the ring at its end, and what was written first leaves it. -/
theorem ring_record (h : w.next < w.slots.length) (timedOut : Bool) :
    (w.record timedOut).ring = w.ring.tail ++ [timedOut] := by
  rw [ring_eq_cons h, List.tail_cons, ring]
  change (w.slots.set w.next timedOut).drop ((w.next + 1) % w.slots.length) ++
    (w.slots.set w.next timedOut).take ((w.next + 1) % w.slots.length) = _
  have htake : (w.slots.set w.next timedOut).take (w.next + 1) = w.slots.take w.next ++ [timedOut] := by
    rw [List.take_add_one, List.take_set_of_le (Nat.le_refl _), List.getElem?_set_self h]
    rfl
  have hle : w.next + 1 ≤ w.slots.length := h
  rcases Nat.lt_or_eq_of_le hle with hlt | hlast
  · rw [Nat.mod_eq_of_lt hlt, htake, List.drop_set_of_lt (Nat.lt_succ_self _), List.append_assoc]
  · -- the last slot was written: the ring goes on at the first one
    have hall : (w.slots.set w.next timedOut).take (w.next + 1) = w.slots.set w.next timedOut :=
      List.take_of_length_le (by rw [List.length_set]; exact Nat.le_of_eq hlast.symm)
    rw [hlast, Nat.mod_self, List.drop_zero, List.take_zero, List.append_nil, ← hall, htake,
      List.drop_length, List.nil_append]

theorem recent_append (size : Nat) (outcomes : List Bool) (timedOut : Bool) (hsize : 0 < size) :
    List.replicate (size - (outcomes ++ [timedOut]).length) false ++
        recent size (outcomes ++ [timedOut]) =
      (List.replicate (size - outcomes.length) false ++ recent size outcomes).tail ++ [timedOut] := by
  rw [recent, recent, List.length_append, List.length_singleton]
  rcases Nat.lt_or_ge outcomes.length size with hroom | hfull
  · have hfront : size - outcomes.length = (size - (outcomes.length + 1)) + 1 := by omega
    rw [Nat.sub_eq_zero_of_le hroom, Nat.sub_eq_zero_of_le (Nat.le_of_lt hroom), hfront,
      List.replicate_succ, List.cons_append, List.tail_cons, List.drop_zero, List.drop_zero,
      List.append_assoc]
  · have hdrop : outcomes.length + 1 - size = (outcomes.length - size) + 1 := by omega
    rw [Nat.sub_eq_zero_of_le hfull, Nat.sub_eq_zero_of_le (Nat.le_succ_of_le hfull), hdrop,
      List.replicate_zero, List.nil_append, List.nil_append, List.tail_drop,
      List.drop_append_of_le_length (by omega)]

namespace Shows

theorem ring_eq (h : w.Shows size outcomes) :
    w.ring = w.slots.getD w.next false :: w.ring.tail := by
  rw [ring_eq_cons (h.length ▸ h.next_lt), List.tail_cons]

theorem isFull_iff (h : w.Shows size outcomes) : w.isFull = true ↔ size ≤ outcomes.length := by
  rw [isFull, beq_iff_eq, h.filled, h.length]
  omega

/-- What leaves a window with room is a slot that nothing has been written to. -/
theorem unwritten (h : w.Shows size outcomes) (hroom : outcomes.length < size) :
    w.slots.getD w.next false = false := by
  have hring := h.ring_eq
  have hfront : size - outcomes.length = (size - (outcomes.length + 1)) + 1 := by omega
  rw [h.ring, hfront, List.replicate_succ, List.cons_append] at hring
  exact (List.cons.inj hring).1.symm

/-- The timeout that leaves a full window has been counted. -/
theorem timeouts_pos (h : w.Shows size outcomes) (hleaving : w.slots.getD w.next false = true) :
    0 < w.timeouts := by
  rw [h.timeouts, h.ring_eq, hleaving]
  exact List.count_pos_iff.2 List.mem_cons_self

theorem timeouts_record (h : w.Shows size outcomes) (timedOut : Bool) :
    (w.record timedOut).timeouts = (w.record timedOut).ring.count true := by
  have hlt : w.next < w.slots.length := h.length ▸ h.next_lt
  have hcount : w.timeouts = (w.slots.getD w.next false).toNat + w.ring.tail.count true := by
    rw [h.timeouts, h.ring_eq, List.tail_cons, List.count_cons]
    cases w.slots.getD w.next false <;> simp [Nat.add_comm]
  have hleaving : (w.isFull && w.slots.getD w.next false) = w.slots.getD w.next false := by
    cases hfull : w.isFull with
    | true => rfl
    | false =>
      have hroom : outcomes.length < size :=
        Nat.lt_of_not_le fun hle => by simp [h.isFull_iff.2 hle] at hfull
      rw [h.unwritten hroom, Bool.false_and]
  have hentering : [timedOut].count true = timedOut.toNat := by cases timedOut <;> rfl
  rw [ring_record hlt, List.count_append, hentering]
  change (if (w.isFull && w.slots.getD w.next false) = true then w.timeouts - 1 else w.timeouts) +
    timedOut.toNat = _
  rw [hleaving, hcount]
  cases w.slots.getD w.next false with
  | true => simp
  | false => simp

/-- A window that shows some outcomes shows one more when that is recorded. -/
protected theorem record (h : w.Shows size outcomes) (timedOut : Bool) :
    (w.record timedOut).Shows size (outcomes ++ [timedOut]) where
  length := by
    change (w.slots.set w.next timedOut).length = size
    rw [List.length_set, h.length]
  next_lt := by
    change (w.next + 1) % w.slots.length < size
    rw [h.length]
    exact Nat.mod_lt _ (Nat.zero_lt_of_lt h.next_lt)
  ring := by
    rw [ring_record (h.length ▸ h.next_lt), h.ring,
      recent_append size outcomes timedOut (Nat.zero_lt_of_lt h.next_lt)]
  filled := by
    change (if w.isFull = true then w.filled else w.filled + 1) = _
    rw [h.filled, List.length_append, List.length_singleton]
    split
    · next hfull =>
      have hle := h.isFull_iff.1 hfull
      omega
    · next hroom =>
      have hlt : ¬size ≤ outcomes.length := fun hle => hroom (h.isFull_iff.2 hle)
      omega
  timeouts := h.timeouts_record timedOut

/-- What a window tells is what its last outcomes are. -/
theorem reads (h : w.Shows size outcomes) :
    w.filled = min size outcomes.length ∧ w.timeouts = (recent size outcomes).count true ∧
      w.ratio = 100 * (recent size outcomes).count true / (recent size outcomes).length := by
  have htimeouts : w.timeouts = (recent size outcomes).count true := by
    rw [h.timeouts, h.ring, List.count_append, List.count_replicate]
    exact Nat.zero_add _
  refine ⟨h.filled, htimeouts, ?_⟩
  rw [ratio, htimeouts, h.filled, length_recent, Nat.mul_comm]

end Shows

theorem shows_blank (hsize : 0 < size) :
    ({ slots := List.replicate size false } : TimeoutWindow).Shows size [] where
  length := List.length_replicate
  next_lt := hsize
  ring := by simp [ring, recent]
  filled := by simp
  timeouts := by simp [ring, List.count_replicate]

theorem shows_ofSize (size : Nat) : (ofSize size).Shows (max size 1) [] := shows_blank (by omega)

theorem Shows.reset (h : w.Shows size outcomes) : w.reset.Shows size [] := by
  have hslots : w.slots.map (fun _ => false) = List.replicate size false := by
    rw [List.map_const', h.length]
  rw [TimeoutWindow.reset, hslots]
  exact shows_blank (Nat.zero_lt_of_lt h.next_lt)

end TimeoutWindow

/-! ## Marks -/

namespace Health

/-- What a node is told: a wait that touched it has run out of time, or has ended in time, or it has been
connected to anew. -/
inductive Mark where
  | timeout
  | success
  | reset
  deriving DecidableEq, Repr

variable {size : Option Nat} {marks : List Mark} {h : Health}

/-- The health of a node that has not been waited for, with a window over so many outcomes if any. -/
def fresh (size : Option Nat) : Health where
  window := size.map .ofSize

def mark (h : Health) : Mark → Health
  | .timeout => h.recordTimeout
  | .success => h.recordSuccess
  | .reset => h.reset

def after (h : Health) (marks : List Mark) : Health := marks.foldl mark h

/-- The timeouts since the last success or reset. -/
def streak (marks : List Mark) : Nat := (marks.reverse.takeWhile (· = .timeout)).length

/-- The outcomes since the last reset, oldest first; `true` stands for a timeout. -/
def outcomes (marks : List Mark) : List Bool :=
  (marks.reverse.takeWhile (· ≠ .reset)).reverse.map (· = .timeout)

theorem streak_append (marks : List Mark) (m : Mark) :
    streak (marks ++ [m]) = if m = .timeout then streak marks + 1 else 0 := by
  rw [streak, List.reverse_append, List.reverse_singleton, List.singleton_append, List.takeWhile_cons]
  by_cases hm : m = .timeout
  · simp [hm, streak]
  · simp [hm]

theorem outcomes_append (marks : List Mark) (m : Mark) :
    outcomes (marks ++ [m]) =
      if m = .reset then [] else outcomes marks ++ [decide (m = .timeout)] := by
  rw [outcomes, List.reverse_append, List.reverse_singleton, List.singleton_append, List.takeWhile_cons]
  by_cases hm : m = .reset
  · simp [hm]
  · simp [hm, outcomes]

/-- The health is that of a node which was told this. -/
structure Tells (size : Option Nat) (marks : List Mark) (h : Health) : Prop where
  continuous : h.continuous = UInt32.ofNat (streak marks)
  untracked : size = none → h.window = none
  tracked : ∀ s, size = some s → ∃ w, h.window = some w ∧ w.Shows (max s 1) (outcomes marks)

theorem tells_fresh (size : Option Nat) : (fresh size).Tells size [] where
  continuous := rfl
  untracked hsize := by rw [hsize]; rfl
  tracked s hsize := ⟨.ofSize s, by rw [hsize]; rfl, TimeoutWindow.shows_ofSize s⟩

/-- The window takes one step with each mark. -/
theorem Tells.window (ht : h.Tells size marks) {f : TimeoutWindow → TimeoutWindow} {next : List Bool}
    (hf : ∀ n w, w.Shows n (outcomes marks) → (f w).Shows n next) :
    (size = none → h.window.map f = none) ∧
      ∀ s, size = some s → ∃ w, h.window.map f = some w ∧ w.Shows (max s 1) next := by
  refine ⟨fun hnone => by rw [ht.untracked hnone]; rfl, fun s hs => ?_⟩
  obtain ⟨w, hw, hshows⟩ := ht.tracked s hs
  exact ⟨f w, by rw [hw]; rfl, hf _ w hshows⟩

theorem Tells.mark (ht : h.Tells size marks) (m : Mark) : (h.mark m).Tells size (marks ++ [m]) := by
  cases m with
  | timeout =>
    obtain ⟨huntracked, htracked⟩ := ht.window fun _ _ hshows => hshows.record true
    refine ⟨?_, huntracked, ?_⟩
    · rw [streak_append, if_pos rfl]
      change h.continuous + 1 = _
      rw [ht.continuous, UInt32.ofNat_add]
      rfl
    · rw [outcomes_append]
      exact htracked
  | success =>
    obtain ⟨huntracked, htracked⟩ := ht.window fun _ _ hshows => hshows.record false
    refine ⟨?_, huntracked, ?_⟩
    · rw [streak_append]
      rfl
    · rw [outcomes_append]
      exact htracked
  | reset =>
    obtain ⟨huntracked, htracked⟩ := ht.window fun _ _ hshows => hshows.reset
    refine ⟨?_, huntracked, ?_⟩
    · rw [streak_append]
      rfl
    · rw [outcomes_append]
      exact htracked

/-- **After any marks the health is what these tell.** -/
theorem tells_after (size : Option Nat) (marks : List Mark) :
    ((fresh size).after marks).Tells size marks := by
  induction marks using List.reverseRecOn with
  | nil => exact tells_fresh size
  | append_singleton marks m ih =>
    rw [after, List.foldl_append]
    exact ih.mark m

/-- What the health of a node is to say of the marks that it was given: its timeouts in a row are those
since the last success or reset, as far as a 32-bit counter goes; and of a window, how many outcomes it
holds, the share of timeouts among these, and that the timeout which leaves it is one that it has counted. -/
structure Agrees (size : Option Nat) (marks : List Mark) (h : Health) : Prop where
  continuous : streak marks < UInt32.size → h.continuous.toNat = streak marks
  untracked : size = none → h.ratio? = none
  tracked : ∀ s, size = some s → ∃ w, h.window = some w ∧
    w.filled = min (max s 1) (outcomes marks).length ∧
    (let recent := TimeoutWindow.recent (max s 1) (outcomes marks)
     h.ratio? = some (100 * recent.count true / recent.length)) ∧
    (w.slots.getD w.next false = true → 0 < w.timeouts)

theorem Tells.agrees (ht : h.Tells size marks) : h.Agrees size marks where
  continuous hlt := by rw [ht.continuous, UInt32.toNat_ofNat_of_lt' hlt]
  untracked hnone := by rw [ratio?, ht.untracked hnone]; rfl
  tracked s hs := by
    obtain ⟨w, hw, hshows⟩ := ht.tracked s hs
    obtain ⟨hfilled, -, hratio⟩ := hshows.reads
    refine ⟨w, hw, hfilled, ?_, hshows.timeouts_pos⟩
    rw [ratio?, hw]
    exact congrArg some hratio

end Health

end ShardedCache

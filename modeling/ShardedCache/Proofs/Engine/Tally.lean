import ShardedCache.Proofs.Engine.Outline

/-!
# Latches and multiplexers count what has finished

A latch is counted down once for each delivery that something has finished to a callback of that
latch (`Reports.Tallied`), and a multiplexer for each such delivery to itself; it says once that all
have finished, when as many have as it was made for (`Reports.Metered`). This is so whoever is told
whatever.
-/

namespace ShardedCache

open Wire (Status)

namespace Delivery

/-- The receiver counts down the latch when something has finished. -/
def counts (o : Outline) (latch : Nat) (d : Delivery) : Bool := d.receiver.latch? o == some latch

def isTo (multiplexer : Nat) (d : Delivery) : Bool := d.receiver.multiplexer? == some multiplexer

def isFrom (multiplexer : Nat) (d : Delivery) : Bool := d.teller == .multiplexer multiplexer

end Delivery

namespace Reports

variable {r r' : Reports} {d : Delivery}

/-- How many of the deliveries say that something has finished. -/
def finishes (r : Reports) (p : Delivery → Bool) : Nat :=
  r.journal.countP fun d => d.event == .finished && p d

theorem finishes_cons (hjournal : r'.journal = d :: r.journal) (p : Delivery → Bool) :
    r'.finishes p = r.finishes p + if d.event == .finished && p d then 1 else 0 := by
  rw [finishes, hjournal]
  exact List.countP_cons

theorem finishes_congr (hjournal : r'.journal = r.journal) {p p' : Delivery → Bool}
    (hp : ∀ d ∈ r.journal, p' d = p d) : r'.finishes p' = r.finishes p := by
  rw [finishes, finishes, hjournal]
  refine List.countP_congr fun d hd => ?_
  rw [hp d hd]

theorem finishes_eq_zero {p : Delivery → Bool} (h : ∀ d ∈ r.journal, p d = false) :
    r.finishes p = 0 := by
  refine List.countP_eq_zero.2 fun d hd => ?_
  simp [h d hd]

/-- Two kinds of deliveries that have none in common. -/
theorem finishes_or {p q : Delivery → Bool} (h : ∀ d ∈ r.journal, p d → q d = false) :
    r.finishes (fun d => p d || q d) = r.finishes p + r.finishes q := by
  unfold finishes
  revert h
  generalize r.journal = ds
  intro h
  induction ds with
  | nil => rfl
  | cons d ds ih =>
    have hd := h d List.mem_cons_self
    have hds := ih fun d' hd' => h d' (List.mem_cons_of_mem d hd')
    simp only [List.countP_cons, hds]
    cases hp : p d with
    | true => simp [hd hp]; omega
    | false => simp; omega

theorem latchCount_countDown (r : Reports) (l latch : Nat) :
    (r.countDown l).latchCount latch = r.latchCount latch - if l = latch then 1 else 0 := by
  simp only [latchCount, countDown, List.getD_eq_getElem?_getD, List.getElem?_modify]
  by_cases h : l = latch
  · simp only [if_pos h]
    cases r.latches[latch]? <;> simp
  · simp [if_neg h]

/-! ## Latches -/

/-- A latch that was made for `n` has been counted down for each that has finished. -/
def Tallied (latch n : Nat) (r : Reports) : Prop :=
  r.latchCount latch = n - r.finishes (·.counts r.outline latch)

namespace Tallied

variable {latch n : Nat}

/-- A delivery, and what it does to the latch. -/
theorem cons (h : r.Tallied latch n) (hjournal : r'.journal = d :: r.journal)
    (houtline : r'.outline = r.outline) (hcount : r'.latchCount latch =
      r.latchCount latch - if d.event == .finished && d.counts r.outline latch then 1 else 0) :
    r'.Tallied latch n := by
  rw [Tallied, houtline, finishes_cons hjournal, hcount, h, Nat.sub_sub]

theorem congr (h : r.Tallied latch n) (houtline : r'.outline = r.outline)
    (hjournal : r'.journal = r.journal) (hlatches : r'.latches = r.latches) : r'.Tallied latch n := by
  rw [Tallied, houtline, finishes_congr hjournal fun _ _ => rfl, latchCount, hlatches]
  exact h

theorem tell (h : r.Tallied latch n) (t : Teller) (receiver : Callback) (event : Event) :
    (r.tell t receiver event).Tallied latch n := by
  induction receiver generalizing r t event with
  | completion id =>
    rw [Reports.tell.eq_def]
    refine h.cons (journal_tellCompletion _ id event) (outline_tellCompletion _ id event) ?_
    cases event with
    | finished =>
      have hlatch : (⟨t, .completion id, .finished⟩ : Delivery).receiver.latch? r.outline =
          some (r.completion id).latch := congrArg some (latch_completion r id).symm
      refine (latchCount_countDown _ _ latch).trans ?_
      rw [Delivery.counts, hlatch]
      simp [latchCount, completion]
    | _ => rfl
  | shard keys answer l =>
    rw [Reports.tell.eq_def]
    refine h.cons (journal_tellShard _ keys answer l event)
      (outline_tellShard _ keys answer l event) ?_
    cases event with
    | payload p => cases p <;> rfl
    | status s =>
      simp only [tellShard]
      split <;> rfl
    | finished =>
      refine (latchCount_countDown _ l latch).trans ?_
      simp [latchCount, Delivery.counts, Callback.latch?]
  | multiplex id aggregate ih =>
    have hentered : Tallied latch n
        { r with journal := ⟨t, .multiplex id aggregate, event⟩ :: r.journal } :=
      h.cons rfl rfl (by simp [Delivery.counts, Callback.latch?, latchCount])
    have hcounted : ∀ f, Tallied latch n (modifyMultiplexer
        { r with journal := ⟨t, .multiplex id aggregate, event⟩ :: r.journal } id f) := fun f =>
      hentered.congr (by simp [outline, modifyMultiplexer]) rfl rfl
    rw [Reports.tell.eq_def]
    cases event with
    | payload p => exact ih hentered _ _
    | status s =>
      dsimp only
      split
      · exact hentered
      · exact hcounted _
    | finished =>
      dsimp only
      split
      · exact ih (ih (hcounted _) _ _) _ _
      · exact hcounted _
      · exact hentered
  | _ =>
    rw [Reports.tell.eq_def]
    exact h.cons rfl rfl (by simp [Delivery.counts, Callback.latch?, latchCount])

theorem of_says (h : r.Tallied latch n) {may : Teller → Callback → Prop} (hsaid : r.Says may r') :
    r'.Tallied latch n := by
  induction hsaid with
  | nothing => exact h
  | tell _ _ event ih => exact ih.tell _ _ event

end Tallied

/-! ## Multiplexers -/

/-- A multiplexer that was made for `n` has counted each that has finished. It has said once that all
have, if they have; `owing` is 1 while it is about to say so. -/
structure Metered (multiplexer n owing : Nat) (r : Reports) : Prop where
  remaining : (r.multiplexers[multiplexer]?).map (·.remaining) =
    some (n - r.finishes (·.isTo multiplexer))
  said : r.finishes (·.isFrom multiplexer) + owing =
    if n ≤ r.finishes (·.isTo multiplexer) then 1 else 0

namespace Metered

variable {m n owing : Nat}

theorem congr (h : r.Metered m n owing) (hjournal : r'.journal = r.journal)
    (hmultiplexers : (r'.multiplexers[m]?).map (·.remaining) =
      (r.multiplexers[m]?).map (·.remaining)) : r'.Metered m n owing := by
  have hfinishes : ∀ p, r'.finishes p = r.finishes p := fun p =>
    finishes_congr hjournal fun _ _ => rfl
  refine ⟨?_, ?_⟩
  · rw [hmultiplexers, hfinishes]
    exact h.remaining
  · rw [hfinishes, hfinishes]
    exact h.said

section Cons

variable (h : r.Metered m n (owing + if d.event == .finished && d.isFrom m then 1 else 0))
  (hjournal : r'.journal = d :: r.journal)

include h hjournal

/-- What the multiplexer says is no longer owed. -/
theorem cons (hd : (d.event == .finished && d.isTo m) = false)
    (hmultiplexers : (r'.multiplexers[m]?).map (·.remaining) =
      (r.multiplexers[m]?).map (·.remaining)) : r'.Metered m n owing := by
  have hto : r'.finishes (·.isTo m) = r.finishes (·.isTo m) := by
    rw [finishes_cons hjournal, hd]
    rfl
  refine ⟨?_, ?_⟩
  · rw [hmultiplexers, hto]
    exact h.remaining
  · rw [hto, finishes_cons hjournal, ← h.said]
    omega

variable (hd : (d.event == .finished && d.isTo m) = true) {x : Multiplexer}
  (hx : r.multiplexers[m]? = some x)

include hd hx

/-- The last one has finished, and the multiplexer is about to say so. -/
theorem cons_last (hlast : x.remaining = 1)
    (hmultiplexers : (r'.multiplexers[m]?).map (·.remaining) = some 0) :
    r'.Metered m n (owing + 1) := by
  have hto : r'.finishes (·.isTo m) = r.finishes (·.isTo m) + 1 := by
    rw [finishes_cons hjournal, hd]
    rfl
  have hleft : n - r.finishes (·.isTo m) = 1 := by
    have := h.remaining
    rw [hx, Option.map_some, hlast] at this
    exact (Option.some.inj this).symm
  have hsaid := h.said
  refine ⟨?_, ?_⟩
  · rw [hmultiplexers, hto]
    congr 1
    omega
  · rw [hto, finishes_cons hjournal]
    split_ifs at hsaid ⊢ <;> omega

/-- One has finished that is not the last. -/
theorem cons_other (hother : x.remaining ≠ 1)
    (hmultiplexers : (r'.multiplexers[m]?).map (·.remaining) = some (x.remaining - 1)) :
    r'.Metered m n owing := by
  have hto : r'.finishes (·.isTo m) = r.finishes (·.isTo m) + 1 := by
    rw [finishes_cons hjournal, hd]
    rfl
  have hleft : x.remaining = n - r.finishes (·.isTo m) := by
    have := h.remaining
    rw [hx] at this
    exact Option.some.inj this
  have hsaid := h.said
  refine ⟨?_, ?_⟩
  · rw [hmultiplexers, hto, hleft, Nat.sub_sub]
  · rw [hto, finishes_cons hjournal]
    split_ifs at hsaid ⊢ <;> omega

end Cons

section Finished

variable {aggregate : Callback} {t : Teller}
  (hpass : ∀ {r : Reports} (owing : Nat) (t : Teller) (event : Event),
    r.Metered m n (owing + if event == .finished && t == .multiplexer m then 1 else 0) →
      (r.tell t aggregate event).Metered m n owing)
  (h : r.Metered m n (owing + if t == .multiplexer m then 1 else 0))

include hpass h

/-- The multiplexer says that all have finished when the last one has. -/
theorem tell_self :
    (r.tell t (.multiplex m aggregate) .finished).Metered m n owing := by
  have h' : r.Metered m n (owing + if Event.finished == .finished &&
      Delivery.isFrom m ⟨t, .multiplex m aggregate, .finished⟩ then 1 else 0) := by
    simpa [Delivery.isFrom] using h
  have hto : (Event.finished == .finished &&
      Delivery.isTo m ⟨t, .multiplex m aggregate, .finished⟩) = true := by
    simp [Delivery.isTo, Callback.multiplexer?]
  rw [Reports.tell.eq_def]
  dsimp only
  split
  · next failing hlast =>
    have howed : Metered m n (owing + 1) (modifyMultiplexer
        { r with journal := ⟨t, .multiplex m aggregate, .finished⟩ :: r.journal } m
          fun _ => { remaining := 0 }) :=
      h'.cons_last rfl hto hlast rfl (by simp [modifyMultiplexer, hlast])
    have hstatus := hpass (owing + 1) (.multiplexer m) (.status (failing.getD .success)) howed
    exact hpass owing (.multiplexer m) .finished (by simpa using hstatus)
  · next x hother hx =>
    exact h'.cons_other rfl hto hx (fun hone => hother x.failing (hone ▸ rfl))
      (by simp [modifyMultiplexer, hx])
  · next hnone =>
    have := h.remaining
    rw [hnone] at this
    cases this

/-- What another multiplexer counts and says is of no consequence. -/
theorem tell_other {id : Nat} (hid : id ≠ m) :
    (r.tell t (.multiplex id aggregate) .finished).Metered m n owing := by
  have hentered : Metered m n owing
      { r with journal := ⟨t, .multiplex id aggregate, .finished⟩ :: r.journal } :=
    cons (d := ⟨t, .multiplex id aggregate, .finished⟩) (by simpa [Delivery.isFrom] using h) rfl
      (by simp [Delivery.isTo, Callback.multiplexer?, hid]) rfl
  have hcounted : ∀ f, Metered m n owing (modifyMultiplexer
      { r with journal := ⟨t, .multiplex id aggregate, .finished⟩ :: r.journal } id f) :=
    fun f => hentered.congr rfl (by simp [modifyMultiplexer, hid])
  rw [Reports.tell.eq_def]
  dsimp only
  split
  · next failing _ =>
    have hstatus := hpass owing (.multiplexer id) (.status (failing.getD .success))
      (hcounted fun _ => { remaining := 0 })
    exact hpass owing (.multiplexer id) .finished (by simpa [hid] using hstatus)
  · exact hcounted _
  · exact hentered

end Finished

/-- Whatever is told to anybody; if it is what the multiplexer owes, it owes it no longer. -/
theorem tell (owing : Nat) (t : Teller) (receiver : Callback) (event : Event)
    (h : r.Metered m n (owing + if event == .finished && t == .multiplexer m then 1 else 0)) :
    (r.tell t receiver event).Metered m n owing := by
  induction receiver generalizing r t event owing with
  | completion id =>
    rw [Reports.tell.eq_def]
    exact h.cons (d := ⟨t, .completion id, event⟩) (journal_tellCompletion _ id event)
      (by simp [Delivery.isTo, Callback.multiplexer?]) (by simp)
  | shard keys answer latch =>
    rw [Reports.tell.eq_def]
    exact h.cons (d := ⟨t, .shard keys answer latch, event⟩)
      (journal_tellShard _ keys answer latch event)
      (by simp [Delivery.isTo, Callback.multiplexer?]) (by simp)
  | multiplex id aggregate ih =>
    cases event with
    | payload p =>
      rw [Reports.tell.eq_def]
      exact ih owing _ _ (h.cons (d := ⟨t, .multiplex id aggregate, .payload p⟩) rfl rfl rfl)
    | status s =>
      rw [Reports.tell.eq_def]
      dsimp only
      split
      · exact h.cons (d := ⟨t, .multiplex id aggregate, .status s⟩) rfl rfl rfl
      · refine h.cons (d := ⟨t, .multiplex id aggregate, .status s⟩) rfl rfl ?_
        simp only [modifyMultiplexer, List.getElem?_modify]
        cases r.multiplexers[m]? with
        | none => simp
        | some x => by_cases hid : id = m <;> simp [hid]
    | finished =>
      by_cases hid : id = m
      · subst hid
        exact tell_self (fun owing t event => ih owing t event) (by simpa using h)
      · exact tell_other (fun owing t event => ih owing t event) (by simpa using h) hid
  | _ =>
    rw [Reports.tell.eq_def]
    exact h.cons (d := ⟨t, _, event⟩) rfl (by simp [Delivery.isTo, Callback.multiplexer?]) rfl

theorem of_says (h : r.Metered m n 0) {may : Teller → Callback → Prop} (hsaid : r.Says may r')
    (hmay : ∀ {t c}, may t c → t ≠ .multiplexer m) : r'.Metered m n 0 := by
  induction hsaid with
  | nothing => exact h
  | tell _ ht event ih => exact Metered.tell 0 _ _ event (by simpa [hmay ht] using ih)

end Metered

end Reports

end ShardedCache

import ShardedCache.Proofs.Engine.Wiring

/-!
# What callbacks refer to

The outline of the reports is all that callbacks refer to: how many latches and multiplexers there
are, and which latch each completion counts down. Telling something changes none of it
(`Reports.outline_tell`). So what is true of each delivery follows from what is true of those who may
still tell something, and of whatever multiplexers pass on for them (`Engine.Abides`).
-/

namespace ShardedCache

open Wire (Status)

structure Outline where
  latches : Nat
  /-- The latch of each completion. -/
  completions : List Nat
  multiplexers : Nat

namespace Outline

/-- Latches, completions and multiplexers have been added. -/
structure Grows (o o' : Outline) : Prop where
  latches : o.latches ≤ o'.latches
  completions : o.completions <+: o'.completions
  multiplexers : o.multiplexers ≤ o'.multiplexers

theorem Grows.refl (o : Outline) : o.Grows o := ⟨Nat.le_refl _, List.prefix_refl _, Nat.le_refl _⟩

theorem Grows.trans {o o' o'' : Outline} (h : o.Grows o') (h' : o'.Grows o'') : o.Grows o'' :=
  ⟨Nat.le_trans h.latches h'.latches, h.completions.trans h'.completions,
    Nat.le_trans h.multiplexers h'.multiplexers⟩

theorem grows_of_eq {o o' : Outline} (h : o' = o) : o.Grows o' := h ▸ Grows.refl o

/-- The latch of a completion; one that does not exist counts down the first. -/
def latchOf (o : Outline) (completion : Nat) : Nat := o.completions.getD completion 0

theorem Grows.latchOf_eq {o o' : Outline} (h : o.Grows o') {completion : Nat}
    (hknown : completion < o.completions.length) : o'.latchOf completion = o.latchOf completion := by
  obtain ⟨more, hmore⟩ := h.completions
  simp only [latchOf, List.getD_eq_getElem?_getD, ← hmore, List.getElem?_append_left hknown]

end Outline

namespace Callback

/-- The latch that the callback itself counts down when it hears that something has finished. -/
def latch? (o : Outline) : Callback → Option Nat
  | .completion id => some (o.latchOf id)
  | .shard _ _ latch => some latch
  | .silent | .record _ | .multiplex _ _ => none

/-- The multiplexer that the callback tells. -/
def multiplexer? : Callback → Option Nat
  | .multiplex id _ => some id
  | .silent | .record _ | .completion _ | .shard _ _ _ => none

/-- What the callback refers to exists. -/
def Known (o : Outline) : Callback → Prop
  | .silent | .record _ => True
  | .completion id => id < o.completions.length
  | .shard _ _ latch => latch < o.latches
  | .multiplex id aggregate => id < o.multiplexers ∧ aggregate.Known o

/-- The latches and multiplexers behind the callback have been added since. -/
def Beyond (since o : Outline) : Callback → Prop
  | .silent | .record _ => True
  | .completion id => since.latches ≤ o.latchOf id
  | .shard _ _ latch => since.latches ≤ latch
  | .multiplex id aggregate => since.multiplexers ≤ id ∧ aggregate.Beyond since o

end Callback

/-- A delivery between those that exist. -/
def Outline.Covers (o : Outline) (t : Teller) (c : Callback) : Prop :=
  t.Below o.multiplexers ∧ c.Known o

namespace Callback

/-- Telling the callback makes only such deliveries. -/
def Spreads (Q : Teller → Callback → Prop) : Teller → Callback → Prop
  | t, .multiplex id aggregate =>
    Q t (.multiplex id aggregate) ∧ aggregate.Spreads Q (.multiplexer id)
  | t, c => Q t c

variable {Q Q' : Teller → Callback → Prop} {o o' : Outline} {t : Teller} {c : Callback}

theorem Known.grows (h : c.Known o) (hgrows : o.Grows o') : c.Known o' := by
  induction c with
  | completion id => exact Nat.lt_of_lt_of_le h hgrows.completions.length_le
  | shard keys answer latch => exact Nat.lt_of_lt_of_le h hgrows.latches
  | multiplex id aggregate ih => exact ⟨Nat.lt_of_lt_of_le h.1 hgrows.multiplexers, ih h.2⟩
  | _ => trivial

theorem Known.below (h : c.Known o) : c.Below o.multiplexers := by
  induction c with
  | multiplex id aggregate ih => exact ⟨h.1, ih h.2⟩
  | _ => trivial

/-- What is known already keeps its latch. -/
theorem Known.latch?_eq (h : c.Known o) (hgrows : o.Grows o') : c.latch? o' = c.latch? o := by
  cases c with
  | completion id => exact congrArg some (hgrows.latchOf_eq h)
  | _ => rfl

theorem Known.latch_lt (h : c.Known o) (ho : ∀ latch ∈ o.completions, latch < o.latches)
    {latch : Nat} (hlatch : c.latch? o = some latch) : latch < o.latches := by
  cases c with
  | completion id =>
    cases hlatch
    refine ho _ ?_
    rw [Outline.latchOf, List.getD_eq_getElem?_getD, List.getElem?_eq_getElem h]
    exact List.getElem_mem h
  | shard keys answer l =>
    cases hlatch
    exact h
  | _ => cases hlatch

theorem Beyond.latch_le {since : Outline} (h : c.Beyond since o) {latch : Nat}
    (hlatch : c.latch? o = some latch) : since.latches ≤ latch := by
  cases c with
  | completion id =>
    cases hlatch
    exact h
  | shard keys answer l =>
    cases hlatch
    exact h
  | _ => cases hlatch

theorem Spreads.mono (h : c.Spreads Q t) (himp : ∀ t c, Q t c → Q' t c) : c.Spreads Q' t := by
  induction c generalizing t with
  | multiplex id aggregate ih => exact ⟨himp _ _ h.1, ih h.2⟩
  | _ => exact himp _ _ h

theorem Spreads.and (h : c.Spreads Q t) (h' : c.Spreads Q' t) :
    c.Spreads (fun t c => Q t c ∧ Q' t c) t := by
  induction c generalizing t with
  | multiplex id aggregate ih => exact ⟨⟨h.1, h'.1⟩, ih h.2 h'.2⟩
  | _ => exact ⟨h, h'⟩

/-- Whatever is passed on for someone who is known is known. -/
theorem Known.spreads (h : c.Known o) (ht : t.Below o.multiplexers) : c.Spreads o.Covers t := by
  induction c generalizing t with
  | multiplex id aggregate ih => exact ⟨⟨ht, h⟩, ih h.2 (t := .multiplexer id) h.1⟩
  | _ => exact ⟨ht, h⟩

end Callback

theorem Outline.Covers.grows {o o' : Outline} {t : Teller} {c : Callback} (h : o.Covers t c)
    (hgrows : o.Grows o') : o'.Covers t c := ⟨h.1.mono hgrows.multiplexers, h.2.grows hgrows⟩

theorem Teller.below_of_ne {t : Teller} (h : ∀ m, t ≠ .multiplexer m) (n : Nat) : t.Below n := by
  cases t with
  | multiplexer m => exact absurd rfl (h m)
  | _ => trivial

/-! ## Deliveries -/

namespace Reports

def outline (r : Reports) : Outline where
  latches := r.latches.length
  completions := r.completions.map (·.latch)
  multiplexers := r.multiplexers.length

theorem latch_completion (r : Reports) (id : Nat) :
    (r.completion id).latch = r.outline.latchOf id := by
  simp only [completion, Outline.latchOf, outline, List.getD_eq_getElem?_getD, List.getElem?_map]
  cases r.completions[id]? <;> rfl

theorem outline_modifyCompletion (r : Reports) (id : Nat) {f : Completion → Completion}
    (hf : ∀ c, (f c).latch = c.latch) : (r.modifyCompletion id f).outline = r.outline := by
  have hmap : (r.completions.modify id f).map (·.latch) = r.completions.map (·.latch) := by
    refine List.ext_getElem? fun i => ?_
    simp only [List.getElem?_map, List.getElem?_modify]
    cases r.completions[i]? with
    | none => simp
    | some c => by_cases h : id = i <;> simp [h, hf]
  simp only [outline, modifyCompletion, hmap]

theorem outline_countDown (r : Reports) (latch : Nat) : (r.countDown latch).outline = r.outline := by
  simp [outline, countDown]

theorem outline_tellCompletion (r : Reports) (id : Nat) (event : Event) :
    (r.tellCompletion id event).outline = r.outline := by
  cases event with
  | payload p => exact outline_modifyCompletion r id fun _ => rfl
  | status s => exact outline_modifyCompletion r id fun _ => rfl
  | finished => exact outline_countDown r _

theorem outline_tellShard (r : Reports) (keys : List String) (answer latch : Nat) (event : Event) :
    (r.tellShard keys answer latch event).outline = r.outline := by
  cases event with
  | payload p => cases p <;> rfl
  | status s =>
    simp only [tellShard]
    split <;> rfl
  | finished => exact outline_countDown r latch

theorem outline_tell (r : Reports) (t : Teller) (receiver : Callback) (event : Event) :
    (r.tell t receiver event).outline = r.outline := by
  refine tell_induction (P := fun r' => r'.outline = r.outline)
    (fun id event _ h => (outline_tellCompletion _ id event).trans h)
    (fun keys answer latch event h => (outline_tellShard _ keys answer latch event).trans h)
    (fun id _ f _ h => ?_) (fun _ _ _ _ h => h) rfl
  rw [← h]
  simp [outline, modifyMultiplexer]

variable {may : Teller → Callback → Prop} {r r' : Reports}

theorem Says.outline_eq (h : Says may r r') : r'.outline = r.outline := by
  induction h with
  | nothing => rfl
  | tell _ _ event ih => exact (outline_tell _ _ _ event).trans ih

/-- Each delivery is as described. -/
def Observes (Q : Teller → Callback → Prop) (r : Reports) : Prop :=
  ∀ d ∈ r.journal, Q d.teller d.receiver

variable {Q : Teller → Callback → Prop} {t : Teller}

theorem Observes.enter (h : r.Observes Q) {d : Delivery} (hd : Q d.teller d.receiver) :
    Observes Q { r with journal := d :: r.journal } := List.forall_mem_cons.2 ⟨hd, h⟩

theorem Observes.congr (h : r.Observes Q) (hjournal : r'.journal = r.journal) : r'.Observes Q := by
  rw [Observes, hjournal]
  exact h

theorem Observes.tell {receiver : Callback} (h : r.Observes Q) (hreceiver : receiver.Spreads Q t)
    (event : Event) : (r.tell t receiver event).Observes Q := by
  induction receiver generalizing r t event with
  | completion id =>
    have hentered := h.enter (d := ⟨t, .completion id, event⟩) hreceiver
    rw [Reports.tell.eq_def]
    exact hentered.congr (journal_tellCompletion _ id event)
  | shard keys answer latch =>
    have hentered := h.enter (d := ⟨t, .shard keys answer latch, event⟩) hreceiver
    rw [Reports.tell.eq_def]
    exact hentered.congr (journal_tellShard _ keys answer latch event)
  | multiplex id aggregate ih =>
    have hentered := h.enter (d := ⟨t, .multiplex id aggregate, event⟩) hreceiver.1
    have hcounted : ∀ f, Observes Q (modifyMultiplexer
        { r with journal := ⟨t, .multiplex id aggregate, event⟩ :: r.journal } id f) :=
      fun _ => hentered
    rw [Reports.tell.eq_def]
    cases event with
    | payload p => exact ih hentered hreceiver.2 _
    | status s =>
      dsimp only
      split
      · exact hentered
      · exact hcounted _
    | finished =>
      dsimp only
      split
      · exact ih (ih (hcounted _) hreceiver.2 _) hreceiver.2 _
      · exact hcounted _
      · exact hentered
  | _ =>
    rw [Reports.tell.eq_def]
    exact h.enter hreceiver

theorem Says.observes (h : Says may r r') (hr : r.Observes Q)
    (hmay : ∀ {t c}, may t c → c.Spreads Q t) : r'.Observes Q := by
  induction h with
  | nothing => exact hr
  | tell _ ht event ih => exact ih.tell (hmay ht) event

end Reports

/-! ## Engines -/

namespace Engine

/-- Each delivery is as described, and those that may still come are. -/
structure Abides (Q : Teller → Callback → Prop) (e : Engine) : Prop where
  journal : e.reports.Observes Q
  talkers : ∀ {t c}, e.MayTell t c → c.Spreads Q t

theorem reports_listen (e : Engine) (id : Nat) (listener : Callback) :
    (e.listen id listener).1.reports = e.reports := by
  unfold listen
  split
  · split <;> rfl
  · rfl

variable {Q Q' : Teller → Callback → Prop} {e e' : Engine}

namespace Abides

theorem mono (h : e.Abides Q) (himp : ∀ t c, Q t c → Q' t c) : e.Abides Q' :=
  ⟨fun d hd => himp _ _ (h.journal d hd), fun ht => (h.talkers ht).mono himp⟩

theorem and (h : e.Abides Q) (h' : e.Abides Q') : e.Abides fun t c => Q t c ∧ Q' t c :=
  ⟨fun d hd => ⟨h.journal d hd, h'.journal d hd⟩, fun ht => (h.talkers ht).and (h'.talkers ht)⟩

/-- Neither tables nor metrics matter. -/
theorem congr (h : e.Abides Q) (hops : e'.operations = e.operations)
    (hjournal : e'.reports.journal = e.reports.journal) : e'.Abides Q := by
  have hget : ∀ id, e'.get? id = e.get? id := fun id => by rw [get?, get?, hops]
  refine ⟨h.journal.congr hjournal, fun {t c} ht => ?_⟩
  obtain ⟨id, op, hop, hwho⟩ := ht
  exact h.talkers ⟨id, op, (hget id).symm.trans hop, hwho⟩

theorem evolves (h : e.Abides Q) {blame : Nat → Option ProtocolError} (hevolves : e.Evolves blame e') :
    e'.Abides Q :=
  ⟨hevolves.reports.observes h.journal h.talkers, fun ht => h.talkers (hevolves.mayTell ht)⟩

theorem add (h : e.Abides Q) (work : Work) (idempotent : Bool) {callback : Callback}
    (hcallback : callback.Spreads Q (.operation e.size)) :
    (e.add work idempotent callback).1.Abides Q := by
  refine ⟨h.journal, fun {t c} ht => ?_⟩
  obtain ⟨id, op, hop, hnone, hwho⟩ := ht
  rw [get?_add] at hop
  split at hop
  · next hid =>
    cases hop
    rcases hwho with ⟨rfl, rfl⟩ | ⟨-, hlistener⟩
    · exact hid ▸ hcallback
    · cases hlistener
  · exact h.talkers ⟨id, op, hop, hnone, hwho⟩

theorem listen (h : e.Abides Q) (id : Nat) {listener : Callback}
    (hlistener : ∀ t, (∀ m, t ≠ .multiplexer m) → listener.Spreads Q t) :
    (e.listen id listener).1.Abides Q := by
  refine ⟨h.journal.congr (congrArg Reports.journal (reports_listen e id listener)),
    fun {t c} ht => ?_⟩
  rcases (proceeds_listen e id listener).mayTell ht with hmay | rfl
  · exact h.talkers hmay
  · refine hlistener t fun m hm => ?_
    obtain ⟨_, _, -, -, ⟨hoperation, -⟩ | ⟨hlistening, -⟩⟩ := ht
    · cases hm.symm.trans hoperation
    · cases hm.symm.trans hlistening

/-- An operation that has ended tells someone of it who has come too late to listen. -/
theorem conclude (h : e.Abides Q) (member : Nat) {receiver : Callback}
    (hreceiver : ∀ t, (∀ m, t ≠ .multiplexer m) → receiver.Spreads Q t) (status : Status) :
    Abides Q { e with reports := e.reports.conclude (.finishedEarly member) receiver status } := by
  have hspreads : receiver.Spreads Q (.finishedEarly member) := hreceiver _ fun m hm => by cases hm
  exact ⟨(h.journal.tell hspreads _).tell hspreads _, h.talkers⟩

end Abides

end Engine

end ShardedCache

import Mathlib.Logic.Relation
import ShardedCache.Proofs.Engine.Lapsing
import ShardedCache.Proofs.Engine.Tally

/-!
# Moves of an engine

Whatever happens to an engine is made of a few moves (`Engine.Move`): lives go on, operations are made
and listened to, and tables are extended. The moves are those after some moment: new callbacks lead to
nothing that was there by then. A proper engine refers to nothing that is not there, and moves leave it
proper (`Engine.Proper.moves`). What has lapsed stays so, and no batch is made of it
(`Engine.Moves.shelved`).
-/

namespace ShardedCache

open Wire (Status)

namespace Reports

/-- Only tables have been extended, and new completions have heard nothing. -/
structure Extends (r r' : Reports) : Prop where
  journal : r'.journal = r.journal
  latches : r.latches <+: r'.latches
  completions : r.completions <+: r'.completions
  blank : ∀ k, r.completions.length ≤ k → ∃ latch, r'.completion k = { latch }
  multiplexers : r.multiplexers <+: r'.multiplexers
  answers : r.answers.length ≤ r'.answers.length

theorem blank_of_length_le (r : Reports) (k : Nat) (h : r.completions.length ≤ k) :
    ∃ latch, r.completion k = { latch } := by
  refine ⟨0, ?_⟩
  rw [completion, List.getD_eq_getElem?_getD, List.getElem?_eq_none h]
  rfl

theorem extends_addLatch (r : Reports) (count : Nat) : r.Extends (r.addLatch count).1 :=
  ⟨rfl, List.prefix_append _ _, List.prefix_refl _, r.blank_of_length_le, List.prefix_refl _,
    Nat.le_refl _⟩

theorem extends_addCompletion (r : Reports) (latch : Nat) : r.Extends (r.addCompletion latch).1 := by
  refine ⟨rfl, List.prefix_refl _, List.prefix_append _ _, fun k hk => ?_, List.prefix_refl _,
    Nat.le_refl _⟩
  rcases Nat.eq_or_lt_of_le hk with rfl | hlt
  · exact ⟨latch, by simp [completion, addCompletion]⟩
  · exact blank_of_length_le _ k (by simpa [addCompletion, Nat.succ_le_iff] using hlt)

theorem extends_addMultiplexer (r : Reports) (count : Nat) : r.Extends (r.addMultiplexer count).1 :=
  ⟨rfl, List.prefix_refl _, List.prefix_refl _, r.blank_of_length_le, List.prefix_append _ _,
    Nat.le_refl _⟩

theorem extends_addAnswer (r : Reports) (answer : SortedGet.Answer StoredValue) :
    r.Extends (r.addAnswer answer).1 :=
  ⟨rfl, List.prefix_refl _, List.prefix_refl _, r.blank_of_length_le, List.prefix_refl _,
    by simp [addAnswer]⟩

theorem extends_modifyAnswer (r : Reports) (id : Nat)
    (f : SortedGet.Answer StoredValue → SortedGet.Answer StoredValue) :
    r.Extends (r.modifyAnswer id f) :=
  ⟨rfl, List.prefix_refl _, List.prefix_refl _, r.blank_of_length_le, List.prefix_refl _,
    by simp [modifyAnswer]⟩

variable {r r' : Reports}

theorem Extends.completion_eq (h : r.Extends r') {k : Nat} (hk : k < r.completions.length) :
    r'.completion k = r.completion k := by
  obtain ⟨more, hmore⟩ := h.completions
  simp only [completion, List.getD_eq_getElem?_getD, ← hmore, List.getElem?_append_left hk]

theorem Extends.grows (h : r.Extends r') : r.outline.Grows r'.outline :=
  ⟨h.latches.length_le, h.completions.map _, h.multiplexers.length_le⟩

/-- The number of answers is no part of the outline, as no callback is told by it. -/
theorem answers_tell (r : Reports) (t : Teller) (receiver : Callback) (event : Event) :
    (r.tell t receiver event).answers.length = r.answers.length := by
  refine tell_induction (P := fun r' => r'.answers.length = r.answers.length)
    (fun id event _ h => ?_) (fun keys answer latch event h => ?_) (fun _ _ _ _ h => h)
    (fun _ _ _ _ h => h) rfl
  · cases event <;> exact h
  · cases event with
    | payload p => cases p <;> first | exact h | exact (List.length_modify ..).trans h
    | status s =>
      simp only [tellShard]
      split <;> first | exact h | exact (List.length_modify ..).trans h
    | finished => exact h

theorem Says.answers_eq {may : Teller → Callback → Prop} (h : Says may r r') :
    r'.answers.length = r.answers.length := by
  induction h with
  | nothing => rfl
  | tell _ _ event ih => exact (answers_tell _ _ _ event).trans ih

end Reports

namespace Engine

/-! ## Moves -/

inductive Move (since : Outline) (e : Engine) : Engine → Prop where
  /-- Lives have gone on. -/
  | evolve {e' : Engine} {blame : Nat → Option ProtocolError} (hevolves : e.Evolves blame e')
    (hgoes : e.Goes e') (hlapsed : ∀ {x}, e.lapsed x = true → e'.lapsed x = true) : Move since e e'
  /-- An operation has been made. -/
  | add (work : Work) (idempotent : Bool) {callback : Callback}
    (hwork : ∀ m ∈ work.members, e.IsSingle m) (hknown : callback.Known e.reports.outline)
    (hbeyond : callback.Beyond since e.reports.outline)
    (hopen : ∀ m ∈ work.members, e.lapsed m = false) :
    Move since e (e.add work idempotent callback).1
  | listen (id : Nat) {listener : Callback} (hknown : listener.Known e.reports.outline)
    (hbeyond : listener.Beyond since e.reports.outline) : Move since e (e.listen id listener).1
  /-- Someone has come too late to listen. -/
  | conclude (member : Nat) {receiver : Callback} (hknown : receiver.Known e.reports.outline)
    (hbeyond : receiver.Beyond since e.reports.outline) (status : Status) :
    Move since e { e with reports := e.reports.conclude (.finishedEarly member) receiver status }
  | extend {r : Reports} (h : e.reports.Extends r)
    (hlatches : ∀ latch ∈ r.outline.completions, latch < r.outline.latches) :
    Move since e { e with reports := r }

def Moves (since : Outline) : Engine → Engine → Prop := Relation.ReflTransGen (Move since)

variable {since : Outline} {e e' e'' : Engine}

theorem Move.moves (h : e.Move since e') : e.Moves since e' := .single h

theorem Moves.refl (e : Engine) : e.Moves since e := Relation.ReflTransGen.refl

theorem Moves.trans (h : e.Moves since e') (h' : e'.Moves since e'') : e.Moves since e'' :=
  Relation.ReflTransGen.trans h h'

/-- Everything that the engine refers to is there. -/
structure Proper (e : Engine) : Prop where
  orderly : e.Orderly
  known : e.Abides e.reports.outline.Covers
  latches : ∀ latch ∈ e.reports.outline.completions, latch < e.reports.outline.latches

namespace Move

theorem grows (h : e.Move since e') : e.reports.outline.Grows e'.reports.outline := by
  cases h with
  | evolve hevolves _ => exact Outline.grows_of_eq hevolves.reports.outline_eq
  | add work idempotent _ _ _ => exact Outline.Grows.refl _
  | listen id _ _ => exact Outline.grows_of_eq (congrArg _ (reports_listen e id _))
  | conclude member _ _ status =>
    exact Outline.grows_of_eq ((Reports.outline_tell _ _ _ _).trans (Reports.outline_tell _ _ _ _))
  | extend h _ => exact h.grows

theorem answers_le (h : e.Move since e') :
    e.reports.answers.length ≤ e'.reports.answers.length := by
  cases h with
  | evolve hevolves _ => exact Nat.le_of_eq hevolves.reports.answers_eq.symm
  | add work idempotent _ _ _ => exact Nat.le_refl _
  | listen id _ _ => exact Nat.le_of_eq (congrArg (·.answers.length) (reports_listen e id _)).symm
  | conclude member _ _ status =>
    exact Nat.le_of_eq ((Reports.answers_tell _ _ _ _).trans (Reports.answers_tell _ _ _ _)).symm
  | extend h _ => exact h.answers

theorem goes (h : e.Move since e') (he : e.Sound) : e.Goes e' := by
  cases h with
  | evolve _ hgoes _ => exact hgoes
  | add work idempotent hwork _ _ => exact goes_add he idempotent _ hwork
  | listen id _ _ => exact goes_listen he id _
  | @conclude member receiver _ _ status =>
    have hsame : e.Becomes (fun _ l => l)
        { e with reports := e.reports.conclude (.finishedEarly member) receiver status } := by
      refine ⟨fun id => ?_, fun id _ => ?_, rfl⟩
      · simp [life?, get?, heardOf, Reports.heard_conclude, Function.comp_def]
      · simp [heardOf, Reports.heard_conclude]
    exact hsame.goes_open he (fun _ => Life.lawful_id) fun _ _ => rfl
  | extend h _ => exact (Goes.refl he).congr rfl h.journal rfl

theorem steady (h : e.Move since e') (he : e.Steady) : e'.Steady := by
  cases h with
  | evolve hevolves _ => exact hevolves.steady he
  | add work idempotent _ _ _ => exact (proceeds_add (fun _ => False) e work idempotent _).steady he
  | listen id _ _ => exact (proceeds_listen e id _).steady he
  | conclude member _ _ status =>
    exact (proceeds_finishedEarly (fun _ => False) e member _ status).steady he
  | @extend r h _ =>
    have hlife : ∀ id, Engine.life? { e with reports := r } id = e.life? id := fun id => by
      simp only [life?, heardOf, Reports.heard, h.journal]
      rfl
    exact ⟨fun {id _} hl => he.lives ((hlife id).symm.trans hl),
      fun d hd => he.addressed d (h.journal ▸ hd)⟩

theorem wired (h : e.Move since e') (he : e.Wired e.reports.multiplexers.length) :
    e'.Wired e'.reports.multiplexers.length := by
  have hsame : ∀ {e' : Engine}, e'.Wired e.reports.multiplexers.length →
      e'.Wired e'.reports.multiplexers.length := fun h => h.reports.length.symm ▸ h
  cases h with
  | evolve hevolves _ => exact hsame (he.evolves hevolves)
  | add work idempotent _ hknown _ => exact hsame (he.add work idempotent hknown.below)
  | listen id hknown _ => exact hsame (he.listen id hknown.below)
  | @conclude member receiver hknown _ status =>
    have htold := fun {r : Reports} (hr : r.Wired e.reports.multiplexers.length) event =>
      hr.tell hknown.below (t := .finishedEarly member) trivial event
    exact hsame ⟨htold (htold he.reports _) _, he.callbacks, he.listeners⟩
  | @extend r h _ =>
    have hle := h.multiplexers.length_le
    refine ⟨⟨rfl, fun d hd => ?_, fun d hd => ?_⟩, fun hop => (he.callbacks hop).mono hle,
      fun hop hlistener => (he.listeners hop hlistener).mono hle⟩
    · exact (he.reports.receivers d (h.journal ▸ hd)).mono hle
    · exact (he.reports.tellers d (h.journal ▸ hd)).mono hle

theorem lapsed (h : e.Move since e') {x : Nat} (hx : e.lapsed x = true) : e'.lapsed x = true := by
  cases h with
  | evolve _ _ hlapsed => exact hlapsed hx
  | add work idempotent _ _ _ _ =>
    refine (lapsed_congr ?_).trans hx
    rw [get?_add, if_neg (Nat.ne_of_lt (lt_size_of_lapsed hx))]
  | listen id _ _ =>
    refine ((becomes_listen e id _).lapsed_eq fun l => ?_).trans hx
    exact lapsed_eq_among (Life.lapsed_listen _) _ l
  | conclude member _ _ status => exact hx
  | extend _ _ => exact hx

/-- Whatever is true of the deliveries that there are or may be, and of those that new callbacks bring
in, stays true. -/
theorem abides {Q : Teller → Callback → Prop} (h : e.Move since e') (he : e.Abides Q)
    (hQ : ∀ t, (∀ m, t ≠ .multiplexer m) → ∀ {c : Callback}, c.Known e.reports.outline →
      c.Beyond since e.reports.outline → c.Spreads Q t) : e'.Abides Q := by
  cases h with
  | evolve hevolves _ => exact he.evolves hevolves
  | add work idempotent _ hknown hbeyond =>
    exact he.add work idempotent (hQ _ (fun m hm => by cases hm) hknown hbeyond)
  | listen id hknown hbeyond => exact he.listen id fun t ht => hQ t ht hknown hbeyond
  | conclude member hknown hbeyond status =>
    exact he.conclude member (fun t ht => hQ t ht hknown hbeyond) status
  | extend h _ => exact he.congr rfl h.journal

end Move

/-- **Moves leave an engine proper.** -/
theorem Proper.move (he : e.Proper) (h : e.Move since e') : e'.Proper where
  orderly := ⟨(h.goes he.orderly.sound).sound, h.steady he.orderly.steady, h.wired he.orderly.wired⟩
  known := (h.abides he.known fun t ht _ hknown _ => hknown.spreads (Teller.below_of_ne ht _)).mono
    fun _ _ hcovers => hcovers.grows h.grows
  latches := by
    cases h with
    | evolve hevolves _ =>
      rw [hevolves.reports.outline_eq]
      exact he.latches
    | add work idempotent _ _ _ => exact he.latches
    | listen id _ _ =>
      rw [reports_listen]
      exact he.latches
    | conclude member _ _ status =>
      rw [Reports.conclude, Reports.outline_tell, Reports.outline_tell]
      exact he.latches
    | extend _ hlatches => exact hlatches

theorem Proper.moves (he : e.Proper) (h : e.Moves since e') : e'.Proper := by
  induction h with
  | refl => exact he
  | tail _ hmove ih => exact ih.move hmove

namespace Moves

theorem grows (h : e.Moves since e') : e.reports.outline.Grows e'.reports.outline := by
  induction h with
  | refl => exact Outline.Grows.refl _
  | tail _ hmove ih => exact ih.trans hmove.grows

theorem answers_le (h : e.Moves since e') :
    e.reports.answers.length ≤ e'.reports.answers.length := by
  induction h with
  | refl => exact Nat.le_refl _
  | tail _ hmove ih => exact Nat.le_trans ih hmove.answers_le

theorem goes (h : e.Moves since e') (he : e.Sound) : e.Goes e' := by
  induction h with
  | refl => exact Goes.refl he
  | tail _ hmove ih => exact ih.trans (hmove.goes ih.sound)

end Moves

/-! ## Out of reach -/

/-- Lapsed, and in no batch. -/
structure Shelved (e : Engine) (x : Nat) : Prop where
  lapsed : e.lapsed x = true
  apart : ∀ b, x ∉ e.members b

/-- No new batch is made of what has lapsed. -/
theorem Move.lapsed_of_new (h : e.Move since e') {b : Nat} (hb : e.size ≤ b) :
    ∀ m ∈ e'.members b, e.lapsed m = false := by
  have hnone : e.get? b = none := get?_eq_none_iff.2 hb
  have hempty : ∀ {e' : Engine}, e'.get? b = none → ∀ m ∈ e'.members b, e.lapsed m = false :=
    fun hnone m hm => by
      rw [members, hnone] at hm
      cases hm
  cases h with
  | evolve hevolves _ _ => exact hempty (hevolves.none hnone)
  | add work idempotent _ _ _ hopen =>
    intro m hm
    rw [members, get?_add] at hm
    split at hm
    · exact hopen m hm
    · rw [hnone] at hm
      cases hm
  | listen id _ _ => exact hempty ((becomes_listen e id _).get?_eq_none.2 hnone)
  | conclude member _ _ status => exact hempty hnone
  | extend _ _ => exact hempty hnone

theorem Move.shelved (h : e.Move since e') (he : e.Sound) {x : Nat} (hx : e.Shelved x) :
    e'.Shelved x := by
  refine ⟨h.lapsed hx.lapsed, fun b hb => ?_⟩
  by_cases hold : b < e.size
  · rw [(h.goes he).follows.members_eq hold] at hb
    exact hx.apart b hb
  · have hopen := h.lapsed_of_new (Nat.le_of_not_lt hold) x hb
    rw [hx.lapsed] at hopen
    cases hopen

namespace Moves

theorem lapsed (h : e.Moves since e') {x : Nat} (hx : e.lapsed x = true) : e'.lapsed x = true := by
  induction h with
  | refl => exact hx
  | tail _ hmove ih => exact hmove.lapsed ih

/-- **What has lapsed outside of all batches stays so, whatever happens.** -/
theorem shelved (h : e.Moves since e') (he : e.Sound) {x : Nat} (hx : e.Shelved x) :
    e'.Shelved x := by
  induction h with
  | refl => exact hx
  | tail hmoves hmove ih => exact hmove.shelved (Moves.goes hmoves he).sound ih

end Moves

theorem proper_of_initial (h : e.Initial) (htables : e.reports = {}) : e.Proper := by
  refine ⟨orderly_of_initial h, ⟨fun d hd => ?_, fun {t c} ht => ?_⟩, fun latch hlatch => ?_⟩
  · rw [h.journal] at hd
    cases hd
  · obtain ⟨id, op, hop, -⟩ := ht
    rw [get?, h.operations] at hop
    cases hop
  · rw [htables] at hlatch
    cases hlatch

/-! ## What moves are made of -/

/-- An act that goes on with what is there. What has lapsed is not written. -/
theorem moves_act (he : e.Proper) {a : Act} (ha : a.GoesOn)
    (hfill : ∀ id room, a = .fill id room → e.lapsed id = false) : e.Moves since (e.act a) :=
  (Move.evolve (evolves_act he.orderly.steady ha) (goes_act he.orderly.sound ha)
    (lapsed_act he.orderly.sound ha hfill)).moves

theorem moves_cancel (he : e.Proper) (id : Nat) (cause : String) :
    e.Moves since (e.cancel id cause).1 :=
  moves_act (a := .cancel id cause) he trivial fun _ _ heq => by cases heq

/-- What is not told to anybody, and ends nothing. -/
theorem moves_modify (he : e.Proper) (id : Nat) {f : Operation → Operation}
    (hf : ∀ op, (f op).nature = op.nature ∧ (f op).listener = op.listener ∧ (f op).phase = op.phase ∧
      (f op).status = op.status ∧ (f op).cancelCause = op.cancelCause ∧ (f op).error = op.error ∧
      (f op).request = op.request) :
    e.Moves since (e.modify id f) := by
  have hterminal : ∀ l : Life, (l.mapOperation f).isTerminal = l.isTerminal := fun l =>
    congrArg Phase.isTerminal (hf l.operation).2.2.1
  have hevolves : ∀ l : Life, Life.Evolves none l (l.mapOperation f) := fun l => by
    obtain ⟨hnature, hlistener, hphase, hstatus, hcause, herror, -⟩ := hf l.operation
    exact Life.evolves_mapOperation hnature hlistener (hterminal l) hstatus fun _ =>
      ⟨hphase, hcause, herror⟩
  have hlapsed : ∀ l : Life, (l.mapOperation f).operation.lapsed = l.operation.lapsed := fun l => by
    obtain ⟨-, -, hphase, -, -, -, hrequest⟩ := hf l.operation
    simp only [Life.mapOperation, Operation.lapsed, Operation.isCancelled, Operation.writeStarted,
      hphase, hrequest]
  refine (Move.evolve (evolves_modify e id hevolves) ?_ fun {x} hx => ?_).moves
  · refine (becomes_modify e id f).goes_open he.orderly.sound (Life.Lawful.among (fun l hl => ?_) _)
      fun j l => isTerminal_among hterminal _ j l
    exact ⟨(hevolves l).sound hl, (hevolves l).follows⟩
  · refine ((becomes_modify e id f).lapsed_eq fun l => ?_).trans hx
    exact lapsed_eq_among hlapsed _ l

/-- Neither metrics nor logs matter. -/
theorem moves_record (he : e.Proper) (metrics : Metrics) (rejections : List Rejection) :
    e.Moves since { e with metrics, rejections } :=
  (Move.evolve ((Evolves.refl e).record metrics rejections)
    ((Goes.refl he.orderly.sound).congr rfl rfl rfl) id).moves

/-- Several changes, one after the other. -/
theorem moves_each {f : Engine → Nat → Engine}
    (hf : ∀ {e : Engine} m, e.Proper → e.Moves since (f e m)) :
    ∀ (ids : List Nat) {e : Engine}, e.Proper → e.Moves since (e.each ids f)
  | [], e, _ => Moves.refl e
  | m :: ids, _, he => (hf m he).trans (moves_each hf ids (he.moves (hf m he)))

theorem moves_extend (he : e.Proper) {r : Reports} (h : e.reports.Extends r)
    (hlatches : r.outline.completions = e.reports.outline.completions) :
    e.Moves since { e with reports := r } := by
  refine (Move.extend h fun latch hlatch => ?_).moves
  rw [hlatches] at hlatch
  exact Nat.lt_of_lt_of_le (he.latches latch hlatch) h.grows.latches

section Join

variable {multiplexer : Nat} (hsince : since.multiplexers ≤ multiplexer)

include hsince

theorem moves_join (hknown : multiplexer < e.reports.outline.multiplexers) (member : Nat) :
    e.Moves since (join (.multiplex multiplexer .silent) e member) := by
  have hlisten : e.Moves since (e.listen member (.multiplex multiplexer .silent)).1 :=
    Move.moves (.listen member ⟨hknown, trivial⟩ ⟨hsince, trivial⟩)
  unfold join
  split
  · next e' heq =>
    rw [heq] at hlisten
    exact hlisten
  · next e' heq =>
    rw [heq] at hlisten
    have hlater : (Callback.multiplex multiplexer .silent).Known e'.reports.outline :=
      ⟨Nat.lt_of_lt_of_le hknown hlisten.grows.multiplexers, trivial⟩
    have hbeyond : (Callback.multiplex multiplexer .silent).Beyond since e'.reports.outline :=
      ⟨hsince, trivial⟩
    exact hlisten.trans (Move.moves (.conclude member hlater hbeyond _))

theorem moves_joinEach : ∀ (members : List Nat) {e : Engine},
    multiplexer < e.reports.outline.multiplexers →
      e.Moves since (e.each members (join (.multiplex multiplexer .silent)))
  | [], e, _ => Moves.refl e
  | m :: members, e, hknown => by
    have hfirst := moves_join hsince hknown m
    have hlater := Nat.lt_of_lt_of_le hknown hfirst.grows.multiplexers
    exact hfirst.trans (moves_joinEach members hlater)

end Join

/-- A batch listens to its members with a new multiplexer. -/
theorem moves_batch (he : e.Proper) (hsince : since.multiplexers ≤ e.reports.outline.multiplexers)
    (family : BatchFamily) {members : List Nat} (h : ∀ m ∈ members, e.IsSingle m)
    (hopen : ∀ m ∈ members, e.lapsed m = false) :
    e.Moves since (e.batch family members .silent).1 := by
  have hcounted : e.Moves since { e with reports := (e.reports.addMultiplexer members.length).1 } :=
    moves_extend he (Reports.extends_addMultiplexer e.reports members.length) rfl
  have hjoined : e.Moves since (e.joined members .silent) := by
    refine hcounted.trans (moves_joinEach hsince members ?_)
    simp [Reports.outline, Reports.addMultiplexer]
  obtain ⟨multiplexer, idempotent, hbatch⟩ := batch_eq e family members .silent
  rw [hbatch]
  obtain ⟨listener, hlistening⟩ := becomes_joined (e := e) .silent h
  refine hjoined.trans (Move.moves (.add _ _ (fun m hm => ?_) trivial trivial fun m hm => ?_))
  · exact (h m hm).follows (hjoined.goes he.orderly.sound).follows
  · refine (hlistening.lapsed_eq fun l => ?_).trans (hopen m hm)
    exact lapsed_eq_among (Life.lapsed_listen listener) _ l

end Engine

end ShardedCache

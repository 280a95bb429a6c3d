import Mathlib.Data.List.Induction
import Mathlib.Logic.Relation
import ShardedCache.Proofs.Engine.Hearing
import ShardedCache.Proofs.Node.Traffic
import ShardedCache.Proofs.Wire.Pieces

/-!
# Replies reach nobody else

Whatever the server sends, in whatever pieces, an operation hears of a payload or of a success only
while a frame is handled that is due to it (`Lane.told_by_own_reply`). All that is not processing
tells failures at most (`Lane.adds_step`), and so does each round of processing, but for the frame
that it hands to the head of the read queue (`Queue.origin_rounds`).
-/

namespace ShardedCache

open Wire (Frame)

namespace Engine

theorem Sound.heardOf_of_open {e : Engine} (he : e.Sound) {id : Nat} {op : Operation}
    (hop : e.get? id = some op) (hstatus : op.status = none) : e.heardOf id = ([], []) := by
  have hl := he.lives (life?_of_get? hop)
  have hopen : op.isTerminal = false := by
    have := hl.ended
    rwa [hstatus] at this
  exact Prod.ext (hl.heard_eq_nil hopen) (hl.overheard_eq_nil hopen)

theorem joined_of_same {e e' : Engine} (h : ∀ id, e.Same e' id) (hjoined : ∀ id, e.Joined id)
    (id : Nat) : e'.Joined id := by
  intro n b hn hb m hm
  rw [(h id).nature] at hn
  rw [(h m).command?_eq]
  exact hjoined id n b hn hb m hm

/-- If there are no new operations, no batch has been made. -/
theorem Goes.joined {e e' : Engine} (h : e.Goes e') (he : e.Sound) (hsize : e'.size = e.size)
    (hjoined : ∀ id, e.Joined id) (id : Nat) : e'.Joined id := by
  by_cases hid : id < e.size
  · exact h.follows.joined he hid (hjoined id)
  · intro n b hn
    exact absurd (hsize ▸ lt_size_of_nature? hn) hid

end Engine

namespace Queue

/-! ## Packing tells nothing -/

theorem Regrouped.heardOf_eq {q : Queue} {e e' : Engine} {family : BatchFamily} {n : Nat}
    (h : Regrouped q e family n e') (he : e.Sound) (id : Nat) : e'.heardOf id = e.heardOf id := by
  have hsound := (h.goes he).sound
  by_cases hid : id < e.size
  · exact (h.same hid).1.heard
  · rw [he.silent (Engine.get?_eq_none_iff.2 (Nat.not_lt.1 hid))]
    cases hop : e'.get? id with
    | none => exact hsound.silent hop
    | some op =>
      have hlast : id = e.size := by
        have := Engine.lt_size_of_get? hop
        rw [h.size_eq] at this
        omega
      obtain ⟨_, _, _, hnew⟩ := h.get?_size
      subst hlast
      exact hsound.heardOf_of_open hnew rfl

theorem Regrouped.joined {q : Queue} {e e' : Engine} {family : BatchFamily} {n : Nat}
    (h : Regrouped q e family n e') (he : e.Sound) (hjoined : ∀ id, e.Joined id) (id : Nat) :
    e'.Joined id := by
  by_cases hid : id < e.size
  · exact (h.goes he).follows.joined he hid (hjoined id)
  · intro nature b hn hb m hm
    have hlast : id = e.size := by
      have := Engine.lt_size_of_nature? hn
      rw [h.size_eq] at this
      omega
    obtain ⟨_, _, _, hnew⟩ := h.get?_size
    rw [hlast, Engine.nature?_of_get? hnew] at hn
    cases hn
    cases hb
    obtain ⟨c, hc, hfamily⟩ := command?_of_fits (h.fits m hm)
    rw [(h.same (Engine.lt_size_of_isSingle (h.isSingle hm))).1.command?_eq]
    exact ⟨c, hc, hfamily⟩

theorem packing_quiet {q q' : Queue} {e e' : Engine} (hstep : Packing q e q' e') (he : e.Sound)
    (hjoined : ∀ id, e.Joined id) :
    (∀ id, e'.heardOf id = e.heardOf id) ∧ ∀ id, e'.Joined id := by
  have hsame : ∀ {f : Engine}, (∀ j, e.Same f j) →
      (∀ id, f.heardOf id = e.heardOf id) ∧ ∀ id, f.Joined id := fun h =>
    ⟨fun id => (h id).heard, Engine.joined_of_same h hjoined⟩
  cases hstep with
  | drop hq hstarted hcancelled => exact ⟨fun _ => rfl, hjoined⟩
  | @regroup id rest hq hdue =>
    rcases regroup_cases q e id with h | ⟨-, h⟩
    · rw [h]
      exact ⟨fun _ => rfl, hjoined⟩
    · rw [h]
      rcases optimize_cases q e with h | ⟨_, _, _, hregrouped, h⟩ <;> rw [h]
      · exact ⟨fun _ => rfl, hjoined⟩
      · exact ⟨hregrouped.heardOf_eq he, hregrouped.joined he hjoined⟩
  | fill hq hdue hroom hleft => exact hsame fun j => Engine.same_fill he.flat _ _ j
  | @handOn id rest hq hdue hroom hleft =>
    have hfill := Engine.same_fill he.flat id (q.settings.writeBufferSize - q.writeBuffer.length)
    have hsound := (Engine.goes_fill he id (q.settings.writeBufferSize - q.writeBuffer.length)).sound
    exact hsame fun j => (hfill j).trans (Engine.same_finishWriting hsound.flat id j)

theorem pack_quiet (q : Queue) {e : Engine} (he : e.Sound) (hjoined : ∀ id, e.Joined id) :
    (∀ id, (q.pack e).2.heardOf id = e.heardOf id) ∧ ∀ id, (q.pack e).2.Joined id := by
  have hpack := pack_induction (P := fun _ e' =>
      e'.Sound ∧ (∀ id, e'.heardOf id = e.heardOf id) ∧ ∀ id, e'.Joined id)
    (fun hstep ⟨hsound, hheard, hjoined⟩ => by
      obtain ⟨hheard', hjoined'⟩ := packing_quiet hstep hsound hjoined
      exact ⟨(goes_packing hstep hsound).1.sound, fun id => (hheard' id).trans (hheard id), hjoined'⟩)
    q e ⟨he, fun _ => rfl, hjoined⟩
  exact hpack.2

/-! ## Losing the connection tells cancellations alone -/

theorem cancelEach_modest {cause : String} : ∀ {ids : List Nat} {e : Engine}, e.Sound →
    e.Adds (fun _ => Event.IsModest) (cancelEach e ids cause) ∧
      e.Goes (cancelEach e ids cause) ∧ (cancelEach e ids cause).size = e.size
  | [], e, he => ⟨Engine.adds_of_heardOf (fun _ => rfl) _, Engine.Goes.refl he, rfl⟩
  | id :: ids, e, he => by
    have hgoes := (Engine.goes_cancel he id cause).1
    obtain ⟨hrest, hgoes', hsize⟩ := @cancelEach_modest cause ids (e.cancel id cause).1 hgoes.sound
    exact ⟨(Engine.adds_cancel he.flat id cause).trans hrest, hgoes.trans hgoes',
      hsize.trans (size_cancel he id cause)⟩

theorem Resending.modest {e e' : Engine} {cause : String} {ids kept : List Nat}
    (h : Resending e cause ids kept e') (he : e.Sound) :
    e.Adds (fun _ => Event.IsModest) e' ∧ e.Goes e' ∧ e'.size = e.size := by
  cases h with
  | stays hstarted => exact ⟨Engine.adds_of_heardOf (fun _ => rfl) _, Engine.Goes.refl he, rfl⟩
  | @repeats id rest hmay =>
    have hreset := Engine.becomes_reset he.flat id
    refine ⟨hreset.adds fun j l _ => ?_, Engine.goes_reset he id, hreset.size_eq⟩
    split
    · exact Engine.adds_among fun _ => Life.adds_reset _ l
    · exact Life.Adds.refl _ l
  | @givesUp id rest hmay =>
    exact ⟨Engine.adds_cancel he.flat id cause, (Engine.goes_cancel he id cause).1,
      size_cancel he id cause⟩

theorem resend_modest (q : Queue) {e : Engine} (he : e.Sound) (cause : String) :
    e.Adds (fun _ => Event.IsModest) (q.resend e cause).2 ∧ e.Goes (q.resend e cause).2 ∧
      (q.resend e cause).2.size = e.size := by
  obtain ⟨hadds, hgoes, hsize⟩ := @cancelEach_modest cause q.readQueue e he
  obtain ⟨kept, e', hstep, heq⟩ := resending q e cause
  obtain ⟨hadds', hgoes', hsize'⟩ := hstep.modest hgoes.sound
  rw [heq]
  exact ⟨hadds.trans hadds', hgoes.trans hgoes', hsize'.trans hsize⟩

/-! ## Processing hands frames on -/

/-- One round of processing, as a step from one state to the next. -/
def Round (s s' : Queue × Engine) : Prop := Processing s.1 s.2 s'.1 s'.2

/-- Processing goes by rounds. -/
theorem rounds_process (q : Queue) (e : Engine) :
    Relation.ReflTransGen Round (q, e) ((q.process e).1, (q.process e).2.1) :=
  process_induction (P := fun q' e' => Relation.ReflTransGen Round (q, e) (q', e'))
    (fun hstep h => h.tail hstep) q e .refl

/-- The frame at the front of what has arrived is handed to the operation at the head of the read
queue. -/
structure Hands (f : Frame) (head : Nat) (before after : Queue × Engine) : Prop where
  parsed : ∃ rest, Frame.parse Wire.responseMagic before.1.readBuffer = .frame f rest
  waits : before.1.readQueue.head? = some head
  received : after.2 = (before.2.receive head f).1
  round : Round before after

/-- A round hands a frame on, or it tells nothing but a failure. -/
theorem Round.cases {s s' : Queue × Engine} (h : Round s s') (he : s.2.Sound) :
    (∃ f head, Hands f head s s') ∨ s.2.Adds (fun _ => Event.IsModest) s'.2 := by
  obtain ⟨q, e⟩ := s
  obtain ⟨q', e'⟩ := s'
  cases id h with
  | stray hparse hq => exact .inr (Engine.adds_of_heardOf (fun _ => rfl) _)
  | strayFault hparse hq => exact .inr (Engine.adds_of_heardOf (fun _ => rfl) _)
  | fault hparse hq => exact .inr (Engine.adds_fail he.flat _ _)
  | pending hparse hq hreceive => exact .inl ⟨_, _, ⟨_, hparse⟩, by rw [hq]; rfl, rfl, h⟩
  | last hparse hq hreceive => exact .inl ⟨_, _, ⟨_, hparse⟩, by rw [hq]; rfl, rfl, h⟩

theorem Round.keeps {s s' : Queue × Engine} (h : Round s s') (he : s.2.Sound)
    (hjoined : ∀ id, s.2.Joined id) : s.2.Goes s'.2 ∧ ∀ id, s'.2.Joined id := by
  have hgoes := (goes_processing h he).1
  refine ⟨hgoes, hgoes.joined he ?_ hjoined⟩
  obtain ⟨q, e⟩ := s
  obtain ⟨q', e'⟩ := s'
  cases h with
  | stray hparse hq => rfl
  | strayFault hparse hq => rfl
  | fault hparse hq => exact (Engine.becomes_fail he.flat _ _).size_eq
  | pending hparse hq hreceive => exact Engine.size_receive he.flat _ _
  | last hparse hq hreceive => exact Engine.size_receive he.flat _ _

theorem rounds_keep {s s' : Queue × Engine} (h : Relation.ReflTransGen Round s s') (he : s.2.Sound)
    (hjoined : ∀ id, s.2.Joined id) : s.2.Goes s'.2 ∧ ∀ id, s'.2.Joined id := by
  induction h with
  | refl => exact ⟨Engine.Goes.refl he, hjoined⟩
  | tail _ hround ih =>
    obtain ⟨hgoes, hjoined'⟩ := ih
    obtain ⟨hgoes', hjoined''⟩ := hround.keeps hgoes.sound hjoined'
    exact ⟨hgoes.trans hgoes', hjoined''⟩

/-- An event that `t` tells last after all that is in `pre` is told between the two states. -/
def ToldBetween (t : Teller) (pre : List Event) (event : Event) (before after : Queue × Engine) :
    Prop :=
  before.2.reports.heard t <+: pre ∧ pre ++ [event] <+: after.2.reports.heard t

/-- What is told in the course of several rounds is told while one of them hands on a frame. -/
theorem origin_rounds {s s' : Queue × Engine} (h : Relation.ReflTransGen Round s s') (he : s.2.Sound)
    (hjoined : ∀ id, s.2.Joined id) {id : Nat} {t : Teller} (ht : Teller.Speaks id t)
    {pre : List Event} {event : Event} (hevent : ¬ event.IsModest)
    (htold : pre ++ [event] <+: s'.2.reports.heard t) :
    pre ++ [event] <+: s.2.reports.heard t ∨ ∃ f head before after n,
      Relation.ReflTransGen Round s before ∧ Hands f head before after ∧
      Relation.ReflTransGen Round after s' ∧ ToldBetween t pre event before after ∧
      before.2.nature? id = some n ∧ before.2.Due head f id n event := by
  induction h with
  | refl => exact .inl htold
  | @tail m s' hrounds hround ih =>
    obtain ⟨hgoes, hjoined'⟩ := rounds_keep hrounds he hjoined
    have hearlier : pre ++ [event] <+: m.2.reports.heard t →
        pre ++ [event] <+: s.2.reports.heard t ∨ ∃ f head before after n,
          Relation.ReflTransGen Round s before ∧ Hands f head before after ∧
          Relation.ReflTransGen Round after s' ∧ ToldBetween t pre event before after ∧
          before.2.nature? id = some n ∧ before.2.Due head f id n event := fun hm => by
      rcases ih hm with hold | ⟨f, head, before, after, n, hbefore, hhands, hafter, hrest⟩
      · exact .inl hold
      · exact .inr ⟨f, head, before, after, n, hbefore, hhands, hafter.tail hround, hrest⟩
    rcases hround.cases hgoes.sound with ⟨f, head, hhands⟩ | hmodest
    · have hadds := Engine.adds_receive hgoes.sound hjoined' head f
      rw [← hhands.received] at hadds
      rcases (hadds id t ht).prefix_or htold with hm | ⟨hbefore, hmay⟩
      · exact hearlier hm
      · obtain ⟨n, hn, hdue⟩ := hmay.resolve_left hevent
        exact .inr ⟨f, head, m, s', n, hrounds, hhands, .refl, ⟨hbefore, htold⟩, hn, hdue⟩
    · rcases (hmodest id t ht).prefix_or htold with hm | ⟨-, hmay⟩
      · exact hearlier hm
      · exact absurd hmay hevent

end Queue

namespace Lane

/-! ## Runs -/

/-- What a client does, and what the connection does but for processing what arrives, tells failures
at most. -/
theorem adds_step {s : Lane} (h : s.Custody) (hjoined : ∀ id, s.engine.Joined id) {a : Action}
    (ha : ∀ bytes, a ≠ .receive bytes) :
    s.engine.Adds (fun _ => Event.IsModest) (s.step a).engine := by
  have he := h.sound
  have hsame : s.engine.Adds (fun _ => Event.IsModest) s.engine :=
    Engine.adds_of_heardOf (fun _ => rfl) _
  cases a with
  | create command callback =>
    exact Engine.adds_of_heardOf (fun id => Engine.heardOf_add _ _ _ _ id) _
  | submit id =>
    rcases s.step_submit id with ⟨-, hstep⟩ | ⟨cause, hstep⟩ | hstep <;> rw [hstep]
    · exact hsame
    · exact Engine.adds_cancel he.flat id cause
    · exact hsame
  | pushFront id => rcases s.step_pushFront id with ⟨-, hstep⟩ | hstep <;> rw [hstep] <;> exact hsame
  | copyInput => exact hsame
  | take n => exact hsame
  | cancel id cause => exact Engine.adds_cancel he.flat id cause
  | pack => exact Engine.adds_of_heardOf (Queue.pack_quiet s.queue he hjoined).1 _
  | resend cause => exact (Queue.resend_modest s.queue he cause).1
  | receive bytes => exact absurd rfl (ha bytes)

theorem joined_step {s : Lane} (h : s.Custody) (hjoined : ∀ id, s.engine.Joined id) (a : Action) :
    ∀ id, (s.step a).engine.Joined id := by
  have he := h.sound
  have hcancel := fun id cause => (Engine.goes_cancel he id cause).1.joined he
    (Queue.size_cancel he id cause) hjoined
  cases a with
  | create command callback =>
    intro id
    have hgoes := Engine.goes_create he command callback
    by_cases hid : id < s.engine.size
    · exact hgoes.follows.joined he hid (hjoined id)
    · have hget := Engine.get?_add s.engine (.single command) command.kind.isIdempotent callback id
      intro n b hn hb
      split at hget
      · rw [show n = _ from Option.some.inj (hn.symm.trans (Engine.nature?_of_get? hget))] at hb
        cases hb
      · rw [Engine.get?_eq_none_iff.2 (Nat.not_lt.1 hid)] at hget
        have hnone : (s.engine.create command callback).1.nature? id = none := by
          rw [Engine.nature?, Engine.create, hget]
          rfl
        exact absurd (hn.symm.trans hnone) (Option.some_ne_none n)
  | submit id =>
    rcases s.step_submit id with ⟨-, hstep⟩ | ⟨cause, hstep⟩ | hstep <;> rw [hstep]
    · exact hjoined
    · exact hcancel id cause
    · exact hjoined
  | pushFront id =>
    rcases s.step_pushFront id with ⟨-, hstep⟩ | hstep <;> rw [hstep] <;> exact hjoined
  | copyInput => exact hjoined
  | take n => exact hjoined
  | cancel id cause => exact hcancel id cause
  | pack => exact (Queue.pack_quiet s.queue he hjoined).2
  | resend cause =>
    obtain ⟨-, hgoes, hsize⟩ := Queue.resend_modest s.queue he cause
    exact hgoes.joined he hsize hjoined
  | receive bytes =>
    exact (Queue.rounds_keep (Queue.rounds_process (s.queue.appendRead bytes) s.engine) he hjoined).2

theorem joined_run {s : Lane} (h : s.Initial) (actions : List Action) (id : Nat) :
    (s.run actions).engine.Joined id := by
  have hrun := run_induction (P := fun s => s.Custody ∧ ∀ id, s.engine.Joined id)
    (fun s a ⟨hcustody, hjoined⟩ => ⟨custody_step s a hcustody, joined_step hcustody hjoined a⟩)
    actions (s := s) ⟨custody_of_initial h, fun id n b hn => ?_⟩
  · exact hrun.2 id
  · have hget : s.engine.get? id = none := by rw [Engine.get?, h.operations]; rfl
    rw [Engine.nature?, hget] at hn
    cases hn

theorem run_concat (s : Lane) (actions : List Action) (a : Action) :
    s.run (actions ++ [a]) = (s.run actions).step a := List.foldl_append

/-- The queues and the engine after a run, as one state. -/
def state (s : Lane) : Queue × Engine := (s.queue, s.engine)

/-- In the course of a run bytes arrive, and while they are processed a frame is handed on. -/
structure Hands (s : Lane) (actions : List Action) (f : Frame) (head : Nat)
    (before after : Queue × Engine) : Prop where
  arrives : ∃ front bytes rest, actions = front ++ .receive bytes :: rest ∧
    Relation.ReflTransGen Queue.Round
      ((s.run front).queue.appendRead bytes, (s.run front).engine) before ∧
    Relation.ReflTransGen Queue.Round after (s.run (front ++ [.receive bytes])).state
  hands : Queue.Hands f head before after

theorem Hands.concat {s : Lane} {actions : List Action} {f : Frame} {head : Nat}
    {before after : Queue × Engine} (h : s.Hands actions f head before after) (a : Action) :
    s.Hands (actions ++ [a]) f head before after := by
  obtain ⟨front, bytes, rest, rfl, hrounds⟩ := h.arrives
  exact ⟨⟨front, bytes, rest ++ [a], by simp, hrounds⟩, h.hands⟩

/-- Whatever is told in the course of a run, and is no failure, is told while a frame is handed on to
which it is due. -/
theorem origin {s : Lane} (h : s.Initial) (actions : List Action) {id : Nat} {t : Teller}
    (ht : Teller.Speaks id t) {pre : List Event} {event : Event} (hevent : ¬ event.IsModest)
    (htold : pre ++ [event] <+: (s.run actions).engine.reports.heard t) :
    ∃ f head before after n, s.Hands actions f head before after ∧
      Queue.ToldBetween t pre event before after ∧ before.2.nature? id = some n ∧
      (s.run actions).engine.nature? id = some n ∧ before.2.Due head f id n event := by
  induction actions using List.reverseRecOn with
  | nil =>
    have hnil : s.engine.reports.heard t = [] := by simp [Reports.heard, h.journal]
    rw [show (s.run []).engine.reports.heard t = [] from hnil, List.prefix_nil] at htold
    simp at htold
  | append_singleton actions a ih =>
    have hcustody := custody_run h actions
    have hjoined := joined_run h actions
    have hgoes := (goes_step hcustody a).1
    rw [run_concat] at htold ⊢
    have hearlier : pre ++ [event] <+: (s.run actions).engine.reports.heard t →
        ∃ f head before after n, s.Hands (actions ++ [a]) f head before after ∧
          Queue.ToldBetween t pre event before after ∧ before.2.nature? id = some n ∧
          ((s.run actions).step a).engine.nature? id = some n ∧
          before.2.Due head f id n event := fun hold => by
      obtain ⟨f, head, before, after, n, hhands, hbetween, hn, hn', hdue⟩ := ih hold
      refine ⟨f, head, before, after, n, hhands.concat a, hbetween, hn, ?_, hdue⟩
      rw [hgoes.follows.nature?_eq (Engine.lt_size_of_nature? hn'), hn']
    by_cases ha : ∃ bytes, a = .receive bytes
    · obtain ⟨bytes, rfl⟩ := ha
      have hsound := hcustody.sound
      have hrounds := Queue.rounds_process ((s.run actions).queue.appendRead bytes)
        (s.run actions).engine
      rcases Queue.origin_rounds hrounds hsound hjoined ht hevent htold with
        hold | ⟨f, head, before, after, n, hbefore, hhands, hafter, hbetween, hn, hdue⟩
      · exact hearlier hold
      · refine ⟨f, head, before, after, n, ⟨⟨actions, bytes, [], rfl, hbefore, ?_⟩, hhands⟩, hbetween,
          hn, ?_, hdue⟩
        · rw [run_concat]
          exact hafter
        · obtain ⟨hgoes', hjoined'⟩ := Queue.rounds_keep hbefore hsound hjoined
          have hlater := (Queue.rounds_keep (.head hhands.round hafter) hgoes'.sound hjoined').1
          rw [← hn]
          exact hlater.follows.nature?_eq (Engine.lt_size_of_nature? hn)
    · have hadds := adds_step hcustody hjoined fun bytes heq => ha ⟨bytes, heq⟩
      rcases (hadds id t ht).prefix_or htold with hold | ⟨-, hmodest⟩
      · exact hearlier hold
      · exact absurd hmodest hevent

/-- **No reply reaches an operation that it is not for.** Whatever bytes arrive in a run, and however
its operations are batched: an operation that is no batch tells a payload only while a response frame
is handled that reports success under its own tag, and it tells what that frame brings, which for a
get is under the key that was asked for. It tells a success only on account of such a frame, or, if
it is a store that was sent as part of a batch, of a frame under the tag of that batch. -/
theorem told_by_own_reply {s : Lane} (h : s.Initial) (actions : List Action) {id : Nat} {n : Nature}
    {c : Command} (hn : (s.run actions).engine.nature? id = some n) (hc : n.work = .single c)
    {t : Teller} (ht : Teller.Speaks id t) {pre : List Event} {event : Event}
    (htold : pre ++ [event] <+: (s.run actions).engine.reports.heard t) :
    (∀ payload, event = .payload payload → ∃ f head before after,
      s.Hands actions f head before after ∧ Queue.ToldBetween t pre event before after ∧
      f.header.magic = Wire.responseMagic ∧ f.Grants n.tag ∧ c.Brings f payload) ∧
    (∀ status, event = .status status → status.isSuccess = true → ∃ f head before after,
      s.Hands actions f head before after ∧ Queue.ToldBetween t pre event before after ∧
      f.header.magic = Wire.responseMagic ∧
      (f.Grants n.tag ∨ ∃ r nb b, c = .store r ∧ before.2.nature? head = some nb ∧
        nb.work = .batch b ∧ id ∈ b.members ∧ f.tag = nb.tag)) := by
  have hmagic : ∀ {f head before after}, s.Hands actions f head before after →
      f.header.magic = Wire.responseMagic := fun {f head before after} hhands => by
    obtain ⟨rest, hparse⟩ := hhands.hands.parsed
    have haccount := Frame.parse_accounts Wire.responseMagic before.1.readBuffer
    rw [hparse] at haccount
    exact haccount.2
  refine ⟨fun payload heq => ?_, fun status heq hsuccess => ?_⟩
  · subst heq
    have hevent : ¬ (Event.payload payload).IsModest := fun hmodest => by cases hmodest
    obtain ⟨f, head, before, after, n', hhands, hbetween, -, hn', hdue⟩ := origin h actions ht hevent htold
    rw [hn] at hn'
    cases hn'
    refine ⟨f, head, before, after, hhands, hbetween, hmagic hhands, ?_⟩
    cases hdue with
    | payload hc' hgrants hbrings =>
      rw [hc] at hc'
      cases hc'
      exact ⟨hgrants, hbrings⟩
    | batch hb => rw [hc] at hb; cases hb
  · subst heq
    have hevent : ¬ (Event.status status).IsModest := fun hmodest => by
      cases hmodest with
      | failure hcode => exact hcode (beq_iff_eq.1 hsuccess)
    obtain ⟨f, head, before, after, n', hhands, hbetween, -, hn', hdue⟩ := origin h actions ht hevent htold
    rw [hn] at hn'
    cases hn'
    refine ⟨f, head, before, after, hhands, hbetween, hmagic hhands, ?_⟩
    cases hdue with
    | answered hgrants => exact .inl hgrants
    | stored hc' hhead hb hmember htag =>
      rw [hc] at hc'
      cases hc'
      exact .inr ⟨_, _, _, rfl, hhead, hb, hmember, htag⟩
    | batch hb => rw [hc] at hb; cases hb

/-- Of two gets in a batch the second one is answered, after a response that is for nobody. -/
theorem told_by_own_reply_of_batched_get :
    let s : Lane :=
      { queue := { settings := ⟨64, 400, 10, true, 10, 1000⟩, node := 0, inputCapacity := 10 }, engine := {} }
    let stray : Frame := .response 0x0d 0 [0, 0, 0, 1] [] [121] 9 0
    let reply : Frame := .response 0x0d 0 [0, 0, 0, 5] [98] [120] 2 7
    let actions := [.create (.get "a" false) .silent, .create (.get "b" false) .silent, .submit 0,
      .submit 1, .copyInput, .pack, .receive (stray.encode ++ reply.encode)]
    let payload := Payload.value "b" ⟨5, [120]⟩ 7
    s.Initial ∧ (s.run actions).queue.readQueue = [2] ∧
      (s.run actions).engine.heardOf 0 = ([], []) ∧
      [] ++ [Event.payload payload] <+: (s.run actions).engine.reports.heard (.operation 1) ∧
      ∃ f head before after, s.Hands actions f head before after ∧
        Queue.ToldBetween (.operation 1) [] (.payload payload) before after ∧
        f.header.magic = Wire.responseMagic ∧ f.Grants 2 ∧ (Command.get "b" false).Brings f payload := by
  intro s stray reply actions payload
  have h : s.Initial := ⟨rfl, rfl, rfl, rfl, rfl, rfl⟩
  have hrun : ((s.run actions).queue.readQueue, (s.run actions).engine.heardOf 0,
      (s.run actions).engine.reports.heard (.operation 1), (s.run actions).engine.nature? 1) =
        ([2], ([], []), [.payload payload, .status .success, .finished],
          some ⟨2, .single (.get "b" false), true, .silent⟩) := by decide +kernel
  simp only [Prod.mk.injEq] at hrun
  obtain ⟨hqueue, hfirst, hheard, hnature⟩ := hrun
  have htold : [] ++ [Event.payload payload] <+: (s.run actions).engine.reports.heard (.operation 1) :=
    hheard ▸ ⟨_, rfl⟩
  exact ⟨h, hqueue, hfirst, htold,
    (told_by_own_reply h actions hnature rfl .operation htold).1 payload rfl⟩

end Lane

end ShardedCache

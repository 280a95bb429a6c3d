import ShardedCache.Proofs.Engine.Wiring
import ShardedCache.Proofs.Engine.Same
import ShardedCache.Proofs.Node.Server

/-!
# What becomes of a member

A member of a batch is settled by the first act that concerns it: it is cancelled, alone or with the
batch, the batch fails, a response under its own tag arrives, or the answer to the last request of the
batch. `Seat.outcome?` reads off an act what it makes of the member, and over any run the first
outcome is all that the member's callback hears (`Seated.heard_run`).
-/

namespace ShardedCache

open Wire (Frame Status)

/-- The status that a response comes to. -/
def Wire.Status.ofReply : Except ProtocolError Reply → Status
  | .error error => Engine.failureStatus error
  | .ok reply => reply.status

/-- What has been told tells the status. -/
theorem Told.status_eq {status : Option Status} {reply : Except ProtocolError Reply}
    (h : Told status (Event.ofReply reply)) : status = some (Status.ofReply reply) := by
  have hlast : ∀ events, Told status events → ∀ before s, events = before ++ [.status s, .finished] →
      status = some s := by
    intro events h before s heq
    have hstatus := congrArg (fun events : List Event => events.dropLast.getLast?) heq
    cases h with
    | nothing => simp at heq
    | outcome s' => simpa using hstatus
    | value p => simpa using hstatus
  cases reply with
  | error error => exact hlast _ h [] _ rfl
  | ok reply => exact hlast _ h _ _ rfl

theorem Life.heard_cancel {l : Life} (hl : l.Sound) (hopen : l.isTerminal = false) (cause : String) :
    (l.cancel cause).heard = [.status (.cancelled cause), .finished] := by
  have hnone := hl.status_eq_none hopen
  simp [cancel, hopen, report, mapOperation, hnone, hl.heard_eq_nil hopen]

namespace Engine

/-! ## Seats -/

/-- The place of a member in a batch. -/
structure Seat where
  /-- The number of the batch. -/
  batch : Nat
  /-- The tag of its last request. -/
  sentinel : UInt32
  /-- What silence means. -/
  silent : Status
  member : Nat
  tag : UInt32
  command : Command

/-- What an act makes the outcome of a member that has not ended. -/
def Seat.outcome? (s : Seat) : Act → Option (Except ProtocolError Reply)
  | .cancel id cause =>
    if id = s.batch ∨ id = s.member then some (.ok ⟨.cancelled cause, none⟩) else none
  | .fail id error => if id = s.batch then some (.error error) else none
  | .receive id f =>
    if id ≠ s.batch then none
    else if f.tag = s.sentinel then some (.ok ⟨s.silent, none⟩)
    else if f.tag = s.tag then some (s.command.interpret s.tag f)
    else none
  | _ => none

/-- The act is one that a batch and its members go through after they have been put together: the
batch is written, starts over, hears responses that leave the connection up, and fails; it or a
member is cancelled. -/
def Act.Serves (head : Nat) (members : List Nat) : Act → Prop
  | fill id _ | finishWriting id | reset id | fail id _ => id = head
  | receive id f => id = head ∧ f.status ≠ Wire.invalidArguments
  | cancel id _ => id = head ∨ id ∈ members
  | create _ _ | batch _ _ _ | listen _ _ | complete _ _ => False

theorem Act.Serves.goesOn {head : Nat} {members : List Nat} {a : Act}
    (h : a.Serves head members) : a.GoesOn := by
  cases a <;> trivial

/-- The member sits there, and no other member has its tag. -/
structure Seated (e : Engine) (b : Batch) (s : Seat) : Prop where
  sound : e.Sound
  batch : ∃ n, e.nature? s.batch = some n ∧ n.work = .batch b ∧ n.tag = s.sentinel
  silent : s.silent = b.silentStatus
  mem : s.member ∈ b.members
  member : ∃ n, e.nature? s.member = some n ∧ n.work = .single s.command ∧ n.tag = s.tag
  alone : ∀ m ∈ b.members, ∀ n, e.nature? m = some n → n.tag = s.tag → m = s.member

theorem get?_of_memberByTag? {e : Engine} {b : Batch} {tag : UInt32} {m : Nat}
    (h : e.memberByTag? b tag = some m) : ∃ op, e.get? m = some op ∧ op.tag = tag := by
  have hfound := List.find?_some h
  obtain ⟨op, hop, htag⟩ := (Option.any_eq_true _ _).1 hfound
  exact ⟨op, hop, beq_iff_eq.1 htag⟩

namespace Seated

variable {e : Engine} {b : Batch} {s : Seat}

variable (h : e.Seated b s)

include h

theorem get?_batch : ∃ op, e.get? s.batch = some op ∧ op.work = .batch b ∧ op.tag = s.sentinel := by
  obtain ⟨n, hn, hb, htag⟩ := h.batch
  obtain ⟨op, hop, rfl⟩ := Option.map_eq_some_iff.1 hn
  exact ⟨op, hop, hb, htag⟩

theorem get?_member :
    ∃ op, e.get? s.member = some op ∧ op.work = .single s.command ∧ op.tag = s.tag := by
  obtain ⟨n, hn, hc, htag⟩ := h.member
  obtain ⟨op, hop, rfl⟩ := Option.map_eq_some_iff.1 hn
  exact ⟨op, hop, hc, htag⟩

theorem members_eq : e.members s.batch = b.members := by
  obtain ⟨op, hop, hb, -⟩ := h.get?_batch
  exact members_of_batch hop hb

theorem member_ne : s.member ≠ s.batch :=
  Nat.ne_of_lt (h.sound.flat s.batch s.member (h.members_eq ▸ h.mem)).1

theorem follow {e' : Engine} (hgoes : e.Goes e') : e'.Seated b s := by
  have hkept : ∀ {id n}, e.nature? id = some n → e'.nature? id = some n := fun hn => by
    rw [hgoes.follows.nature?_eq (lt_size_of_nature? hn), hn]
  obtain ⟨nb, hnb, hb⟩ := h.batch
  obtain ⟨nm, hnm, hm⟩ := h.member
  refine ⟨hgoes.sound, ⟨nb, hkept hnb, hb⟩, h.silent, h.mem, ⟨nm, hkept hnm, hm⟩, ?_⟩
  intro m hm n hn
  obtain ⟨n', c, hn', -⟩ := (h.sound.flat s.batch m (h.members_eq ▸ hm)).2
  have heq : n' = n := Option.some.inj ((hkept hn').symm.trans hn)
  exact h.alone m hm n (heq ▸ hn')

/-- The response to a member is found by its tag. -/
theorem memberByTag?_eq {tag : UInt32} (htag : tag = s.tag) :
    e.memberByTag? b tag = some s.member := by
  obtain ⟨op, hop, -, hmine⟩ := h.get?_member
  cases hfound : e.memberByTag? b tag with
  | none =>
    have := List.find?_eq_none.1 hfound s.member (List.mem_reverse.2 h.mem)
    simp [hop, hmine, htag] at this
  | some m =>
    obtain ⟨op', hop', htag'⟩ := get?_of_memberByTag? hfound
    rw [h.alone m (mem_of_memberByTag? hfound) op'.nature (nature?_of_get? hop')
      (htag'.trans htag)]

/-- A response that leaves the connection up concerns the member that it is for. -/
theorem becomes_response {f : Frame} (hsentinel : f.tag ≠ s.sentinel)
    (hstatus : f.status ≠ Wire.invalidArguments) {m : Nat} {op : Operation} {c : Command}
    (hm : e.memberByTag? b f.tag = some m) (hop : e.get? m = some op) (hc : op.work = .single c) :
    e.Becomes (among [m] (·.answer c f)) (e.receive s.batch f).1 := by
  obtain ⟨head, hhead, hb, htag⟩ := h.get?_batch
  have hlt := (h.sound.flat s.batch m (h.members_eq ▸ mem_of_memberByTag? hm)).1
  obtain ⟨depth, hdepth⟩ := Nat.exists_eq_succ_of_ne_zero (Nat.ne_zero_of_lt hlt)
  have hpending := (receiveTo_member depth h.sound.flat hhead hb (htag ▸ hsentinel) hm hop hc).1
    fun hfatal => hstatus (by simpa [Wire.isConnectionFatal] using
      isConnectionFatal_of_frameOutcome hfatal)
  rw [receive, hdepth]
  rw [hdepth] at hpending
  exact hpending.1

/-! ## One act -/

variable (hopen : e.isTerminal s.member = false)

include hopen

theorem batch_open : e.isTerminal s.batch = false := by
  cases hend : e.isTerminal s.batch with
  | false => rfl
  | true =>
    have := h.sound.settled hend s.member (h.members_eq ▸ h.mem)
    rw [hopen] at this
    cases this

theorem life?_member : ∃ l, e.life? s.member = some l ∧ l.Sound ∧ l.isTerminal = false ∧
    l.operation.tag = s.tag := by
  obtain ⟨op, hop, -, htag⟩ := h.get?_member
  have hl := life?_of_get? hop
  refine ⟨_, hl, h.sound.lives hl, ?_, htag⟩
  rwa [isTerminal_eq, hl] at hopen

/-- The member's callback hears what its life comes to. -/
theorem heard_of_becomes {e' : Engine} {g : Nat → Life → Life} (hbecomes : e.Becomes g e')
    {events : List Event} (hg : ∀ l : Life, l.Sound → l.isTerminal = false →
      l.operation.tag = s.tag → (g s.member l).heard = events) :
    e'.reports.heard (.operation s.member) = events := by
  obtain ⟨l, hl, hsound, hlopen, htag⟩ := h.life?_member hopen
  have hl' : e'.life? s.member = some (g s.member l) := by rw [hbecomes.lives, hl, Option.map_some]
  rw [← hg l hsound hlopen htag]
  obtain ⟨op, -, heq⟩ := Option.map_eq_some_iff.1 hl'
  rw [← heq]
  rfl

omit h in
theorem open_of_becomes {e' : Engine} {g : Nat → Life → Life} (hbecomes : e.Becomes g e')
    (hg : Life.Discreet (g s.member)) : e'.isTerminal s.member = false :=
  (hbecomes.same hg).terminal.trans hopen

theorem heard_cancel {id : Nat} (hid : id = s.batch ∨ id = s.member) (cause : String) :
    (e.cancel id cause).1.reports.heard (.operation s.member) =
      [.status (.cancelled cause), .finished] := by
  refine h.heard_of_becomes hopen (becomes_cancel h.sound.flat id cause) fun l hl hlopen _ => ?_
  have hidopen : e.isTerminal id = false := by
    rcases hid with rfl | rfl
    · exact h.batch_open hopen
    · exact hopen
  have hmem : s.member ∈ id :: e.members id := by
    rcases hid with rfl | rfl
    · rw [h.members_eq]
      exact List.mem_cons_of_mem _ h.mem
    · exact List.mem_cons_self
  rw [if_neg (by simp [hidopen]), among_of_mem hmem]
  exact Life.heard_cancel hl hlopen cause

theorem heard_fail (error : ProtocolError) :
    (e.fail s.batch error).reports.heard (.operation s.member) = Event.ofReply (.error error) := by
  refine h.heard_of_becomes hopen (becomes_fail h.sound.flat s.batch error) fun l hl hlopen _ => ?_
  rw [h.members_eq, among_of_mem h.mem, among_of_not_mem (by simpa using h.member_ne), Life.failOpen,
    if_neg (by simp [hlopen])]
  exact Life.heard_fail hl hlopen error

/-- The answer to the last request of the batch. -/
theorem heard_sentinel {f : Frame} (htag : f.tag = s.sentinel) :
    (e.receive s.batch f).1.reports.heard (.operation s.member) =
      [.status s.silent, .finished] := by
  obtain ⟨op, hop, hb, hsentinel⟩ := h.get?_batch
  have hbecomes := (receiveTo_sentinel s.batch h.sound.flat hop hb (htag.trans hsentinel.symm)).1
  refine h.heard_of_becomes hopen hbecomes fun l hl hlopen _ => ?_
  rw [among_of_mem h.mem, among_of_not_mem (by simpa using h.member_ne), ← h.silent]
  exact Life.heard_complete hl hlopen s.silent

/-- A response under the tag of the member. -/
theorem heard_response {f : Frame} (hsentinel : f.tag ≠ s.sentinel) (htag : f.tag = s.tag)
    (hstatus : f.status ≠ Wire.invalidArguments) :
    (e.receive s.batch f).1.reports.heard (.operation s.member) =
      Event.ofReply (s.command.interpret s.tag f) := by
  obtain ⟨op, hop, hc, -⟩ := h.get?_member
  have hfound := h.memberByTag?_eq htag
  refine h.heard_of_becomes hopen (h.becomes_response hsentinel hstatus hfound hop hc)
    fun l hl hlopen hltag => ?_
  rw [among_of_mem (List.mem_singleton_self _), Life.heard_answer hl hlopen, hltag]

/-- A response to another member, or to nobody. -/
theorem open_of_otherTag {f : Frame} (hsentinel : f.tag ≠ s.sentinel) (htag : f.tag ≠ s.tag)
    (hstatus : f.status ≠ Wire.invalidArguments) :
    (e.receive s.batch f).1.isTerminal s.member = false := by
  cases hfound : e.memberByTag? b f.tag with
  | none =>
    obtain ⟨op, hop, hb, hop_tag⟩ := h.get?_batch
    have hstep : e.receive s.batch f = (e, .pending) := by
      simp [receive, receiveTo, hop, hb, hop_tag, hsentinel, hfound]
    rw [hstep]
    exact hopen
  | some m =>
    obtain ⟨op, hop, hmtag⟩ := get?_of_memberByTag? hfound
    have hne : s.member ≠ m := by
      rintro rfl
      obtain ⟨op', hop', -, hmine⟩ := h.get?_member
      rw [hop] at hop'
      cases hop'
      exact htag (hmtag.symm.trans hmine)
    obtain ⟨n, c, hn, hc⟩ :=
      (h.sound.flat s.batch m (h.members_eq ▸ mem_of_memberByTag? hfound)).2
    rw [nature?_of_get? hop] at hn
    cases hn
    have hnot : among [m] (·.answer c f) s.member = fun l => l :=
      among_of_not_mem (by simpa using hne) _
    exact open_of_becomes hopen (h.becomes_response hsentinel hstatus hfound hop hc)
      (hnot ▸ Life.discreet_id)

theorem open_of_otherCancel {m : Nat} (hm : m ∈ b.members) (hne : m ≠ s.member) (cause : String) :
    (e.cancel m cause).1.isTerminal s.member = false := by
  have hmembers : e.members m = [] := members_of_mem h.sound (h.members_eq ▸ hm)
  refine open_of_becomes hopen (becomes_cancel h.sound.flat m cause) ?_
  split
  · exact Life.discreet_id
  · have hnot : s.member ∉ [m] := by simpa using hne.symm
    rw [hmembers, among_of_not_mem hnot]
    exact Life.discreet_id

/-- An act that makes something of the member is heard of. -/
theorem heard_act {a : Act} (ha : a.Serves s.batch b.members)
    {outcome : Except ProtocolError Reply} (houtcome : s.outcome? a = some outcome) :
    (e.act a).reports.heard (.operation s.member) = Event.ofReply outcome := by
  cases a with
  | cancel id cause =>
    simp only [Seat.outcome?] at houtcome
    split at houtcome
    · next hid =>
      cases houtcome
      exact h.heard_cancel hopen hid cause
    · cases houtcome
  | fail id error =>
    cases ha
    simp only [Seat.outcome?, ↓reduceIte] at houtcome
    cases houtcome
    exact h.heard_fail hopen error
  | receive id f =>
    obtain ⟨rfl, hstatus⟩ := ha
    simp only [Seat.outcome?, ne_eq, not_true_eq_false, ↓reduceIte] at houtcome
    split at houtcome
    · next htag =>
      cases houtcome
      exact h.heard_sentinel hopen htag
    · next hsentinel =>
      split at houtcome
      · next htag =>
        cases houtcome
        exact h.heard_response hopen hsentinel htag hstatus
      · cases houtcome
  | _ => cases houtcome

/-- Any other act leaves the member open. -/
theorem open_act {a : Act} (ha : a.Serves s.batch b.members) (hnone : s.outcome? a = none) :
    (e.act a).isTerminal s.member = false := by
  cases a with
  | cancel id cause =>
    simp only [Seat.outcome?, ite_eq_right_iff, reduceCtorEq, imp_false, not_or] at hnone
    exact h.open_of_otherCancel hopen (ha.resolve_left hnone.1) hnone.2 cause
  | fail id error =>
    cases ha
    simp [Seat.outcome?] at hnone
  | receive id f =>
    obtain ⟨rfl, hstatus⟩ := ha
    simp only [Seat.outcome?, ne_eq, not_true_eq_false, ↓reduceIte] at hnone
    split at hnone
    · cases hnone
    · next hsentinel =>
      split at hnone
      · cases hnone
      · next htag => exact h.open_of_otherTag hopen hsentinel htag hstatus
  | fill id room => exact (same_fill h.sound.flat id room s.member).terminal.trans hopen
  | finishWriting id => exact (same_finishWriting h.sound.flat id s.member).terminal.trans hopen
  | reset id =>
    refine open_of_becomes hopen (becomes_reset h.sound.flat id) ?_
    split
    · exact Life.discreet_reset.among _ _
    · exact Life.discreet_id
  | _ => exact ha.elim

end Seated

/-! ## Any number of acts -/

/-- How an operation has ended. -/
def status? (e : Engine) (id : Nat) : Option Status := (e.get? id).bind (·.status)

/-- What has ended says nothing more. -/
theorem Follows.ended {e e' : Engine} (h : e.Follows e') {id : Nat} (hid : id < e.size)
    (hend : e.isTerminal id = true) :
    e'.status? id = e.status? id ∧ e'.heardOf id = e.heardOf id := by
  obtain ⟨l, hl⟩ := life?_of_lt_size hid
  obtain ⟨l', hl', hf⟩ := h id l hl
  rw [isTerminal_eq, hl] at hend
  have hending := hf.ending hend
  have hheard := congrArg Ending.heard hending
  have hoverheard := congrArg Ending.overheard hending
  rw [status?, status?, get?_of_life? hl, get?_of_life? hl']
  obtain ⟨op, -, rfl⟩ := Option.map_eq_some_iff.1 hl
  obtain ⟨op', -, rfl⟩ := Option.map_eq_some_iff.1 hl'
  exact ⟨congrArg Ending.status hending, Prod.ext hheard hoverheard⟩

/-- **The first act that makes something of a member is all that its callback hears of.** -/
theorem Seated.heard_run {b : Batch} {s : Seat} : ∀ (acts : List Act) {e : Engine}, e.Seated b s →
    (∀ a ∈ acts, a.Serves s.batch b.members) → e.isTerminal s.member = false →
      (e.run acts).reports.heard (.operation s.member) =
        ((acts.findSome? s.outcome?).map Event.ofReply).getD []
  | [], e, h, _, hopen => h.heard_of_becomes hopen (Becomes.refl e) fun _ hl hlopen _ =>
      hl.heard_eq_nil hlopen
  | a :: acts, e, h, hacts, hopen => by
    have ha := hacts a List.mem_cons_self
    have hrest : ∀ b ∈ acts, b.Serves _ _ := fun b hb => hacts b (List.mem_cons_of_mem a hb)
    have hgoes := goes_act h.sound ha.goesOn
    have hseated := h.follow hgoes
    rw [List.findSome?_cons]
    cases houtcome : s.outcome? a with
    | none => exact hseated.heard_run acts hrest (h.open_act hopen ha houtcome)
    | some outcome =>
      have hheard := h.heard_act hopen ha houtcome
      have hend : (e.act a).isTerminal s.member = true := by
        by_contra hnot
        have := hseated.heard_of_becomes (by simpa using hnot) (Becomes.refl _)
          fun _ hl hlopen _ => hl.heard_eq_nil hlopen
        rw [hheard] at this
        cases outcome <;> simp [Event.ofReply] at this
      obtain ⟨n, hn, -⟩ := hseated.member
      have hfollows := (goes_run acts hseated.sound fun b hb => (hrest b hb).goesOn).follows
      have := (hfollows.ended (lt_size_of_nature? hn) hend).2
      exact (congrArg Prod.fst this).trans hheard

/-- So that is its status. -/
theorem Seated.status_run {b : Batch} {s : Seat} {e : Engine} (h : e.Seated b s) {acts : List Act}
    (hacts : ∀ a ∈ acts, a.Serves s.batch b.members) (hopen : e.isTerminal s.member = false) :
    (e.run acts).status? s.member = (acts.findSome? s.outcome?).map Status.ofReply := by
  have hsound := (goes_run acts h.sound fun a ha => (hacts a ha).goesOn)
  obtain ⟨op, hop, -⟩ := (h.follow hsound).get?_member
  have htold := (hsound.sound.lives (life?_of_get? hop)).told
  have hheard := h.heard_run acts hacts hopen
  change Told op.status ((e.run acts).reports.heard (.operation s.member)) at htold
  rw [hheard] at htold
  rw [status?, hop, Option.bind_some]
  cases houtcome : acts.findSome? s.outcome? with
  | none =>
    rw [houtcome] at htold
    generalize hstatus : op.status = status at htold
    cases htold
    rfl
  | some outcome =>
    rw [houtcome] at htold
    exact htold.status_eq

end Engine

end ShardedCache

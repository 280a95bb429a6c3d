import ShardedCache.Proofs.Node.Upkeep

/-!
# The traffic of a node

A run of a node, and beside it what the node has written on the connection that it has and on those
that it had: the bytes, and the operations that they belong to. Operations go to the front of the
write queue only before the first byte of a connection is written, as that is when a connection
authenticates.
-/

namespace ShardedCache

namespace Queue

/-- The operations that bytes have been written of, in order. -/
def begun (q : Queue) (e : Engine) : List Nat := q.readQueue ++ q.writeQueue.filter (isStarted e)

end Queue

/-- What has been written on one connection. -/
structure Transcript where
  begun : List Nat
  sent : Bytes

/-- Whether bytes of an operation may have been written, be it alone or as a member of a batch. -/
def Transcript.Carries (c : Transcript) (e : Engine) (id : Nat) : Prop :=
  ∃ b ∈ c.begun, id ∈ b :: e.members b

structure Traffic where
  lane : Lane
  /-- The bytes that have left the write buffer. -/
  taken : Bytes := []
  /-- The operations that have been handed on to the read queue, answered or not. -/
  handed : List Nat := []
  /-- The order in which the operations of this connection are to be written. -/
  order : List Nat := []
  /-- What has been written on earlier connections, the last one first. -/
  earlier : List Transcript := []

/-- Whether an action makes the node accept an operation. -/
def Lane.accepts (s : Lane) (a : Action) (id : Nat) : Bool :=
  !s.accepted.contains id && (s.step a).accepted.contains id

theorem Lane.accepts_of_accepted {s : Lane} {a : Action} {id : Nat} (hnew : id ∉ s.accepted)
    (h : (s.step a).accepted = id :: s.accepted) : s.accepts a id = true := by
  simp [accepts, h, hnew]

theorem Lane.not_accepts_of_accepted {s : Lane} {a : Action} (id : Nat)
    (h : (s.step a).accepted = s.accepted) : s.accepts a id = false := by
  simp [accepts, h]

/-- A submission is accepted, or turned away and cancelled, or against the rules. -/
theorem Lane.step_submit (s : Lane) (id : Nat) :
    (s.isFresh id = true ∧ s.step (.submit id) =
      { s with
        queue := { s.queue with input := s.queue.input ++ [id] }, accepted := id :: s.accepted }) ∨
    (∃ cause, s.step (.submit id) = { s with engine := (s.engine.cancel id cause).1 }) ∨
    s.step (.submit id) = s := by
  simp only [step]
  split
  · next hfresh =>
    split
    · next queue hsubmit => exact .inl ⟨hfresh, by rw [Queue.submit_eq hsubmit]⟩
    · next refusal _ => exact .inr (.inl ⟨_, rfl⟩)
  · exact .inr (.inr rfl)

theorem Lane.step_pushFront (s : Lane) (id : Nat) :
    (s.isFresh id = true ∧ s.step (.pushFront id) =
      { s with queue := s.queue.pushFront id, accepted := id :: s.accepted }) ∨
    s.step (.pushFront id) = s := by
  simp only [step]
  split
  · next hfresh => exact .inl ⟨hfresh, rfl⟩
  · exact .inr rfl

/-- An action is made of whole steps of the engine. -/
theorem Lane.goes_step {s : Lane} (h : s.Custody) (a : Action) :
    s.engine.Goes (s.step a).engine ∧ (s.step a).queue.settings = s.queue.settings := by
  have he := h.sound
  cases a with
  | create command callback => exact ⟨Engine.goes_create he command callback, rfl⟩
  | submit id =>
    rcases s.step_submit id with ⟨-, hstep⟩ | ⟨cause, hstep⟩ | hstep <;> rw [hstep]
    · exact ⟨Engine.Goes.refl he, rfl⟩
    · exact ⟨(Engine.goes_cancel he id cause).1, rfl⟩
    · exact ⟨Engine.Goes.refl he, rfl⟩
  | pushFront id =>
    rcases s.step_pushFront id with ⟨-, hstep⟩ | hstep <;> rw [hstep] <;>
      exact ⟨Engine.Goes.refl he, rfl⟩
  | copyInput => exact ⟨Engine.Goes.refl he, rfl⟩
  | take n => exact ⟨Engine.Goes.refl he, rfl⟩
  | cancel id cause => exact ⟨(Engine.goes_cancel he id cause).1, rfl⟩
  | receive bytes => exact Queue.goes_process (s.queue.appendRead bytes) he
  | pack =>
    obtain ⟨hgoes, hsettings, -⟩ := Queue.goes_pack s.queue he
    exact ⟨hgoes, hsettings⟩
  | resend cause =>
    obtain ⟨hread, -⟩ := @Queue.goes_cancelEach cause s.queue.readQueue s.engine he fun id hid =>
      h.known id (Queue.mem_held_of_mem_line (List.mem_append_right _ (List.mem_append_right _ hid)))
    obtain ⟨e', kept, gone, heq, hgoes, -⟩ := Queue.resend_eq hread.sound
    simp only [step, heq]
    exact ⟨hread.trans hgoes, trivial⟩

def Action.isResend : Action → Bool
  | .resend _ => true
  | _ => false

namespace Traffic

def engine (t : Traffic) : Engine := t.lane.engine

/-- The queues, with all that has been handed on in the place of what waits for a response. -/
def ledger (t : Traffic) : Queue := t.lane.queue.withRead t.handed

/-- Everything that has been written on this connection. -/
def sent (t : Traffic) : Bytes := t.taken ++ t.lane.queue.writeBuffer

def begun (t : Traffic) : List Nat := t.ledger.begun t.engine

/-- The requests of this connection, written or not. -/
def requests (t : Traffic) : List Slot := t.ledger.requests t.engine

def transcript (t : Traffic) : Transcript := ⟨t.begun, t.sent⟩

/-- What has been written on each connection, the last one first. -/
def transcripts (t : Traffic) : List Transcript := t.transcript :: t.earlier

def start (s : Lane) : Traffic := { lane := s }

def step (t : Traffic) (a : Action) : Traffic :=
  let lane := t.lane.step a
  match a with
  | .submit id =>
    { t with lane, order := if t.lane.accepts a id then t.order ++ [id] else t.order }
  | .pushFront id =>
    if t.sent.isEmpty then
      { t with lane, order := if t.lane.accepts a id then id :: t.order else t.order }
    else t
  | .pack =>
    { t with
      lane, handed := t.handed ++ lane.queue.readQueue.drop t.lane.queue.readQueue.length }
  | .take n => { t with lane, taken := t.taken ++ (t.lane.queue.takeWritten n).2 }
  | .resend _ =>
    { lane, order := owners (lane.queue.requests lane.engine), earlier := t.transcripts }
  | .create .. | .copyInput | .receive _ | .cancel .. => { t with lane }

def run (t : Traffic) (actions : List Action) : Traffic := actions.foldl step t

theorem run_append (t : Traffic) (actions more : List Action) :
    t.run (actions ++ more) = (t.run actions).run more := List.foldl_append

/-- What every action keeps, every run keeps. -/
theorem run_induction {P : Traffic → Prop} (hstep : ∀ t a, P t → P (t.step a)) :
    ∀ (actions : List Action) {t : Traffic}, P t → P (t.run actions)
  | [], _, h => h
  | a :: actions, t, h => run_induction hstep actions (hstep t a h)

/-! ## The stream is aligned in every run -/

/-- The record of what has been handed on covers the read queue, and what has been written is in
line with it. -/
structure Sound (t : Traffic) : Prop where
  custody : t.lane.Custody
  atRest : Queue.AtRest t.lane.accepted t.taken t.order t.ledger t.engine
  reading : ∀ id ∈ t.lane.queue.readQueue, id ∈ t.handed

theorem ledger_pack (t : Traffic) :
    (t.step .pack).ledger = (t.ledger.pack t.engine).1 ∧
      (t.step .pack).engine = (t.ledger.pack t.engine).2 ∧
      ∃ new, (t.step .pack).lane.queue.readQueue = t.lane.queue.readQueue ++ new ∧
        (t.step .pack).handed = t.handed ++ new := by
  obtain ⟨new, hnew, hpack⟩ := t.lane.queue.pack_withRead t.engine t.handed
  have hlane : (t.step .pack).lane.queue = (t.lane.queue.pack t.engine).1 := rfl
  have hhanded : (t.step .pack).handed = t.handed ++ new := by
    change t.handed ++ (t.lane.queue.pack t.engine).1.readQueue.drop _ = _
    rw [hnew, List.drop_left]
  refine ⟨?_, ?_, new, hlane ▸ hnew, hhanded⟩
  · rw [ledger, hhanded, hlane, ledger, hpack]
  · rw [ledger, hpack]
    rfl

/-- When the connection is lost, the input queue stays and the write queue may lose its head. -/
theorem ledger_resend (t : Traffic) (cause : String) : ∃ kept e',
    Queue.Resending (Queue.cancelEach t.engine t.lane.queue.readQueue cause) cause
      t.lane.queue.writeQueue kept e' ∧
    (t.step (.resend cause)).ledger =
      { t.lane.queue with
        readQueue := [], writeQueue := kept.filter (!e'.isCancelled ·), writeBuffer := []
        readBuffer := [] } := by
  obtain ⟨kept, e', hstep, heq⟩ := Queue.resending t.lane.queue t.engine cause
  exact ⟨kept, e', hstep, congrArg (fun r : Queue × Engine => r.1.withRead []) heq⟩

theorem sound_of_initial {s : Lane} (h : s.Initial) (hempty : s.queue.writeBuffer = []) :
    (start s).Sound := by
  have hcustody := Lane.custody_of_initial h
  have hledger : (start s).ledger = s.queue := by
    change s.queue.withRead [] = s.queue
    rw [← h.readQueue]
    rfl
  have hnone : ∀ id, ¬ s.engine.IsSingle id := fun id ⟨n, c, hn, _⟩ => by
    have hget : s.engine.get? id = none := by rw [Engine.get?, h.operations]; rfl
    rw [Engine.nature?, hget] at hn
    cases hn
  refine ⟨hcustody, ?_, fun id hid => ?_⟩
  · rw [hledger]
    refine ⟨⟨hcustody, ?_, ?_, ?_, ?_, ?_, ?_, ?_, ?_, ?_, fun id hid => absurd hid (hnone id)⟩, ?_⟩
    · rw [hempty]
      exact Nat.zero_le _
    · change [] ++ s.queue.writeBuffer = _
      rw [hempty, h.readQueue, h.writeQueue]
      rfl
    · simp [Queue.unsent, h.input, h.writeQueue]
    · simp [h.writeQueue]
    · simp [h.writeQueue]
    · simp [h.input]
    · simp [h.writeQueue]
    · simp [Queue.requests, h.readQueue, h.writeQueue, h.input]
    · exact fun id hid => absurd hid List.not_mem_nil
    · simp [h.writeQueue]
  · change id ∈ s.queue.readQueue at hid
    rw [h.readQueue] at hid
    cases hid

theorem Sound.lt_size_of_handed {t : Traffic} (h : t.Sound) {id : Nat} (hid : id ∈ t.handed) :
    id < t.engine.size := h.atRest.lt_size (List.mem_append_left _ hid)

theorem Sound.processed {t : Traffic} (h : t.Sound) (bytes : Bytes) :
    Queue.Processed (t.lane.queue.appendRead bytes) t.engine
      (t.step (.receive bytes)).lane.queue (t.step (.receive bytes)).engine :=
  Queue.processed _ h.custody.sound fun id hid => h.lt_size_of_handed (h.reading id hid)

theorem sound_step (t : Traffic) (a : Action) (h : t.Sound) : (t.step a).Sound := by
  have hcustody := Lane.custody_step t.lane a h.custody
  cases a with
  | create command callback => exact ⟨hcustody, h.atRest.create command callback, h.reading⟩
  | cancel id cause => exact ⟨hcustody, h.atRest.cancel id cause, h.reading⟩
  | copyInput => exact ⟨hcustody, h.atRest.copyInput, h.reading⟩
  | take n => exact ⟨hcustody, h.atRest.take n, h.reading⟩
  | pack =>
    obtain ⟨hledger, hengine, new, hread, hhanded⟩ := t.ledger_pack
    refine ⟨hcustody, ?_, fun id hid => ?_⟩
    · rw [hledger, hengine]
      exact h.atRest.pack
    · rw [hread] at hid
      rw [hhanded]
      rcases List.mem_append.1 hid with hid | hid
      · exact List.mem_append_left _ (h.reading id hid)
      · exact List.mem_append_right _ hid
  | receive bytes =>
    have hread : Queue.AtRest t.lane.accepted t.taken t.order
        ((t.lane.queue.appendRead bytes).withRead t.handed) t.engine :=
      h.atRest.spare (Engine.Goes.refl h.custody.sound) rfl
        (fun id _ => .kept (Engine.Keeps.refl _ id)) _
    exact ⟨hcustody, hread.process h.reading, fun id hid =>
      h.reading id ((h.processed bytes).reading id hid)⟩
  | resend cause =>
    exact ⟨hcustody, h.atRest.resend h.custody cause, fun _ hid => hid⟩
  | submit id =>
    rcases t.lane.step_submit id with ⟨hfresh, hstep⟩ | ⟨cause, hstep⟩ | hstep
    · obtain ⟨hsingle, hnew⟩ := Lane.isSingle_of_isFresh hfresh
      have haccepts := Lane.accepts_of_accepted hnew (congrArg Lane.accepted hstep)
      simp only [step, haccepts, ↓reduceIte, hstep] at hcustody ⊢
      exact ⟨hcustody, h.atRest.submit hsingle hnew, h.reading⟩
    · have haccepts := Lane.not_accepts_of_accepted (s := t.lane) (a := .submit id) id (by rw [hstep])
      simp only [step, haccepts, Bool.false_eq_true, ↓reduceIte, hstep] at hcustody ⊢
      exact ⟨hcustody, h.atRest.cancel id cause, h.reading⟩
    · have haccepts := Lane.not_accepts_of_accepted id (congrArg Lane.accepted hstep)
      simp only [step, haccepts, Bool.false_eq_true, ↓reduceIte, hstep]
      exact h
  | pushFront id =>
    simp only [step]
    split
    · next hempty =>
      rcases t.lane.step_pushFront id with ⟨hfresh, hstep⟩ | hstep
      · obtain ⟨hsingle, hnew⟩ := Lane.isSingle_of_isFresh hfresh
        have haccepts := Lane.accepts_of_accepted hnew (congrArg Lane.accepted hstep)
        rw [haccepts, if_pos rfl]
        rw [hstep] at hcustody ⊢
        exact ⟨hcustody, h.atRest.pushFront hsingle hnew (List.isEmpty_iff.1 hempty), h.reading⟩
      · have haccepts := Lane.not_accepts_of_accepted id (congrArg Lane.accepted hstep)
        rw [haccepts, if_neg Bool.false_ne_true, hstep]
        exact h
    · exact h

theorem goes_step {t : Traffic} (h : t.Sound) (a : Action) :
    t.engine.Goes (t.step a).engine ∧
      (t.step a).lane.queue.settings = t.lane.queue.settings := by
  have hgoes := Lane.goes_step h.custody a
  cases a with
  | pushFront id =>
    simp only [step]
    split
    · exact hgoes
    · exact ⟨Engine.Goes.refl h.custody.sound, rfl⟩
  | _ => exact hgoes

theorem goes_run : ∀ (actions : List Action) {t : Traffic}, t.Sound →
    t.engine.Goes (t.run actions).engine ∧
      (t.run actions).lane.queue.settings = t.lane.queue.settings
  | [], _, h => ⟨Engine.Goes.refl h.custody.sound, rfl⟩
  | a :: actions, t, h => by
    obtain ⟨hgoes, hsettings⟩ := goes_step h a
    obtain ⟨hrest, hsettings'⟩ := goes_run actions (sound_step t a h)
    exact ⟨hgoes.trans hrest, hsettings'.trans hsettings⟩

theorem Sound.lt_size {t : Traffic} (h : t.Sound) {id : Nat} (hid : id ∈ t.begun) :
    id < t.engine.size := by
  refine h.atRest.lt_size ?_
  rcases List.mem_append.1 hid with hid | hid
  · exact List.mem_append_left _ hid
  · exact List.mem_append_right _ (List.mem_append_left _ (List.mem_of_mem_filter hid))

theorem Sound.run {t : Traffic} (h : t.Sound) (actions : List Action) : (t.run actions).Sound :=
  run_induction sound_step actions h

end Traffic

end ShardedCache

import ShardedCache.Proofs.Node.Attribution
import ShardedCache.Proofs.Node.Response

/-!
# What comes of a refusal

A response whose status is not success makes nobody succeed who looks at the status. The answer to the
last request of a batch is not looked at: whatever it says, the stores of the batch that have not ended
succeed by it (`Engine.Settles`). That is the only way in which a callback hears of a success, and no
callback hears of a payload (`Queue.success_of_refusal`).
-/

namespace ShardedCache

open Wire (Frame Status)

/-- An operation that reads a refusal tells a failure at most. -/
theorem Life.adds_answer_of_refusal {may : Event → Prop} (hmay : ∀ event : Event, event.IsModest → may event)
    {f : Frame} (hstatus : f.status ≠ Wire.noError) (c : Command) (l : Life) :
    l.Adds may (l.answer c f) := by
  unfold answer
  cases hreply : c.interpret l.operation.tag f with
  | error error => exact adds_fail hmay error l
  | ok reply =>
    rcases Command.interpret_ok hreply with ⟨hgrants, -, -⟩ | ⟨hcode, hnone⟩
    · exact absurd hgrants.status hstatus
    · dsimp only
      rw [hnone]
      exact adds_complete (hmay _ (.failure hcode)) (hmay _ .finished) l

namespace Engine

/-- The frame has the tag of the last request of a batch of stores, one of which is `id` and has not
ended. -/
def Settles (e : Engine) (head : Nat) (f : Frame) (id : Nat) : Prop :=
  ∃ op b, e.get? head = some op ∧ op.work = .batch b ∧ b.family = .store ∧ f.tag = op.tag ∧
    id ∈ b.members ∧ e.isTerminal id = false

variable {e : Engine} {head : Nat} {f : Frame}

/-- What may be told on account of a refusal. What batches tell, nobody hears. -/
def MayFollow (e : Engine) (head : Nat) (f : Frame) (id : Nat) (event : Event) : Prop :=
  e.IsSingle id → event.IsModest ∨ e.Settles head f id ∧ event = .status .success

theorem adds_settle_of_refusal {op : Operation} {b : Batch} (hop : e.get? head = some op)
    (hb : op.work = .batch b) (htag : f.tag = op.tag) {id : Nat} (hid : id ∈ b.members) {l : Life}
    (hl : e.life? id = some l) : l.Adds (e.MayFollow head f id) (l.complete b.silentStatus) := by
  cases hopen : l.isTerminal with
  | true =>
    rw [Life.complete_of_isTerminal hopen]
    exact Life.Adds.refl _ l
  | false =>
    refine Life.adds_complete (fun _ => ?_) (fun _ => .inl .finished) l
    cases hfamily : b.family with
    | get =>
      refine .inl (.failure ?_)
      simp [Batch.silentStatus, hfamily]
    | store =>
      refine .inr ⟨⟨op, b, hop, hb, hfamily, htag, hid, ?_⟩, ?_⟩
      · rw [isTerminal_eq, hl]
        exact hopen
      · rw [Batch.silentStatus, hfamily]

theorem adds_receive_of_refusal (hflat : e.Flat) (head : Nat) (hstatus : f.status ≠ Wire.noError) :
    e.Adds (e.MayFollow head f) (e.receive head f).1 := by
  obtain ⟨g, hg, hstep⟩ := becomes_receive hflat head f
  generalize (e.receive head f).2 = outcome at hg
  refine hstep.adds fun j l hl => ?_
  have hmay : ∀ event : Event, event.IsModest → e.MayFollow head f j event := fun _ h _ => .inl h
  have hanswer : ∀ {m c}, l.Adds (e.MayFollow head f j) (among [m] (·.answer c f) j l) :=
    adds_among fun _ => Life.adds_answer_of_refusal hmay hstatus _ l
  cases hg with
  | idle => exact Life.Adds.refl _ l
  | single hop hc => exact hanswer
  | @sentinel op b hop hb htag =>
    have hmembers : l.Adds (e.MayFollow head f j) (among b.members (·.complete b.silentStatus) j l) :=
      adds_among fun hj => adds_settle_of_refusal hop hb htag hj hl
    refine hmembers.trans (adds_among fun hj => ?_)
    -- the head is a batch, and so tells nobody who counts
    have hbatch : ¬ e.IsSingle j := by
      rintro ⟨n, c, hn, hc⟩
      rw [List.mem_singleton.1 hj, nature?_of_get? hop] at hn
      cases hn
      rw [show op.nature.work = _ from hb] at hc
      cases hc
    exact Life.adds_complete (fun h => absurd h hbatch) (hmay _ .finished) _
  | member hop hb hm hmember hc => exact hanswer
  | fatal hop hb hm hmember hc error =>
    exact (hanswer.trans (adds_among fun _ => Life.adds_failOpen hmay error _)).trans
      (adds_among fun _ => Life.adds_fail hmay error _)

/-- The answer to the last request of a batch of stores makes those succeed that have not ended,
whatever its status. -/
theorem heard_of_settles (he : e.Sound) {id : Nat} (h : e.Settles head f id) :
    e.reports.heard (.operation id) = [] ∧
      (e.receive head f).1.reports.heard (.operation id) = [.status .success, .finished] := by
  obtain ⟨op, b, hop, hb, hfamily, htag, hid, hopen⟩ := h
  obtain ⟨hlt, hsingle⟩ := he.flat head id (members_of_batch hop hb ▸ hid)
  obtain ⟨l, hl⟩ := life?_of_lt_size (lt_size_of_isSingle hsingle)
  have hstep := (receiveTo_sentinel head he.flat hop hb htag).1
  have hl' := hstep.lives id
  have hother : id ∉ [head] := fun hmem => Nat.ne_of_lt hlt (List.mem_singleton.1 hmem)
  have hsilent : b.silentStatus = .success := by rw [Batch.silentStatus, hfamily]
  rw [hl, Option.map_some, among_of_not_mem hother, among_of_mem hid, hsilent] at hl'
  rw [isTerminal_eq, hl] at hopen
  have hbefore := (he.lives hl).heard_eq_nil hopen
  exact ⟨(congrArg Prod.fst (heardOf_of_life? hl)).trans hbefore,
    (congrArg Prod.fst (heardOf_of_life? hl')).trans (Life.heard_complete (he.lives hl) hopen .success)⟩

end Engine

/-! ## Processing a refusal -/

/-- **A refusal makes nobody succeed but the stores of a batch whose last request it answers.** While a
response frame with another status than success is handled, whatever its tag, key, extras and value and
whatever heads the read queue: no operation that is no batch tells its callback or its listener a
payload, and it tells a success just if it is a member, not ended by then, of a batch of stores that has
the tag of the frame. The engine is sound whenever a frame is handled in the course of a run. -/
theorem Queue.success_of_refusal (f : Frame) (head : Nat) (before after : Queue × Engine) :
    (Queue.Hands f head before after → f.status ≠ Wire.noError → before.2.Sound →
      ∀ id, before.2.IsSingle id →
      (∀ t, Teller.Speaks id t → ∃ new, after.2.reports.heard t = before.2.reports.heard t ++ new ∧
        (∀ payload, .payload payload ∉ new) ∧
        ∀ status, .status status ∈ new → status.isSuccess = true → before.2.Settles head f id) ∧
      (before.2.Settles head f id →
        after.2.reports.heard (.operation id) =
          before.2.reports.heard (.operation id) ++ [.status .success, .finished])) ∧
    ∀ (s : Lane) (actions : List Action),
      s.Initial → s.Hands actions f head before after → before.2.Sound := by
  refine ⟨fun h hstatus he id hid => ⟨fun t ht => ?_, fun hsettles => ?_⟩, ?_⟩
  · have hadds := Engine.adds_receive_of_refusal he.flat head hstatus
    rw [← h.received] at hadds
    obtain ⟨new, hnew, hmay⟩ := hadds id t ht
    refine ⟨new, hnew, fun payload hpayload => ?_, fun status hin hsuccess => ?_⟩
    · rcases hmay _ hpayload hid with hmodest | ⟨-, heq⟩
      · cases hmodest
      · cases heq
    · rcases hmay _ hin hid with hmodest | ⟨hsettles, -⟩
      · cases hmodest with
        | failure hcode => exact absurd (beq_iff_eq.1 hsuccess) hcode
      · exact hsettles
  · obtain ⟨hbefore, hafter⟩ := Engine.heard_of_settles he hsettles
    rw [h.received, hafter, hbefore]
    rfl
  · intro s actions hs h
    obtain ⟨front, bytes, rest, -, hrounds, -⟩ := h.arrives
    exact (Queue.rounds_keep hrounds (Lane.custody_run hs front).sound
      (Lane.joined_run hs front)).1.sound

def storeOf (key : String) : Command :=
  .store { kind := .set, key, flags := 0, exptime := 0, data := [120], cas := 0 }

/-- The stores of `a` and `b` wait for a response as one batch. -/
def storing : Lane :=
  ({ queue := { settings := ⟨64, 400, 10, true, 10, 1000⟩, node := 0, inputCapacity := 10 },
     engine := {} } : Lane).run
    [.create (storeOf "a") .silent, .create (storeOf "b") .silent, .submit 0, .submit 1, .copyInput,
      .pack]

/-- The store of `a` is refused, under its own tag. -/
theorem Queue.success_of_refusal_of_not_stored :
    let f : Frame := .response 0x11 Wire.itemNotStored [] [] [] 1 0
    let before := (storing.queue.appendRead f.encode, storing.engine)
    ∃ after, Queue.Hands f 2 before after ∧ f.status ≠ Wire.noError ∧ before.2.IsSingle 0 ∧
      ¬ before.2.Settles 2 f 0 ∧
      after.2.reports.heard (.operation 0) = [.status ⟨.notStored, "NOT_STORED"⟩, .finished] ∧
      ∀ status, .status status ∈ after.2.reports.heard (.operation 0) → status.isSuccess = false := by
  intro f before
  let after : Queue × Engine := ({ before.1 with readBuffer := [] }, (before.2.receive 2 f).1)
  have hparse : Frame.parse Wire.responseMagic before.1.readBuffer = .frame f [] := by decide +kernel
  have hq : before.1.readQueue = [2] := by decide +kernel
  have hpending : (before.2.receive 2 f).2 = .pending := by decide +kernel
  have hhands : Queue.Hands f 2 before after :=
    ⟨⟨[], hparse⟩, by rw [hq]; rfl, rfl, .pending hparse hq hpending⟩
  have hsingle : before.2.IsSingle 0 :=
    ⟨⟨1, .single (storeOf "a"), true, .silent⟩, storeOf "a", by decide +kernel, rfl⟩
  have htag : (before.2.get? 2).map (·.tag) = some 3 := by decide +kernel
  have hnot : ¬ before.2.Settles 2 f 0 := by
    rintro ⟨op, b, hop, -, -, htags, -⟩
    rw [hop, Option.map_some, Option.some_inj] at htag
    exact absurd (htags.trans htag) (by decide)
  have hsound : before.2.Sound := (Lane.custody_run ⟨rfl, rfl, rfl, rfl, rfl, rfl⟩ _).sound
  have hbefore : before.2.reports.heard (.operation 0) = [] := by decide +kernel
  obtain ⟨new, hnew, -, honly⟩ := ((Queue.success_of_refusal f 2 before after).1 hhands (by decide)
    hsound 0 hsingle).1 _ .operation
  refine ⟨after, hhands, by decide, hsingle, hnot, by decide +kernel, fun status hin => ?_⟩
  rw [hnew, hbefore, List.nil_append] at hin
  exact Bool.not_eq_true _ ▸ fun hsuccess => hnot (honly status hin hsuccess)

/-- **Both stores succeed by the word that the server is busy.** It comes under the tag of the last
request of their batch; as the answer to such a request alone it would be an error. -/
theorem Queue.success_of_busy :
    let f : Frame := .response 0x0a Wire.busy [] [] [] 3 0
    let after := ((storing.queue.appendRead f.encode).process storing.engine).2.1
    f.status ≠ Wire.noError ∧ storing.queue.readQueue = [2] ∧
      after.reports.heard (.operation 0) = [.status .success, .finished] ∧
      after.reports.heard (.operation 1) = [.status .success, .finished] ∧
      Command.noop.interpret 3 f = .error ⟨.server, "SERVER_ERROR"⟩ := by
  decide +kernel

end ShardedCache

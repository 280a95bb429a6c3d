import ShardedCache.Proofs.Node.Delivery

/-!
# Batching is invisible, but for one fault

An exchange with a server runs as if there were no batches, up to a point: a batch stays in the
write queue until all of it has been written, and when the server answers one of its members before
that, the node takes the response for one that nobody has asked for. Without batches there is no such
response, so there is no fault; and with them the answers are the same as long as there is none
(`Exchange.batching`).
-/

namespace ShardedCache

open Wire (Frame)

namespace Exchange

/-- What every move keeps. After a fault it is only what has been said so far. -/
structure Kept (server : Server) (x : Exchange) : Prop where
  sound : x.engine.Sound
  nodup : x.lane.accepted.Nodup
  commands : ∀ id ∈ x.lane.accepted, ∃ c, x.engine.command? id = some c
  answered : x.engine.Answered server x.lane.accepted
  onward : x.fault = none → (∃ k, Transit server x.lane.accepted x.peer x.queue x.engine k) ∧
    Frame.parse Wire.responseMagic x.queue.readBuffer = .incomplete

theorem kept_of_transit {server : Server} {x : Exchange} {k : Course}
    (h : Transit server x.lane.accepted x.peer x.queue x.engine k)
    (hidle : Frame.parse Wire.responseMagic x.queue.readBuffer = .incomplete) :
    x.Kept server where
  sound := h.custody.sound
  nodup := h.ordered.nodup
  commands id hid := (h.ordered.fits id hid).imp fun _ => And.left
  answered := h.receiving.answered
  onward _ := ⟨⟨k, h⟩, hidle⟩

theorem kept_of_initial {server : Server} {x : Exchange} (h : x.Initial) : x.Kept server := by
  have hget : ∀ id, x.engine.get? id = none := fun id => by
    rw [Engine.get?, show x.engine.operations = [] from h.lane.operations]
    rfl
  have hinput : x.queue.input = [] := h.lane.input
  have hwrite : x.queue.writeQueue = [] := h.lane.writeQueue
  have hread : x.queue.readQueue = [] := h.lane.readQueue
  have haccepted := h.lane.accepted
  refine @kept_of_transit server x ⟨[], [], [], []⟩ ⟨Lane.custody_of_initial h.lane, ?_, ?_, ?_⟩ ?_
  · refine ⟨?_, ?_, ?_, ?_, .inl rfl, ?_, ?_⟩ <;>
      simp [haccepted, hinput, hwrite, hread, Course.slots, Course.served]
  · refine ⟨?_, ?_, ?_, ?_, fun id hsingle => ?_⟩
    · simp [h.peer, h.writeBuffer, hwrite]
    · rw [h.peer]
      rfl
    · simp [hwrite]
    · simp [hwrite, hinput]
    · obtain ⟨n, c, hn, -⟩ := hsingle
      simp [Engine.nature?, hget] at hn
  · refine ⟨?_, ?_, ?_, ?_, ?_, ?_, ?_, ?_⟩ <;>
      simp [haccepted, h.peer, h.readBuffer, Queue.line, hinput, hwrite, hread, Course.replies,
        Course.served, Engine.Answered, Engine.asked]
  · rw [h.readBuffer]
    rfl

/-! ## Moves -/

section Step

variable {server : Server} {x : Exchange}

theorem step_of_fault (h : x.fault.isSome) (move : Move) : x.step server move = x := by
  unfold step
  rw [if_pos h]

theorem goes_submit (he : x.engine.Sound) (id : Nat) :
    x.engine.Goes (x.lane.step (.submit id)).engine ∧
      (x.lane.step (.submit id)).queue.settings = x.queue.settings := by
  simp only [Lane.step]
  split
  · split
    · next queue hsubmit =>
      rw [Queue.submit_eq hsubmit]
      exact ⟨Engine.Goes.refl he, rfl⟩
    · exact ⟨(Engine.goes_cancel he id _).1, rfl⟩
  · exact ⟨Engine.Goes.refl he, rfl⟩

/-- A move is made of whole steps of the engine. -/
theorem goes_step (server : Server) (he : x.engine.Sound) (move : Move) :
    x.engine.Goes (x.step server move).engine ∧
      (x.step server move).queue.settings = x.queue.settings := by
  unfold step
  split
  · exact ⟨Engine.Goes.refl he, rfl⟩
  · cases move with
    | create command callback => exact ⟨Engine.goes_create he command callback, rfl⟩
    | submit id =>
      dsimp only
      split
      · exact goes_submit he id
      · exact ⟨Engine.Goes.refl he, rfl⟩
    | copyInput => exact ⟨Engine.Goes.refl he, rfl⟩
    | pack =>
      obtain ⟨hgoes, hsettings, -⟩ := Queue.goes_pack x.queue he
      exact ⟨hgoes, hsettings⟩
    | take n => exact ⟨Engine.Goes.refl he, rfl⟩
    | deliver n => exact Queue.goes_process (x.queue.appendRead (x.peer.outbox.take n)) he

theorem kept_submit {k : Course} (h : Transit server x.lane.accepted x.peer x.queue x.engine k)
    (hidle : Frame.parse Wire.responseMagic x.queue.readBuffer = .incomplete) {id : Nat}
    (hsendable : x.isSendable id) :
    ({ x with lane := x.lane.step (.submit id) } : Exchange).Kept server := by
  simp only [isSendable, Bool.and_eq_true, Bool.not_eq_true', Option.any_eq_true,
    decide_eq_true_eq] at hsendable
  obtain ⟨hopen, c, hc, hfits⟩ := hsendable
  simp only [Lane.step]
  split
  · next hfresh =>
    obtain ⟨hsingle, hnew⟩ := Lane.isSingle_of_isFresh hfresh
    split
    · next queue hsubmit =>
      rw [Queue.submit_eq hsubmit]
      exact kept_of_transit (h.submit hsingle hnew hopen hc hfits) hidle
    · exact kept_of_transit (h.refuse hsingle hnew _) hidle
  · exact kept_of_transit h hidle

/-- What was on its way has arrived. -/
theorem arrived {k : Course} (h : Transit server x.lane.accepted x.peer x.queue x.engine k) (n : Nat) :
    Transit server x.lane.accepted { x.peer with outbox := x.peer.outbox.drop n }
      (x.queue.appendRead (x.peer.outbox.take n)) x.engine k := by
  obtain ⟨hcustody, ho, hs, hr⟩ := h
  refine ⟨hcustody.goes (Engine.Goes.refl hcustody.sound) rfl rfl,
    ho.requeue rfl (fun _ rest hq => ⟨rest, hq⟩) (fun _ hid => hid) rfl rfl,
    ⟨hs.bytes, hs.begun, hs.head, hs.fresh, hs.untouched⟩,
    ⟨?_, hr.replies, hr.past, hr.done, hr.waiting, hr.unanswered, hr.silent, hr.answered⟩⟩
  change (x.queue.readBuffer ++ x.peer.outbox.take n) ++ x.peer.outbox.drop n = _
  rw [List.append_assoc, List.take_append_drop]
  exact hr.bytes

theorem processed {k : Course} (h : Transit server x.lane.accepted x.peer x.queue x.engine k)
    (htags : x.engine.TagsDistinct) (n : Nat) : let q := x.queue.appendRead (x.peer.outbox.take n)
    Processed server x.lane.accepted { x.peer with outbox := x.peer.outbox.drop n } q x.engine
      (q.process x.engine).1 (q.process x.engine).2.1 (q.process x.engine).2.2 :=
  Transit.process _ _ ⟨k, arrived h n⟩ htags

theorem kept_step (h : x.Kept server) (htags : x.engine.TagsDistinct) (move : Move) :
    (x.step server move).Kept server := by
  cases hfault : x.fault with
  | some fault =>
    rw [step_of_fault (by simp [hfault])]
    exact h
  | none =>
    obtain ⟨⟨k, ht⟩, hidle⟩ := h.onward hfault
    unfold step
    rw [if_neg (by simp [hfault])]
    cases move with
    | create command callback => exact kept_of_transit (ht.create command callback) hidle
    | submit id =>
      dsimp only
      split
      · next hsendable => exact kept_submit ht hidle hsendable
      · exact h
    | copyInput =>
      obtain ⟨k', ht'⟩ := ht.copyInput
      exact kept_of_transit ht' hidle
    | pack =>
      obtain ⟨k', ht'⟩ := ht.pack
      refine kept_of_transit ht' ?_
      rw [← hidle]
      exact congrArg _ (Queue.goes_pack x.queue h.sound).2.2
    | take n =>
      obtain ⟨k', ht'⟩ := ht.take n
      exact kept_of_transit ht' hidle
    | deliver n =>
      have hp := processed ht htags n
      refine ⟨(Queue.goes_process _ h.sound).1.sound, h.nodup, fun id hid => ?_, hp.answered,
        hp.onward⟩
      obtain ⟨c, hc⟩ := h.commands id hid
      refine ⟨c, ?_⟩
      rw [← hc, Engine.command?, Engine.command?]
      exact congrArg (·.bind (·.work.command?)) (hp.nature id)

/-- There is a fault just when a response overtakes its request. -/
theorem fault_step (h : x.Kept server) (htags : x.engine.TagsDistinct) (hfault : x.fault = none)
    (move : Move) : (x.step server move).fault.isSome ↔ ∃ n, move = .deliver n ∧ x.Overtaken n := by
  obtain ⟨⟨k, ht⟩, -⟩ := h.onward hfault
  cases move with
  | deliver n =>
    have hp := processed ht htags n
    have hstep : (x.step server (.deliver n)).fault =
        ((x.queue.appendRead (x.peer.outbox.take n)).process x.engine).2.2 := by
      unfold step
      rw [if_neg (by simp [hfault])]
    rw [hstep, hp.fault]
    constructor
    · exact fun hovertakes => ⟨n, rfl, hovertakes⟩
    · rintro ⟨n', hmove, hovertaken⟩
      cases hmove
      exact hovertaken
  | submit id =>
    have hstep : (x.step server (.submit id)).fault = none := by
      unfold step
      rw [if_neg (by simp [hfault])]
      dsimp only
      split <;> exact hfault
    simp [hstep]
  | _ =>
    unfold step
    simp [hfault]

end Step

/-! ## Runs -/

section Run

variable {server : Server}

theorem goes_run (server : Server) : ∀ (moves : List Move) {x : Exchange}, x.engine.Sound →
    x.engine.Goes (x.run server moves).engine ∧
      (x.run server moves).queue.settings = x.queue.settings
  | [], x, he => ⟨Engine.Goes.refl he, rfl⟩
  | move :: moves, x, he => by
    obtain ⟨hgoes, hsettings⟩ := goes_step server he move
    obtain ⟨hrest, hsettings'⟩ := goes_run server moves hgoes.sound
    exact ⟨hgoes.trans hrest, hsettings'.trans hsettings⟩

theorem tagsDistinct_of_run {moves : List Move} {x : Exchange} (he : x.engine.Sound)
    (htags : (x.run server moves).engine.TagsDistinct) : x.engine.TagsDistinct :=
  htags.of_follows (goes_run server moves he).1.follows

/-- Tags are distinct as long as fewer operations have been made than there are tags. -/
theorem tagsDistinct_of_size_le {moves : List Move} {x : Exchange} (h : x.Initial)
    (hfew : (x.run server moves).engine.size ≤ Engine.tagCount) :
    (x.run server moves).engine.TagsDistinct := by
  have hgoes := (goes_run server moves (@kept_of_initial server x h).sound).1
  exact (hgoes.counted (Engine.counted_of_nil h.lane.operations)).tagsDistinct hfew

theorem kept_run : ∀ (moves : List Move) {x : Exchange}, x.Kept server →
    (x.run server moves).engine.TagsDistinct → (x.run server moves).Kept server
  | [], _, h, _ => h
  | move :: moves, x, h, htags => by
    have htags' : x.engine.TagsDistinct := @tagsDistinct_of_run server (move :: moves) x h.sound htags
    exact kept_run moves (kept_step h htags' move) htags

theorem run_of_fault : ∀ (moves : List Move) {x : Exchange}, x.fault.isSome → x.run server moves = x
  | [], _, _ => rfl
  | move :: moves, x, h => by
    change (x.step server move).run server moves = x
    rw [step_of_fault h, run_of_fault moves h]

/-- A run ends in a fault just if at some time in it a response overtakes its request. -/
theorem fault_run : ∀ (moves : List Move) {x : Exchange}, x.Kept server → x.fault = none →
    (x.run server moves).engine.TagsDistinct →
      ((x.run server moves).fault.isSome ↔ ∃ before n after, moves = before ++ .deliver n :: after ∧
        (x.run server before).Overtaken n)
  | [], x, _, hfault, _ => by
    change x.fault.isSome ↔ _
    simp [hfault]
  | move :: moves, x, h, hfault, htags => by
    have htags' : x.engine.TagsDistinct := @tagsDistinct_of_run server (move :: moves) x h.sound htags
    have hstep := fault_step h htags' hfault move
    change ((x.step server move).run server moves).fault.isSome ↔ _
    cases hnext : (x.step server move).fault with
    | some fault =>
      have hsome : (x.step server move).fault.isSome := by simp [hnext]
      rw [run_of_fault moves hsome, iff_true_left hsome]
      obtain ⟨n, rfl, hovertaken⟩ := hstep.1 hsome
      exact ⟨[], n, moves, rfl, hovertaken⟩
    | none =>
      rw [fault_run moves (kept_step h htags' move) hnext htags]
      constructor
      · rintro ⟨before, n, after, rfl, hovertaken⟩
        exact ⟨move :: before, n, after, rfl, hovertaken⟩
      · rintro ⟨before, n, after, heq, hovertaken⟩
        cases before with
        | nil =>
          cases heq
          have hsome := hstep.2 ⟨n, rfl, hovertaken⟩
          simp [hnext] at hsome
        | cons first before =>
          cases heq
          exact ⟨before, n, after, rfl, hovertaken⟩

/-- Without batches there is never a fault. -/
theorem fault_run_of_plain : ∀ (moves : List Move) {x : Exchange}, x.Kept server → x.fault = none →
    x.queue.settings.optimize = false → (x.run server moves).engine.TagsDistinct →
      (x.run server moves).fault = none
  | [], _, _, hfault, _, _ => hfault
  | move :: moves, x, h, hfault, hplain, htags => by
    have hsettings := (goes_step server h.sound move).2
    have htags' : x.engine.TagsDistinct := @tagsDistinct_of_run server (move :: moves) x h.sound htags
    refine fault_run_of_plain moves (kept_step h htags' move) ?_ (by rw [hsettings, hplain]) htags
    cases hnext : (x.step server move).fault with
    | none => rfl
    | some fault =>
      obtain ⟨n, -, f, batch, m, _, -, hbatch, hm, -⟩ :=
        (fault_step h htags' hfault move).1 (by simp [hnext])
      obtain ⟨⟨k, ht⟩, -⟩ := h.onward hfault
      have hsingle := ht.ordered.plain hplain batch (List.mem_of_head? hbatch)
      rw [Engine.members_of_isSingle hsingle] at hm
      cases hm

end Run

/-! ## Answers -/

theorem asked_eq_of_commands {e e' : Engine} {ids ids' : List Nat}
    (h : ids.map e.command? = ids'.map e'.command?) : e.asked ids = e'.asked ids' := by
  have hcommands := congrArg (List.filterMap id) h
  rw [List.filterMap_map, List.filterMap_map] at hcommands
  exact congrArg (fun commands : List Command =>
    (commands.map (·.request 0)).filter (!·.isNoOp)) hcommands

theorem past_eq_take {server : Server} {x : Exchange} (h : x.Kept server) {i id : Nat}
    (hi : x.submitted[i]? = some id) :
    x.engine.past x.lane.accepted id = x.engine.asked (x.submitted.take i) := by
  obtain ⟨hlt, rfl⟩ := List.getElem?_eq_some_iff.1 hi
  have hsplit : x.submitted = x.submitted.take i ++ x.submitted[i] :: x.submitted.drop (i + 1) := by
    rw [← List.drop_eq_getElem_cons hlt, List.take_append_drop]
  exact Engine.past_eq hsplit h.nodup

/-- Operations for the same command after the same submissions end alike. -/
theorem same_conclusion {server : Server} {x y : Exchange} (hx : x.Kept server) (hy : y.Kept server)
    (hsame : x.submitted.map x.engine.command? <+: y.submitted.map y.engine.command?)
    {i id id' : Nat} (hi : x.submitted[i]? = some id) (hi' : y.submitted[i]? = some id')
    (hend : x.engine.isTerminal id) (hend' : y.engine.isTerminal id') :
    ∃ c : Conclusion, c.HeardIn (x.engine.heardOf id).1 ∧ c.HeardIn (y.engine.heardOf id').1 := by
  obtain ⟨rest, hrest⟩ := hsame
  have hlt : i < (x.submitted.map x.engine.command?).length := by
    rw [List.length_map]
    exact (List.getElem?_eq_some_iff.1 hi).1
  have hid : id ∈ x.lane.accepted := List.mem_reverse.1 (List.mem_of_getElem? hi)
  have hid' : id' ∈ y.lane.accepted := List.mem_reverse.1 (List.mem_of_getElem? hi')
  obtain ⟨c, hc⟩ := hx.commands id hid
  have hc' : y.engine.command? id' = some c := by
    have hat := congrArg (·[i]?) hrest
    rw [List.getElem?_append_left hlt, List.getElem?_map, List.getElem?_map, hi, hi', Option.map_some,
      Option.map_some, Option.some.injEq] at hat
    rw [← hat, hc]
  have hpast : x.engine.asked (x.submitted.take i) = y.engine.asked (y.submitted.take i) := by
    refine asked_eq_of_commands ?_
    rw [List.map_take, List.map_take, ← hrest, List.take_append_of_le_length (Nat.le_of_lt hlt)]
  refine ⟨server.conclusion (x.engine.past x.lane.accepted id) c, hx.answered id hid hend c hc, ?_⟩
  rw [past_eq_take hx hi, hpast, ← past_eq_take hy hi']
  exact hy.answered id' hid' hend' c hc'

theorem isTerminal_of_quiet {server : Server} {x : Exchange} (h : x.Kept server)
    (hfault : x.fault = none) (hquiet : x.Quiet) : ∀ id ∈ x.submitted, x.engine.isTerminal id := by
  obtain ⟨⟨k, ht⟩, hidle⟩ := h.onward hfault
  exact fun id hid => ht.isTerminal_of_idle hidle hquiet.input hquiet.writeQueue hquiet.writeBuffer
    hquiet.outbox id (List.mem_reverse.1 hid)

/-- **Batching shows in one way only.** Of two exchanges with a server the second makes no batches,
and has no fault. The first has a fault just when a member of a batch is answered before the batch has
been written in full. Until then operations that are submitted in the same order come to the same
code and payload in both, and all of them have come to it when everything has been sent, answered and
delivered. Tags are distinct until all of them have been given out (`tagsDistinct_of_size_le`). -/
theorem batching (server : Server) {x y : Exchange} (hx : x.Initial) (hy : y.Initial)
    (hplain : y.queue.settings.optimize = false) (moves moves' : List Move)
    (htags : (x.run server moves).engine.TagsDistinct)
    (htags' : (y.run server moves').engine.TagsDistinct) :
    let s := x.run server moves
    let t := y.run server moves'
    t.fault = none ∧
    (s.fault.isSome ↔ ∃ before n after, moves = before ++ .deliver n :: after ∧
      (x.run server before).Overtaken n) ∧
    (s.submitted.map s.engine.command? <+: t.submitted.map t.engine.command? →
      ∀ (i : Nat) id id', s.submitted[i]? = some id → t.submitted[i]? = some id' →
        s.engine.isTerminal id → t.engine.isTerminal id' →
          ∃ c : Conclusion, c.HeardIn (s.engine.heardOf id).1 ∧ c.HeardIn (t.engine.heardOf id').1) ∧
    (s.fault = none → s.Quiet → ∀ id ∈ s.submitted, s.engine.isTerminal id) ∧
    (t.Quiet → ∀ id ∈ t.submitted, t.engine.isTerminal id) := by
  intro s t
  have hs : s.Kept server := kept_run moves (kept_of_initial hx) htags
  have ht : t.Kept server := kept_run moves' (kept_of_initial hy) htags'
  have hnone : t.fault = none :=
    fault_run_of_plain moves' (kept_of_initial hy) hy.fault hplain htags'
  exact ⟨hnone, fault_run moves (kept_of_initial hx) hx.fault htags,
    fun hsame i id id' hi hi' hend hend' => same_conclusion hs ht hsame hi hi' hend hend',
    isTerminal_of_quiet hs, isTerminal_of_quiet ht hnone⟩

/-- A server that has everything. -/
def generous : Server where
  answer _ _ := { status := Wire.noError, extras := [0, 0, 0, 0], value := [42] }
  noOp _ _ _ := rfl
  valid _ _ := by decide
  fits _ _ := by decide

/-- Two gets, in a batch that fits into the write buffer and one by one. -/
theorem batching_of_two_gets :
    let start (settings : QueueSettings) : Exchange :=
      { lane := { queue := { settings, node := 0, inputCapacity := 10 }, engine := {} } }
    let moves : List Move := [.create (.get "a" false) .silent, .create (.get "b" false) .silent,
      .submit 0, .submit 1, .copyInput, .pack, .take 100, .deliver 100]
    let s := (start ⟨64, 80, 10, true, 10, 1000⟩).run generous moves
    let t := (start ⟨64, 80, 10, false, 10, 1000⟩).run generous moves
    s.submitted = [0, 1] ∧ s.fault = none ∧ t.fault = none ∧ s.engine.isTerminal 0 ∧
      ∃ c : Conclusion, c.HeardIn (s.engine.heardOf 0).1 ∧ c.HeardIn (t.engine.heardOf 0).1 := by
  intro start moves s t
  have hinitial : ∀ settings, (start settings).Initial := fun settings =>
    ⟨⟨rfl, rfl, rfl, rfl, rfl, rfl⟩, rfl, rfl, rfl, rfl⟩
  have hrun : (s.fault, s.submitted, s.engine.size, s.engine.isTerminal 0) =
      (none, [0, 1], 3, true) := by decide +kernel
  have hrun' : (t.fault, t.submitted, t.engine.size, t.engine.isTerminal 0) =
      (none, [0, 1], 2, true) := by decide +kernel
  have hcommands : s.submitted.map s.engine.command? = t.submitted.map t.engine.command? := by
    decide +kernel
  simp only [Prod.mk.injEq] at hrun hrun'
  obtain ⟨hfault, hsubmitted, hsize, hend⟩ := hrun
  obtain ⟨hfault', hsubmitted', hsize', hend'⟩ := hrun'
  have hs : s.engine.TagsDistinct := tagsDistinct_of_size_le (hinitial _) (by
    change s.engine.size ≤ _
    rw [hsize]
    decide)
  have ht : t.engine.TagsDistinct := tagsDistinct_of_size_le (hinitial _) (by
    change t.engine.size ≤ _
    rw [hsize']
    decide)
  have hspec := batching generous (hinitial ⟨64, 80, 10, true, 10, 1000⟩)
    (hinitial ⟨64, 80, 10, false, 10, 1000⟩) rfl moves moves hs ht
  refine ⟨hsubmitted, hfault, hfault', hend, ?_⟩
  refine hspec.2.2.1 ?_ 0 0 0 ?_ ?_ hend hend'
  · exact ⟨[], (List.append_nil _).trans hcommands⟩
  · change s.submitted[0]? = _
    rw [hsubmitted]
    rfl
  · change t.submitted[0]? = _
    rw [hsubmitted']
    rfl

/-- With room for the first get only, the server answers it while its batch is being written, and
the node drops the connection. Without batches it takes the answer. -/
theorem fault_of_small_buffer :
    let start (settings : QueueSettings) : Exchange :=
      { lane := { queue := { settings, node := 0, inputCapacity := 10 }, engine := {} } }
    let moves : List Move := [.create (.get "a" false) .silent, .create (.get "b" false) .silent,
      .submit 0, .submit 1, .copyInput, .pack, .take 40, .deliver 100]
    let s := (start ⟨64, 40, 10, true, 10, 1000⟩).run generous moves
    let t := (start ⟨64, 40, 10, false, 10, 1000⟩).run generous moves
    (start ⟨64, 40, 10, true, 10, 1000⟩).Initial ∧ s.fault = some (.unsolicited 1) ∧
      s.engine.isTerminal 0 = false ∧ t.fault = none ∧ t.engine.isTerminal 0 := by
  intro start moves s t
  have hrun : (s.fault, s.engine.isTerminal 0, t.fault, t.engine.isTerminal 0) =
      (some (.unsolicited 1), false, none, true) := by decide +kernel
  simp only [Prod.mk.injEq] at hrun
  exact ⟨⟨⟨rfl, rfl, rfl, rfl, rfl, rfl⟩, rfl, rfl, rfl, rfl⟩, hrun⟩

end Exchange

end ShardedCache

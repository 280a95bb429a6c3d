import ShardedCache.Proofs.Engine.Acts

/-!
# What callbacks and listeners hear

Over any run of acts an operation tells its callback nothing, or its outcome, or a value and then
success; it has told its outcome just when it has ended, and it tells nothing more afterwards. There
is room for one listener: the one registered last, be it the multiplexer of a batch, hears the same
outcome, and one that it took the place of hears nothing.
-/

namespace ShardedCache

open Wire (Status)

namespace Reports

/-- What one teller has reported and to whom, oldest first. -/
def said (r : Reports) (teller : Teller) : List (Callback × Event) :=
  (r.journal.reverse.filter (·.teller = teller)).map fun d => (d.receiver, d.event)

/-- A teller that has talked to one callback only. -/
theorem said_eq {r : Reports} {teller : Teller} {receiver : Callback}
    (h : ∀ d ∈ r.journal, d.teller = teller → d.receiver = receiver) :
    r.said teller = (r.heard teller).map (receiver, ·) := by
  rw [said, heard, List.map_map]
  refine List.map_congr_left fun d hd => ?_
  obtain ⟨hd, ht⟩ := List.mem_filter.1 hd
  have hreceiver := h d (List.mem_reverse.1 hd) (by simpa using ht)
  rw [Function.comp_apply, hreceiver]

end Reports

namespace Engine

variable {e : Engine} {id : Nat} {op : Operation}

theorem Steady.said_operation (he : e.Steady) (hop : e.get? id = some op) :
    e.reports.said (.operation id) = (e.reports.heard (.operation id)).map (op.callback, ·) := by
  refine Reports.said_eq fun d hd ht => ?_
  have haddressed := he.addressed d hd
  rw [Addressed, ht] at haddressed
  obtain ⟨op', hop', hreceiver⟩ := haddressed
  rw [hop] at hop'
  cases hop'
  exact hreceiver

theorem Steady.said_listener (he : e.Steady) (hop : e.get? id = some op) {listener : Callback}
    (hlistener : op.listener = some listener) :
    e.reports.said (.listener id) =
      op.status.toList.flatMap fun s => [(listener, .status s), (listener, .finished)] := by
  have hheard : e.reports.heard (.listener id) = op.overheard :=
    (he.lives (life?_of_get? hop)).overheard
  have hsaid : e.reports.said (.listener id) =
      (e.reports.heard (.listener id)).map (listener, ·) := by
    refine Reports.said_eq fun d hd ht => ?_
    have haddressed := he.addressed d hd
    rw [Addressed, ht] at haddressed
    obtain ⟨op', hop', hreceiver⟩ := haddressed
    rw [hop] at hop'
    cases hop'
    rw [hlistener] at hreceiver
    cases hreceiver
    rfl
  rw [hsaid, hheard, Operation.overheard, hlistener]
  cases op.status <;> rfl

theorem listen_snd (hop : e.get? id = some op) (listener : Callback) :
    (e.listen id listener).2 = op.status.isNone := by
  cases hs : op.status <;> simp [listen, hop, hs]

theorem get?_listen (hop : e.get? id = some op) (hnone : op.status = none) (listener : Callback) :
    (e.listen id listener).1.get? id = some { op with listener := some listener } := by
  rw [listen_of_none hop hnone]
  exact get?_enlist_self hop

/-- A listener whose place no other takes hears the outcome, however it came to its place. -/
theorem Steady.said_listener_run (he : e.Steady) (hop : e.get? id = some op) {listener : Callback}
    (hlistener : op.listener = some listener) {more : List Act} (hmore : ∀ a ∈ more, ¬ a.Enlists id) :
    ∃ op', (e.run more).get? id = some op' ∧ (e.run more).reports.said (.listener id) =
      op'.status.toList.flatMap fun s => [(listener, .status s), (listener, .finished)] := by
  obtain ⟨l', hl', hlife⟩ := (proceeds_run more he).lives (life?_of_get? hop)
  have hkept : l'.operation.listener = op.listener := by
    refine hlife.listener.resolve_right ?_
    rintro ⟨⟨a, ha, henlists⟩, -⟩
    exact hmore a ha henlists
  exact ⟨l'.operation, get?_of_life? hl',
    (steady_run he more).said_listener (get?_of_life? hl') (hkept.trans hlistener)⟩

/-- Joining puts a listener on a member that is still to report its outcome, and on no other. -/
theorem get?_join (hop : e.get? id = some op) (hnone : op.status = none) (listener : Callback)
    (m : Nat) : (join listener e m).get? id =
      some (if id = m then { op with listener := some listener } else op) := by
  have hreports : (join listener e m).get? id = (e.listen m listener).1.get? id := by
    unfold join
    split <;> next heq => simp [heq, get?]
  rw [hreports]
  by_cases hid : id = m
  · rw [if_pos hid, ← hid, get?_listen hop hnone]
  · rw [if_neg hid, ← hop]
    unfold listen
    split
    · split
      · rfl
      · exact get?_enlist_of_ne e hid listener
    · rfl

theorem get?_joinEach (listener : Callback) : ∀ (members : List Nat) {e : Engine} {op : Operation},
    e.get? id = some op → op.status = none → (e.each members (join listener)).get? id =
      some (if id ∈ members then { op with listener := some listener } else op)
  | [], _, _, hop, _ => hop
  | m :: members, e, op, hop, hnone => by
    have hjoined := get?_join hop hnone listener m
    have hrest := get?_joinEach listener members hjoined (by split <;> exact hnone)
    refine hrest.trans (congrArg some ?_)
    by_cases hid : id = m <;> by_cases hmem : id ∈ members <;> simp [hid, hmem]

/-- A member of a new batch listens for the multiplexer of the batch. -/
theorem get?_batch_of_mem (hop : e.get? id = some op) (hnone : op.status = none)
    (family : BatchFamily) {members : List Nat} (hmem : id ∈ members) (aggregate : Callback) :
    (e.batch family members aggregate).1.get? id =
      some { op with listener := some (.multiplex e.reports.multiplexers.length aggregate) } := by
  obtain ⟨multiplexer, idempotent, hbatch⟩ := batch_eq e family members aggregate
  have hjoined : (e.joined members aggregate).get? id =
      some { op with listener := some (.multiplex e.reports.multiplexers.length aggregate) } := by
    let counted : Engine := { e with reports := (e.reports.addMultiplexer members.length).1 }
    have hcounted : counted.get? id = some op := hop
    refine (get?_joinEach _ members hcounted hnone).trans ?_
    rw [if_pos hmem]
  rw [hbatch, get?_add, if_neg (Nat.ne_of_lt (lt_size_of_get? hjoined)), hjoined]

/-- What has ended stays as it is, whatever is done. -/
theorem Steady.ending_run (he : e.Steady) (hop : e.get? id = some op) (hend : op.isTerminal)
    (more : List Act) : ∃ op', (e.run more).get? id = some op' ∧ op'.phase = op.phase ∧
      op'.status = op.status ∧ op'.cancelCause = op.cancelCause ∧
      op'.error = (e.blameRun more id).or op.error ∧
      (e.run more).heardOf id = e.heardOf id ∧ op'.callback = op.callback := by
  obtain ⟨l', hl', hlife⟩ := (proceeds_run more he).lives (life?_of_get? hop)
  have hending := hlife.ending hend
  obtain ⟨op', hop', rfl⟩ := Option.map_eq_some_iff.1 hl'
  refine ⟨op', hop', congrArg Ending.phase hending, congrArg Ending.status hending,
    congrArg Ending.cancelCause hending, hlife.error hend, ?_, congrArg Nature.callback hlife.nature⟩
  exact Prod.ext (congrArg Ending.heard hending) (congrArg Ending.overheard hending)

/-- **An operation tells its outcome once.** After any run of acts its callback has heard nothing, or
one status and that it has finished, or a value, success and that it has finished; it has heard the
status just when the operation has ended, and hears nothing more. A listener is turned away just when
the outcome is there to be read. One that is not turned away, and whose place no other takes, hears
the same status and that the operation has finished, and until then nothing; so does the multiplexer
of a batch that the operation has joined. -/
theorem outcome_told_once {e₀ : Engine} (h : e₀.Initial) (acts : List Act) {id : Nat}
    {op : Operation} (hop : (e₀.run acts).get? id = some op) :
    let e := e₀.run acts
    (∃ events, Told op.status events ∧
      e.reports.said (.operation id) = events.map (op.callback, ·)) ∧
    op.isTerminal = op.status.isSome ∧
    (op.isTerminal → ∀ more, ∃ op', (e.run more).get? id = some op' ∧ op'.phase = op.phase ∧
      op'.status = op.status ∧
      (e.run more).reports.said (.operation id) = e.reports.said (.operation id)) ∧
    (∀ listener, (e.listen id listener).2 = op.status.isNone) ∧
    (∀ listener, op.status = none → ∀ more : List Act, (∀ a ∈ more, ¬ a.Enlists id) →
      let t := (e.act (.listen id listener)).run more
      ∃ op', t.get? id = some op' ∧ t.reports.said (.listener id) =
        op'.status.toList.flatMap fun s => [(listener, .status s), (listener, .finished)]) ∧
    ∀ family members aggregate, id ∈ members → op.status = none →
      ∀ more : List Act, (∀ a ∈ more, ¬ a.Enlists id) →
      let t := (e.act (.batch family members aggregate)).run more
      let multiplexer := Callback.multiplex e.reports.multiplexers.length aggregate
      ∃ op', t.get? id = some op' ∧ t.reports.said (.listener id) =
        op'.status.toList.flatMap fun s => [(multiplexer, .status s), (multiplexer, .finished)] := by
  intro e
  have he : e.Steady := steady_run (steady_of_initial h) acts
  have hsound := he.lives (life?_of_get? hop)
  refine ⟨⟨_, hsound.told, he.said_operation hop⟩, hsound.ended, fun hend more => ?_,
    fun listener => listen_snd hop listener, fun listener hnone more hmore => ?_,
    fun family members aggregate hmem hnone more hmore => ?_⟩
  · obtain ⟨op', hop', hphase, hstatus, -, -, hheard, hcallback⟩ := he.ending_run hop hend more
    refine ⟨op', hop', hphase, hstatus, ?_⟩
    rw [(steady_run he more).said_operation hop', he.said_operation hop, hcallback]
    exact congrArg (List.map _) (congrArg Prod.fst hheard)
  · have hlistened : (e.act (.listen id listener)).Steady :=
      (proceeds_act he (.listen id listener)).steady he
    exact hlistened.said_listener_run (get?_listen hop hnone listener) rfl hmore
  · have hbatched : (e.act (.batch family members aggregate)).Steady :=
      (proceeds_act he (.batch family members aggregate)).steady he
    exact hbatched.said_listener_run (get?_batch_of_mem hop hnone family hmem aggregate) rfl hmore

/-- A get that finds its value after a listener has come. -/
theorem outcome_told_once_of_hit :
    let acts : List Act := [.create (.get "k" false) (.record "caller")]
    let more : List Act := [.fill 0 100, .finishWriting 0,
      .receive 0 (.response 0 0 [0, 0, 0, 7] [] [65] 1 0)]
    let e := run {} acts
    let t := (e.act (.listen 0 (.record "listener"))).run more
    Initial {} ∧ (∀ a ∈ more, ¬ a.Enlists 0) ∧ t.isTerminal 0 = true ∧
      ∃ op, e.get? 0 = some op ∧ op.status = none ∧ (e.listen 0 (.record "listener")).2 = true ∧
      ∃ op', t.get? 0 = some op' ∧ t.reports.said (.listener 0) = op'.status.toList.flatMap
        fun s => [(.record "listener", .status s), (.record "listener", .finished)] := by
  intro acts more e t
  have h : Initial {} := ⟨rfl, rfl⟩
  have hmore : ∀ a ∈ more, ¬ a.Enlists 0 := by simp [more, Act.Enlists]
  have hend : t.isTerminal 0 = true := by decide +kernel
  obtain ⟨op, hop, hnone⟩ : ∃ op, e.get? 0 = some op ∧ op.status = none := ⟨_, rfl, rfl⟩
  obtain ⟨-, -, -, haccepted, hheard, -⟩ := outcome_told_once h acts hop
  refine ⟨h, hmore, hend, op, hop, hnone, ?_, hheard (.record "listener") hnone more hmore⟩
  rw [haccepted, hnone]
  rfl

/-- A listener that another takes the place of was not turned away, and yet hears nothing of the
outcome. -/
theorem replaced_listener_unheard :
    let e := run {} [.create (.get "k" false) .silent]
    let e' := e.act (.listen 0 (.record "first"))
    let t := e'.run [.listen 0 (.record "second"), .complete 0 ⟨.notFound, "nf"⟩]
    (e.listen 0 (.record "first")).2 = true ∧ t.isTerminal 0 = true ∧
      ∀ d ∈ t.reports.journal, d.receiver ≠ .record "first" := by
  decide +kernel

end Engine

end ShardedCache

import ShardedCache.Proofs.Batch.Joining
import ShardedCache.Proofs.Node.Slots

/-!
# A batch settles its members and reports once

The life of a batch from its making, with members some of which may have ended before, through any
cancellations, responses and failures (`Engine.batchRun`). Each member has one way to report to the
multiplexer of the batch: at once, if it had ended, and through its listener otherwise
(`Engine.reporter`). It reports there what it tells its callback, so the multiplexer hears of each
member once, and the aggregate hears one report (`Engine.batch_settles_and_reports_once`).
-/

namespace ShardedCache

open Wire (Frame Status)

/-- The operation in whose name something is told. -/
def Teller.number : Teller → Nat
  | .operation id | .listener id | .finishedEarly id | .multiplexer id => id

namespace Reports

/-- The outcomes that a callback has been told of, oldest first, and whose they are. -/
def verdicts (r : Reports) (receiver : Callback) : List (Nat × Status) :=
  (Relay.verdicts (r.deliveredTo receiver)).map fun (t, s) => (t.number, s)

/-- The last failing status, or success. -/
def final (verdicts : List (Nat × Status)) : Status :=
  ((verdicts.map (·.2)).filter (!·.isSuccess)).getLast?.getD .success

theorem final_verdicts (r : Reports) (receiver : Callback) :
    final (r.verdicts receiver) = (Relay.failing (r.deliveredTo receiver)).getD .success := by
  rw [final, verdicts, List.map_map]
  rfl

/-- What a teller who talks to one callback only has told it. -/
theorem events_deliveredTo {r : Reports} {t : Teller} {receiver : Callback}
    (h : ∀ d ∈ r.journal, d.teller = t → d.receiver = receiver) :
    ((r.deliveredTo receiver).filter (·.teller = t)).map (·.event) = r.heard t := by
  rw [deliveredTo, heard, List.filter_filter]
  congr 1
  refine List.filter_congr fun d hd => ?_
  have := h d (List.mem_reverse.1 hd)
  simpa using this

end Reports

namespace Engine

/-! ## The request -/

/-- What a member adds to the request of its batch, unless it has been cancelled. -/
def quietFrame? (e : Engine) (member : Nat) : Option Frame :=
  (e.get? member).bind fun op =>
    if op.isCancelled then none else op.work.command?.bind (·.quietRequest? op.tag)

theorem quietBytes_eq_encode (e : Engine) (member : Nat) :
    e.quietBytes member = ((e.quietFrame? member).map (·.encode)).getD [] := by
  cases hop : e.get? member with
  | none => simp [quietBytes, quietFrame?, hop]
  | some op =>
    cases hwork : op.work with
    | batch b => cases op; cases hwork; simp [quietBytes, quietFrame?, hop, Work.command?]
    | single c =>
      by_cases hphase : op.phase = .cancelled
      · cases op
        cases hwork
        simp_all [quietBytes, quietFrame?, Operation.isCancelled]
      · rw [quietBytes_eq hop hwork hphase]
        simp [quietFrame?, hop, Operation.isCancelled, hphase, hwork, Work.command?]

/-- The last request of a batch, which is always answered. -/
def sentinel (tag : UInt32) : Frame := .request .noOp [] [] [] tag 0

theorem encode_batch {e : Engine} {op : Operation} {b : Batch} (hb : op.work = .batch b) :
    e.encode op = Frame.encodeAll (b.members.filterMap e.quietFrame? ++ [sentinel op.tag]) := by
  have hmembers : ∀ members : List Nat, members.flatMap e.quietBytes =
      Frame.encodeAll (members.filterMap e.quietFrame?) := fun members => by
    induction members with
    | nil => rfl
    | cons m members ih =>
      rw [List.flatMap_cons, ih, quietBytes_eq_encode, List.filterMap_cons]
      cases e.quietFrame? m <;> rfl
  rw [encode, hb, Frame.encodeAll_append, Frame.encodeAll_cons, Frame.encodeAll_nil, List.append_nil]
  dsimp only
  rw [hmembers]
  rfl

/-- The first bytes of a batch are encoded when they are wanted. -/
theorem fill_batch {e : Engine} {id : Nat} {op : Operation} {b : Batch} (hop : e.get? id = some op)
    (hb : op.work = .batch b) (hnone : op.request = none) (room : Nat) :
    (e.fill id room).2 =
      (Frame.encodeAll (b.members.filterMap e.quietFrame? ++ [sentinel op.tag])).take room := by
  rw [fill_snd hop, piece, requestOf, hnone, ← encode_batch hb]
  rfl

/-! ## Reporters -/

/-- In whose name a member reports to the multiplexer of the batch that it joins. -/
def reporter (e : Engine) (member : Nat) : Teller :=
  if (e.status? member).isSome then .finishedEarly member else .listener member

@[simp] theorem number_reporter (e : Engine) (member : Nat) : (e.reporter member).number = member := by
  unfold reporter
  split <;> rfl

theorem nodup_reporters (e : Engine) {members : List Nat} (h : members.Nodup) :
    (members.map e.reporter).Nodup := by
  refine List.Nodup.of_map Teller.number ?_
  rw [List.map_map]
  simpa [Function.comp_def] using h

theorem teller_earlyReports {e : Engine} {multiplexer : Callback} {m : Nat} {d : Delivery}
    (hd : d ∈ e.earlyReports multiplexer m) : d.teller = .finishedEarly m ∧ (e.status? m).isSome := by
  unfold earlyReports at hd
  cases hs : e.status? m with
  | none => simp [hs] at hd
  | some s =>
    rw [hs] at hd
    simp only [Option.toList_some, List.flatMap_cons, List.flatMap_nil, List.append_nil,
      List.mem_cons, List.not_mem_nil, or_false] at hd
    rcases hd with rfl | rfl <;> exact ⟨rfl, rfl⟩

/-- Among all early reports those of one member. -/
theorem filter_earlyReports (e : Engine) (multiplexer : Callback) (m : Nat) :
    ∀ {members : List Nat}, members.Nodup →
      (members.flatMap (e.earlyReports multiplexer)).filter (·.teller = .finishedEarly m) =
        if m ∈ members then e.earlyReports multiplexer m else []
  | [], _ => rfl
  | m' :: members, h => by
    obtain ⟨hnot, hnodup⟩ := List.nodup_cons.1 h
    rw [List.flatMap_cons, List.filter_append, filter_earlyReports e multiplexer m hnodup]
    by_cases hm : m' = m
    · subst hm
      rw [if_neg hnot, if_pos List.mem_cons_self, List.append_nil]
      refine List.filter_eq_self.2 fun d hd => ?_
      simpa using (teller_earlyReports hd).1
    · have hnone : (e.earlyReports multiplexer m').filter (·.teller = .finishedEarly m) = [] := by
        refine List.filter_eq_nil_iff.2 fun d hd => ?_
        simpa [(teller_earlyReports hd).1] using hm
      rw [hnone, List.nil_append]
      simp [Ne.symm hm]

theorem Sound.isTerminal_eq_isSome {e : Engine} (he : e.Sound) {id : Nat} (hid : id < e.size) :
    e.isTerminal id = (e.status? id).isSome := by
  obtain ⟨op, hop⟩ := get?_of_lt_size hid
  rw [isTerminal_eq, life?_of_get? hop, status?_of_get? hop]
  exact (he.lives (life?_of_get? hop)).ended

/-! ## From the making of a batch -/

/-- A batch is made, and then served. -/
def batchRun (e : Engine) (family : BatchFamily) (members : List Nat) (aggregate : Callback)
    (acts : List Act) : Engine := (e.batch family members aggregate).1.run acts

/-- The multiplexer that the next batch gets. -/
def nextMultiplexer (e : Engine) (aggregate : Callback) : Callback :=
  .multiplex e.reports.multiplexers.length aggregate

section Made

variable {e : Engine} {members : List Nat} (family : BatchFamily) {aggregate : Callback}
  {acts : List Act} (he : e.Orderly) (hsingle : ∀ m ∈ members, e.IsSingle m)
  (haggregate : aggregate.Below e.reports.multiplexers.length)
  (hacts : ∀ a ∈ acts, a.Serves e.size members)

include he hsingle haggregate

theorem orderly_batch : (e.batch family members aggregate).1.Orderly :=
  he.act (a := .batch family members aggregate) ⟨hsingle, haggregate⟩

include hacts

theorem goes_batchRun : e.Goes (e.batchRun family members aggregate acts) :=
  (goes_batch he.sound family aggregate hsingle).trans
    (goes_run acts (orderly_batch family he hsingle haggregate).sound
      fun a ha => (hacts a ha).goesOn)

/-- The multiplexer of a batch is told by the members that had ended, then by the others, and that
decides what it says. -/
theorem told_batchRun :
    let t := e.batchRun family members aggregate acts
    let told := t.reports.deliveredTo (e.nextMultiplexer aggregate)
    (∃ later : List Delivery,
      (∀ d ∈ later, ∃ m ∈ members, e.status? m = none ∧ d.teller = .listener m) ∧
      told = members.flatMap (e.earlyReports (e.nextMultiplexer aggregate)) ++ later) ∧
    t.reports.said (.multiplexer e.reports.multiplexers.length) =
      (told.foldl (Relay.hear aggregate) (Relay.fresh members.length)).said := by
  intro t told
  have hmade := orderly_batch family he hsingle haggregate
  obtain ⟨blame, hevolves⟩ := evolves_run acts hmade.steady fun a ha => (hacts a ha).goesOn
  obtain ⟨later, hlater, hrelay⟩ := hevolves.reports.relay haggregate fun t receiver ht =>
    (mayTell_batch family hsingle he.wired ht).imp_right (Or.imp_right And.left)
  rw [relay_batch family hsingle he.wired haggregate, ← List.foldl_append] at hrelay
  have htold : told = _ := (congrArg Relay.told hrelay).trans (Relay.told_foldl_hear ..)
  refine ⟨⟨later, fun d hd => ?_, htold⟩, ?_⟩
  · rcases (mayTell_batch family hsingle he.wired (hlater d hd)).2 with hbelow | ⟨-, hm⟩
    · exact absurd rfl (hbelow.ne_multiplex aggregate)
    · exact hm
  · rw [htold]
    exact congrArg Relay.said hrelay

/-- A member that had ended has told the multiplexer of it when the batch was made. -/
theorem status?_of_early {m : Nat} (hm : m ∈ members) {s : Status} (hs : e.status? m = some s) :
    (e.batchRun family members aggregate acts).status? m = some s := by
  have hid := lt_size_of_isSingle (hsingle m hm)
  have hend : e.isTerminal m = true := by rw [he.sound.isTerminal_eq_isSome hid, hs, Option.isSome_some]
  rw [((goes_batchRun family he hsingle haggregate hacts).follows.ended hid hend).1, hs]

/-- A member that had not ended tells the multiplexer through its listener. -/
theorem listener_of_open {m : Nat} (hm : m ∈ members) (hs : e.status? m = none) :
    ∃ op, (e.batchRun family members aggregate acts).get? m = some op ∧
      op.listener = some (e.nextMultiplexer aggregate) := by
  obtain ⟨op, hop⟩ := get?_of_lt_size (lt_size_of_isSingle (hsingle m hm))
  have hmade := get?_batch_of_get? family aggregate hsingle hop
  rw [if_pos ⟨hm, (status?_of_get? hop).symm.trans hs⟩] at hmade
  obtain ⟨blame, hevolves⟩ := evolves_run acts (orderly_batch family he hsingle haggregate).steady
    fun a ha => (hacts a ha).goesOn
  obtain ⟨l', hl', hlife⟩ := hevolves.lives (life?_of_get? hmade)
  exact ⟨_, get?_of_life? hl', hlife.listener⟩

theorem events_of_open {m : Nat} (hm : m ∈ members) (hs : e.status? m = none) :
    (((e.batchRun family members aggregate acts).reports.deliveredTo
        (e.nextMultiplexer aggregate)).filter (·.teller = .listener m)).map (·.event) =
      ((e.batchRun family members aggregate acts).status? m).toList.flatMap
        fun s => [.status s, .finished] := by
  have hsteady : (e.batchRun family members aggregate acts).Steady :=
    steady_run (orderly_batch family he hsingle haggregate).steady acts
  obtain ⟨op, hop, hlistener⟩ := listener_of_open family he hsingle haggregate hacts hm hs
  rw [Reports.events_deliveredTo fun d hd ht => ?_]
  · have hoverheard := (hsteady.lives (life?_of_get? hop)).overheard
    change _ = op.overheard at hoverheard
    rw [status?_of_get? hop]
    refine hoverheard.trans ?_
    rw [Operation.overheard, hlistener]
    cases op.status <;> rfl
  · have haddressed := hsteady.addressed d hd
    rw [Addressed, ht] at haddressed
    obtain ⟨op', hop', hreceiver⟩ := haddressed
    rw [hop] at hop'
    cases hop'
    rw [hlistener] at hreceiver
    exact (Option.some.inj hreceiver).symm

theorem teller_mem {d : Delivery} (hd : d ∈ (e.batchRun family members aggregate acts).reports.deliveredTo
    (e.nextMultiplexer aggregate)) : d.teller ∈ members.map e.reporter := by
  obtain ⟨⟨later, hlater, htold⟩, -⟩ := told_batchRun family he hsingle haggregate hacts
  rw [htold] at hd
  rcases List.mem_append.1 hd with hd | hd
  · obtain ⟨m, hm, hd⟩ := List.mem_flatMap.1 hd
    obtain ⟨hteller, hsome⟩ := teller_earlyReports hd
    exact List.mem_map.2 ⟨m, hm, by rw [reporter, if_pos hsome, hteller]⟩
  · obtain ⟨m, hm, hnone, hteller⟩ := hlater d hd
    exact List.mem_map.2 ⟨m, hm, by rw [reporter, if_neg (by simp [hnone]), hteller]⟩

/-- Each member has told the multiplexer nothing, or its outcome. -/
theorem events_reporter (hnodup : members.Nodup) : ∀ r ∈ members.map e.reporter,
    (((e.batchRun family members aggregate acts).reports.deliveredTo
        (e.nextMultiplexer aggregate)).filter (·.teller = r)).map (·.event) =
      ((e.batchRun family members aggregate acts).status? r.number).toList.flatMap
        fun s => [.status s, .finished] := by
  intro r hr
  obtain ⟨m, hm, rfl⟩ := List.mem_map.1 hr
  rw [number_reporter, reporter]
  cases hs : e.status? m with
  | none => exact events_of_open family he hsingle haggregate hacts hm hs
  | some s =>
    obtain ⟨⟨later, hlater, htold⟩, -⟩ := told_batchRun family he hsingle haggregate hacts
    have hlate : later.filter (·.teller = .finishedEarly m) = [] := by
      refine List.filter_eq_nil_iff.2 fun d hd => ?_
      obtain ⟨m', -, -, hteller⟩ := hlater d hd
      simp [hteller]
    rw [status?_of_early family he hsingle haggregate hacts hm hs, htold, List.filter_append]
    simp only [Option.isSome_some, ↓reduceIte]
    rw [hlate, filter_earlyReports e _ m hnodup, if_pos hm, earlyReports, hs]
    rfl

variable (hnodup : members.Nodup) (hsome : members ≠ [])

include hnodup

/-- The multiplexer has been told of the outcome of each member that has one, once. -/
theorem verdicts_batchRun :
    let t := e.batchRun family members aggregate acts
    let settled := t.reports.verdicts (e.nextMultiplexer aggregate)
    (settled.map (·.1)).Nodup ∧ ∀ m s, (m, s) ∈ settled ↔ m ∈ members ∧ t.status? m = some s := by
  intro t settled
  have hwho := fun d => @teller_mem e members family aggregate acts he hsingle haggregate hacts d
  have hwhat := events_reporter family he hsingle haggregate hacts hnodup
  have hnumbers : (members.map e.reporter).map Teller.number = members := by
    simp [Function.comp_def]
  constructor
  · have hperm := (Relay.perm_verdicts hwho hwhat (e.nodup_reporters hnodup)).map Teller.number
    have hfst : settled.map (·.1) =
        ((Relay.verdicts (t.reports.deliveredTo (e.nextMultiplexer aggregate))).map (·.1)).map
          Teller.number := by
      simp only [settled, Reports.verdicts, List.map_map]
      rfl
    rw [hfst, hperm.nodup_iff]
    exact (List.filter_sublist.map _).nodup (hnumbers.symm ▸ hnodup)
  · intro m s
    have hmem : ∀ r s, (r, s) ∈ Relay.verdicts (t.reports.deliveredTo (e.nextMultiplexer aggregate)) ↔
        r ∈ members.map e.reporter ∧ t.status? r.number = some s := fun r s =>
      Relay.mem_verdicts hwho hwhat
    simp only [settled, Reports.verdicts, List.mem_map, Prod.exists, Prod.mk.injEq, hmem]
    constructor
    · rintro ⟨_, _, ⟨⟨m, hm, rfl⟩, hstatus⟩, rfl, rfl⟩
      rw [number_reporter] at hstatus ⊢
      exact ⟨hm, hstatus⟩
    · rintro ⟨hm, hstatus⟩
      exact ⟨e.reporter m, s, ⟨⟨m, hm, rfl⟩, by rwa [number_reporter]⟩, number_reporter e m, rfl⟩

include hsome

/-- The aggregate hears nothing until all members have ended, and then one report. -/
theorem said_batchRun :
    let t := e.batchRun family members aggregate acts
    let settled := t.reports.verdicts (e.nextMultiplexer aggregate)
    t.reports.said (.multiplexer e.reports.multiplexers.length) =
      if settled.length = members.length then
        [(aggregate, .status (Reports.final settled)), (aggregate, .finished)]
      else [] := by
  intro t settled
  have hwho := fun d => @teller_mem e members family aggregate acts he hsingle haggregate hacts d
  have hwhat := events_reporter family he hsingle haggregate hacts hnodup
  have hsaid := @Relay.said_eq aggregate _ _ _ hwho hwhat (e.nodup_reporters hnodup)
    (by simpa using hsome)
  have hlength : settled.length = _ := List.length_map ..
  have hfinal : Reports.final settled = _ := Reports.final_verdicts ..
  rw [List.length_map] at hsaid
  rw [(told_batchRun family he hsingle haggregate hacts).2, hsaid, hlength, hfinal]

end Made

/-! ## Members -/

section Members

variable {e : Engine} {members : List Nat} (family : BatchFamily) (aggregate : Callback)
  {acts : List Act} (he : e.Sound) (hsingle : ∀ m ∈ members, e.IsSingle m)

include he hsingle

/-- Each member of a new batch has a seat. -/
theorem seated_batch (htags : (members.map fun m => (e.get? m).map (·.tag)).Nodup) {m : Nat}
    (hm : m ∈ members) {op head : Operation} {c : Command} (hop : e.get? m = some op)
    (hc : op.work = .single c)
    (hhead : (e.batch family members aggregate).1.get? e.size = some head) :
    let b : Batch := ⟨family, members, e.reports.multiplexers.length⟩
    (e.batch family members aggregate).1.Seated b
      ⟨e.size, head.tag, b.silentStatus, m, op.tag, c⟩ := by
  intro b
  have hsame : ∀ m ∈ members, (e.batch family members aggregate).1.nature? m = e.nature? m :=
    fun m hm => (same_batch (lt_size_of_isSingle (hsingle m hm)) family aggregate hsingle).1.nature
  obtain ⟨head', hhead', hb, -⟩ := get?_batch_self family aggregate hsingle
  rw [hhead] at hhead'
  cases hhead'
  refine ⟨(goes_batch he family aggregate hsingle).sound,
    ⟨head.nature, nature?_of_get? hhead, hb, rfl⟩, rfl, hm,
    ⟨op.nature, (hsame m hm).trans (nature?_of_get? hop), hc, rfl⟩, fun m' hm' n hn htag => ?_⟩
  rw [hsame m' hm'] at hn
  obtain ⟨op', hop', rfl⟩ := Option.map_eq_some_iff.1 hn
  refine List.inj_on_of_nodup_map htags hm' hm ?_
  rw [hop', hop]
  exact congrArg some htag

end Members

/-- An operation whose callback has heard these events, later on. -/
theorem Follows.said_operation {e e' : Engine} (h : e.Follows e') (he' : e'.Steady) {id : Nat}
    {op : Operation} (hop : e.get? id = some op) :
    e'.reports.said (.operation id) = (e'.reports.heard (.operation id)).map (op.callback, ·) := by
  obtain ⟨l', hl', hlife⟩ := h id _ (life?_of_get? hop)
  rw [he'.said_operation (get?_of_life? hl')]
  exact congrArg (fun c => (e'.reports.heard (.operation id)).map (c, ·))
    (congrArg Nature.callback hlife.nature)

/-- **A batch settles every member once and reports once.** Whatever happens to it after it has been
made, be it written, started over, answered, failed or cancelled, and whichever members are cancelled
on their own: its request, when the first byte is wanted, holds the quiet requests of the members that
have not been cancelled, in order, and one that is always answered. What had ended before stays as it
was. Of any other member the callback hears what the first act makes of it that makes anything of it,
and nothing if there is none. A batch that has ended has no member that has not. The multiplexer is
told each outcome once, and the aggregate hears one report when it has been told the last one: the
last failing status, or success. -/
theorem batch_settles_and_reports_once {e : Engine} (he : e.Orderly) {members : List Nat}
    (hsome : members ≠ []) (hsingle : ∀ m ∈ members, e.IsSingle m)
    (htags : (members.map fun m => (e.get? m).map (·.tag)).Nodup) (family : BatchFamily)
    {aggregate : Callback} (haggregate : aggregate.Below e.reports.multiplexers.length)
    {acts : List Act} (hacts : ∀ a ∈ acts, a.Serves e.size members) :
    let b : Batch := ⟨family, members, e.reports.multiplexers.length⟩
    let t := (e.batch family members aggregate).1.run acts
    let settled := t.reports.verdicts (.multiplex b.multiplexer aggregate)
    ∃ head, t.get? e.size = some head ∧ head.work = .batch b ∧
      (head.request = none → ∀ room, (t.fill e.size room).2 =
        (Frame.encodeAll (members.filterMap t.quietFrame? ++ [sentinel head.tag])).take room) ∧
      (∀ m ∈ members, e.isTerminal m = true → t.status? m = e.status? m ∧
        t.reports.said (.operation m) = e.reports.said (.operation m)) ∧
      (∀ m ∈ members, e.isTerminal m = false → ∀ op c, e.get? m = some op → op.work = .single c →
        let seat : Seat := ⟨e.size, head.tag, b.silentStatus, m, op.tag, c⟩
        let outcome := acts.findSome? seat.outcome?
        t.status? m = outcome.map Status.ofReply ∧ t.reports.said (.operation m) =
          ((outcome.map Event.ofReply).getD []).map (op.callback, ·)) ∧
      (∀ m ∈ members, t.isTerminal m = (t.status? m).isSome) ∧
      (head.isTerminal → ∀ m ∈ members, t.isTerminal m) ∧
      (settled.map (·.1)).Nodup ∧
      (∀ m s, (m, s) ∈ settled ↔ m ∈ members ∧ t.status? m = some s) ∧
      t.reports.said (.multiplexer b.multiplexer) =
        if settled.length = members.length then
          [(aggregate, .status (Reports.final settled)), (aggregate, .finished)]
        else [] := by
  intro b t settled
  have hnodup : members.Nodup := List.Nodup.of_map _ htags
  have hlt : ∀ m ∈ members, m < e.size := fun m hm => lt_size_of_isSingle (hsingle m hm)
  have hgoes : e.Goes t := goes_batchRun family he hsingle haggregate hacts
  have hmade := orderly_batch family he hsingle haggregate
  have hsteady : t.Steady := steady_run hmade.steady acts
  obtain ⟨head₀, hhead₀, hb, -⟩ := get?_batch_self family aggregate hsingle
  have hlater := (goes_run acts hmade.sound fun a ha => (hacts a ha).goesOn).follows
  have hhead : ∃ head, t.get? e.size = some head ∧ head.nature = head₀.nature := by
    have := hlater.nature?_eq (lt_size_of_get? hhead₀)
    rw [nature?_of_get? hhead₀] at this
    exact Option.map_eq_some_iff.1 this
  obtain ⟨head, hhead, hnature⟩ := hhead
  have hwork : head.work = .batch b := (congrArg Nature.work hnature).trans hb
  obtain ⟨hsettled, hmem⟩ := verdicts_batchRun family he hsingle haggregate hacts hnodup
  refine ⟨head, hhead, hwork, fun hnone room => fill_batch hhead hwork hnone room,
    fun m hm hend => ?_, fun m hm hopen op c hop hc => ?_, fun m hm => ?_, fun hend m hm => ?_,
    hsettled, hmem, said_batchRun family he hsingle haggregate hacts hnodup hsome⟩
  · obtain ⟨op, hop⟩ := get?_of_lt_size (hlt m hm)
    obtain ⟨hstatus, hheard⟩ := hgoes.follows.ended (hlt m hm) hend
    refine ⟨hstatus, ?_⟩
    rw [hgoes.follows.said_operation hsteady hop, he.steady.said_operation hop]
    exact congrArg (List.map _) (congrArg Prod.fst hheard)
  · have hseated := seated_batch family aggregate he.sound hsingle htags hm hop hc hhead₀
    have hsame := (same_batch (hlt m hm) family aggregate hsingle).1.terminal
    have htag : head.tag = head₀.tag := congrArg Nature.tag hnature
    intro seat outcome
    rw [hgoes.follows.said_operation hsteady hop]
    refine ⟨?_, congrArg (List.map _) ?_⟩
    · simp only [outcome, seat, htag]
      exact hseated.status_run hacts (hsame.trans hopen)
    · simp only [outcome, seat, htag]
      exact hseated.heard_run acts hacts (hsame.trans hopen)
  · exact hgoes.sound.isTerminal_eq_isSome (Nat.lt_of_lt_of_le (hlt m hm) hgoes.follows.size_le)
  · refine @Sound.settled t hgoes.sound e.size ?_ m ?_
    · rw [isTerminal, hhead]
      exact hend
    · rw [members_of_batch hhead hwork]
      exact hm

/-- Four gets, of which the first has failed before and the third is cancelled; then come a response
for nobody, a hit for the second, the same again, a hit for the third, and the last answer. -/
theorem settles_and_reports_once_of_four_gets :
    let get := fun key => Act.create (.get key false) (.record key)
    let hit := fun tag => Act.receive 4 (.response 0 0 [0, 0, 0, 7] [] [65] tag 0)
    let e := run {} [get "a", get "b", get "c", get "d", .fail 0 ⟨.server, "out of memory"⟩]
    let acts := [.cancel 2 "gave up", .fill 4 1000, .finishWriting 4, hit 9, hit 2, hit 2, hit 3, hit 5]
    let t := (e.batch .get [0, 1, 2, 3] (.record "all")).1.run acts
    e.Orderly ∧ (∀ m ∈ [0, 1, 2, 3], e.IsSingle m) ∧
      (([0, 1, 2, 3] : List Nat).map fun m => (e.get? m).map (·.tag)).Nodup ∧
      (∀ a ∈ acts, a.Serves e.size [0, 1, 2, 3]) ∧
      t.status? 1 = some .success ∧
      t.reports.said (.multiplexer 0) =
        [(.record "all", .status ⟨.notFound, "NOT_FOUND"⟩), (.record "all", .finished)] := by
  intro get hit e acts t
  have he : e.Orderly := (orderly_of_initial ⟨rfl, rfl⟩).run _
    ⟨trivial, trivial, trivial, trivial, trivial, trivial⟩
  have hsingle : ∀ m ∈ [0, 1, 2, 3], e.IsSingle m := by
    simp only [List.mem_cons, List.not_mem_nil, or_false, forall_eq_or_imp, forall_eq]
    exact ⟨⟨_, _, rfl, rfl⟩, ⟨_, _, rfl, rfl⟩, ⟨_, _, rfl, rfl⟩, ⟨_, _, rfl, rfl⟩⟩
  have htags : (([0, 1, 2, 3] : List Nat).map fun m => (e.get? m).map (·.tag)).Nodup := by
    decide +kernel
  have hacts : ∀ a ∈ acts, a.Serves e.size [0, 1, 2, 3] := by
    have hsize : e.size = 4 := rfl
    have hstatus : ∀ tag, (Frame.response 0 0 [0, 0, 0, 7] [] [65] tag 0).status ≠
        Wire.invalidArguments := fun tag => show (0 : UInt16) ≠ 4 by decide
    simp [acts, hit, Act.Serves, hsize, hstatus]
  obtain ⟨head, hhead, -, -, -, hopen, -, -, -, -, hsaid⟩ :=
    @batch_settles_and_reports_once e he _ (by simp) hsingle htags .get (.record "all") trivial _ hacts
  have htag : head.tag = 5 := by
    have : (t.get? e.size).map (·.tag) = some 5 := by decide +kernel
    rw [hhead] at this
    exact Option.some.inj this
  have hsettled : t.reports.verdicts (.multiplex 0 (.record "all")) =
      [(0, ⟨.server, "out of memory"⟩), (2, .cancelled "gave up"), (1, .success),
        (3, ⟨.notFound, "NOT_FOUND"⟩)] := by decide +kernel
  refine ⟨he, hsingle, htags, hacts, ?_, ?_⟩
  · rw [(hopen 1 (by simp) (by decide +kernel) _ _ rfl rfl).1, htag]
    decide +kernel
  · exact hsaid.trans (by rw [show e.reports.multiplexers.length = 0 from rfl, hsettled]; rfl)

end Engine

end ShardedCache

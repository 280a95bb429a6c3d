import Mathlib.Data.List.Basic
import ShardedCache.Future.Operation
import ShardedCache.Proofs.Engine.Reporting

/-!
# What can still change once an outcome is known

What has come of an operation that has ended stays as it is: its phase, its status, the cause of its
cancellation and what it has told. Only the error can still change, and it does with the next error
that is put on the operation, be it by a late response. A future whose latch is open looks at the
errors before anything else, so that its result is final unless such an error arrives for one of its
operations.
-/

namespace ShardedCache

open Engine

/-! ## Getting a result that is there -/

namespace Cluster

theorem engine_chargeSuccess (c : Cluster) (operations : List Nat) :
    (c.chargeSuccess operations).engine = c.engine := by
  have hfold : ∀ (nodes : List Nat) (c : Cluster), (nodes.foldl
      (fun c node => c.modifyNode node fun n => { n with health := n.health.recordSuccess })
        c).engine = c.engine := by
    intro nodes
    induction nodes with
    | nil => exact fun _ => rfl
    | cons node nodes ih => exact fun c => (ih _).trans rfl
  exact hfold _ c

/-- A wait for a latch that is open is over at once. -/
theorem settleAll_of_isOpen {c : Cluster} {latch : Nat} (h : c.isOpen latch)
    (operations : List Nat) (timeout : Nat) :
    c.settleAll latch operations timeout =
      (c.chargeSuccess operations, (c.chargeSuccess operations).failures operations) := by
  have hwait : c.waitLatch latch timeout = (c, true) := by
    simp [waitLatch, waitFor, h]
  simp only [settleAll, await, hwait]

end Cluster

namespace OperationFuture

variable {α : Type}

/-- The result, as far as it follows from the operations and their completion. -/
def verdict (f : OperationFuture α) (e : Engine) : Except CacheError α :=
  match CacheError.ofList? (f.operations.filterMap (Cluster.failure? e)) with
  | some error => .error error
  | none =>
    match f.value with
    | some value => .ok value
    | none => f.decode (e.reports.completion f.completion)

theorem get_of_isOpen {f : OperationFuture α} {c : Cluster} (h : c.isOpen (f.latch c))
    (timeout : Nat) : (f.get c timeout).2.2 = f.verdict c.engine ∧
      (f.get c timeout).2.1.operations = f.operations ∧
      (f.get c timeout).2.1.completion = f.completion := by
  have hengine := c.engine_chargeSuccess f.operations
  simp only [get, Cluster.settleAll_of_isOpen h, Cluster.failures, hengine, verdict]
  cases CacheError.ofList? (f.operations.filterMap (Cluster.failure? c.engine)) with
  | some error => exact ⟨rfl, rfl, rfl⟩
  | none =>
    simp only [result, hengine]
    cases f.value with
    | some value => exact ⟨rfl, rfl, rfl⟩
    | none =>
      cases f.decode (c.engine.reports.completion f.completion) <;> exact ⟨rfl, rfl, rfl⟩

/-- That a result is kept makes no difference as long as the completion is the same. -/
theorem verdict_get {f : OperationFuture α} {c : Cluster} (h : c.isOpen (f.latch c))
    (timeout : Nat) {e : Engine}
    (hsame : e.reports.completion f.completion = c.engine.reports.completion f.completion) :
    (f.get c timeout).2.1.verdict e = f.verdict e := by
  have hengine := c.engine_chargeSuccess f.operations
  simp only [get, Cluster.settleAll_of_isOpen h, Cluster.failures, hengine]
  cases CacheError.ofList? (f.operations.filterMap (Cluster.failure? c.engine)) with
  | some error => rfl
  | none =>
    simp only [result, hengine]
    cases hvalue : f.value with
    | some value => rfl
    | none =>
      dsimp only
      cases hdecode : f.decode (c.engine.reports.completion f.completion) with
      | error error => rfl
      | ok value => simp only [verdict, hvalue, hsame, hdecode]

end OperationFuture

/-! ## Nobody else reports -/

namespace Engine

/-- Nobody who may still tell anything reports to the completion. -/
def Quiet (e : Engine) (completion : Nat) : Prop :=
  ∀ {t receiver}, e.MayTell t receiver → receiver.leadsTo completion = false

/-- The act brings in nobody who reports to the completion. -/
def Act.Spares (completion : Nat) (a : Act) : Prop :=
  ∀ {receiver}, a.Offers receiver → receiver.leadsTo completion = false

section Steady

variable {e : Engine} (he : e.Steady)

include he

theorem Steady.completion_run {completion : Nat} (hquiet : e.Quiet completion) {more : List Act}
    (hmore : ∀ a ∈ more, a.Spares completion) :
    (e.run more).reports.completion completion = e.reports.completion completion := by
  refine (proceeds_run more he).reports.completions completion fun t receiver h => ?_
  rcases h with h | ⟨a, ha, h⟩
  · exact hquiet h
  · exact hmore a ha h

/-- An operation whose reports would go to a quiet completion has ended. -/
theorem Steady.isTerminal_of_quiet {completion id : Nat} {op : Operation}
    (hquiet : e.Quiet completion) (hop : e.get? id = some op)
    (hleads : op.callback.leadsTo completion) : op.isTerminal := by
  have hended := (he.lives (life?_of_get? hop)).ended
  cases hs : op.status with
  | none =>
    have := hquiet ⟨id, op, hop, hs, .inl ⟨rfl, rfl⟩⟩
    rw [hleads] at this
    cases this
  | some s =>
    refine hended.trans ?_
    change op.status.isSome = true
    rw [hs]
    rfl

/-- An operation that has ended fails otherwise only if it is blamed. -/
theorem Steady.failure?_run {id : Nat} {op : Operation} (hop : e.get? id = some op)
    (hend : op.isTerminal) (more : List Act) :
    Cluster.failure? (e.run more) id =
      ((e.blameRun more id).map .protocol).or (Cluster.failure? e id) := by
  obtain ⟨op', hop', hphase, -, hcause, herror, -, -⟩ := he.ending_run hop hend more
  have hcancelled : op'.isCancelled = op.isCancelled := by
    rw [Operation.isCancelled, hphase, ← Operation.isCancelled]
  simp only [Cluster.failure?, hop, hop', herror, hcancelled, hcause]
  cases e.blameRun more id <;> rfl

end Steady

/-- **An outcome is final but for its error.** Once an operation has ended, no act changes its phase,
its status, the cause of its cancellation or what has been told of it; its error is the last one put
on it, be it before or after. And once the latch of a future is open, and all that report to its
completion have ended, it gives the same result whenever it is asked, unless an error has been put on
one of its operations meanwhile; if one has, it gives an error. -/
theorem outcome_final_but_for_error {e₀ : Engine} (h : e₀.Initial) (acts : List Act) :
    let e := e₀.run acts
    (∀ id op, e.get? id = some op → op.isTerminal → ∀ more, ∃ op',
      (e.run more).get? id = some op' ∧ op'.phase = op.phase ∧ op'.status = op.status ∧
        op'.cancelCause = op.cancelCause ∧ op'.error = (e.blameRun more id).or op.error ∧
        (e.run more).heardOf id = e.heardOf id) ∧
    ∀ {α : Type} (f : OperationFuture α) (c : Cluster), c.engine = e → c.isOpen (f.latch c) →
      e.Quiet f.completion →
      (∀ id ∈ f.operations, ∃ op, e.get? id = some op ∧ op.callback.leadsTo f.completion) →
      ∀ (more : List Act), (∀ a ∈ more, a.Spares f.completion) →
      ∀ (later : Cluster), later.engine = e.run more → ∀ timeout timeout',
        let again := ((f.get c timeout).2.1.get later timeout').2.2
        ((∀ id ∈ f.operations, e.blameRun more id = none) → again = (f.get c timeout).2.2) ∧
        ((∃ id ∈ f.operations, e.blameRun more id ≠ none) → ∃ error, again = .error error) := by
  intro e
  have he : e.Steady := steady_run (steady_of_initial h) acts
  refine ⟨fun id op hop hend more => ?_, ?_⟩
  · obtain ⟨op', hop', hphase, hstatus, hcause, herror, hheard, -⟩ := he.ending_run hop hend more
    exact ⟨op', hop', hphase, hstatus, hcause, herror, hheard⟩
  intro α f c hengine hopen hquiet hleads more hmore later hlater timeout timeout'
  have hcompletion := he.completion_run hquiet hmore
  have hfailure : ∀ id ∈ f.operations, Cluster.failure? later.engine id =
      ((e.blameRun more id).map .protocol).or (Cluster.failure? c.engine id) := fun id hid => by
    obtain ⟨op, hop, hlead⟩ := hleads id hid
    rw [hlater, hengine]
    exact he.failure?_run hop (he.isTerminal_of_quiet hquiet hop hlead) more
  obtain ⟨hresult, hoperations, hsame⟩ := OperationFuture.get_of_isOpen hopen timeout
  have hstill : later.isOpen ((f.get c timeout).2.1.latch later) := by
    rw [OperationFuture.latch, hsame, hlater, hcompletion, Cluster.isOpen, hlater]
    refine (proceeds_run more he).reports.latches _ ?_
    rwa [OperationFuture.latch, Cluster.isOpen, hengine] at hopen
  have hagain : ((f.get c timeout).2.1.get later timeout').2.2 = f.verdict later.engine := by
    rw [(OperationFuture.get_of_isOpen hstill timeout').1]
    refine OperationFuture.verdict_get hopen timeout ?_
    rw [hlater, hengine, hcompletion]
  dsimp only
  rw [hagain, hresult]
  refine ⟨fun hnone => ?_, fun ⟨id, hid, hblamed⟩ => ?_⟩
  · have hlist : f.operations.filterMap (Cluster.failure? later.engine) =
        f.operations.filterMap (Cluster.failure? c.engine) :=
      List.filterMap_congr fun id hid => by
        rw [hfailure id hid, hnone id hid]
        rfl
    rw [OperationFuture.verdict, OperationFuture.verdict, hlist, hlater, hengine, hcompletion]
  · obtain ⟨error, herror⟩ := Option.ne_none_iff_exists'.1 hblamed
    have hmem : CacheError.protocol error ∈
        f.operations.filterMap (Cluster.failure? later.engine) := by
      refine List.mem_filterMap.2 ⟨id, hid, ?_⟩
      rw [hfailure id hid, herror]
      rfl
    obtain ⟨whole, hwhole⟩ : ∃ whole,
        CacheError.ofList? (f.operations.filterMap (Cluster.failure? later.engine)) = some whole := by
      generalize f.operations.filterMap (Cluster.failure? later.engine) = errors at hmem
      match errors, hmem with
      | [error], _ => exact ⟨_, rfl⟩
      | _ :: _ :: _, _ => exact ⟨_, rfl⟩
    exact ⟨whole, by rw [OperationFuture.verdict, hwhole]⟩

/-- A get that has found its value is asked for it twice; in between come a second response, a
cancellation and an attempt to send it again. -/
theorem outcome_final_of_hit :
    let e₀ : Engine := { reports := { latches := [1], completions := [{ latch := 0 }] } }
    let acts : List Act := [.create (.get "k" false) (.completion 0), .fill 0 100, .finishWriting 0,
      .receive 0 (.response 0 0 [0, 0, 0, 7] [] [65] 1 0)]
    let more : List Act := [.receive 0 (.response 0 1 [] [] [] 1 0), .cancel 0 "late", .reset 0,
      .fill 0 100, .complete 0 ⟨.notFound, "late"⟩]
    let e := run e₀ acts
    let f : OperationFuture Bool :=
      { operations := [0], completion := 0, timeout := 10, decode := fun c => .ok c.isSuccess }
    let c : Cluster := { engine := e }
    let later : Cluster := { engine := e.run more }
    Initial e₀ ∧ e.isTerminal 0 = true ∧ c.isOpen (f.latch c) = true ∧ e.Quiet f.completion ∧
      (∀ a ∈ more, a.Spares f.completion) ∧ (∀ id ∈ f.operations, e.blameRun more id = none) ∧
      ((f.get c 10).2.1.get later 10).2.2 = (f.get c 10).2.2 := by
  intro e₀ acts more e f c later
  have h : Initial e₀ := ⟨rfl, rfl⟩
  have hend : e.isTerminal 0 = true := by decide +kernel
  have hopen : c.isOpen (f.latch c) = true := by decide +kernel
  have hall : ∀ op ∈ e.operations, op.status ≠ none := by decide +kernel
  have hquiet : e.Quiet f.completion := by
    rintro t receiver ⟨id, op, hop, hnone, -⟩
    exact absurd hnone (hall op (List.mem_of_getElem? hop))
  have hmore : ∀ a ∈ more, a.Spares f.completion := by
    intro a ha receiver hoffers
    simp only [more, List.mem_cons, List.not_mem_nil, or_false] at ha
    rcases ha with rfl | rfl | rfl | rfl | rfl <;> cases hoffers
  have hunblamed : ∀ id ∈ f.operations, e.blameRun more id = none := by decide +kernel
  have hleads : ∀ id ∈ f.operations, ∃ op, e.get? id = some op ∧
      op.callback.leadsTo f.completion := by
    intro id hid
    rw [List.mem_singleton.1 hid]
    have hany : (e.get? 0).any (·.callback.leadsTo 0) = true := by decide +kernel
    exact (Option.any_eq_true _ _).1 hany
  have hengine : c.engine = e := by dsimp only [c]
  have hlater : later.engine = e.run more := by dsimp only [later]
  have hfuture := (outcome_final_but_for_error h acts).2 f c hengine hopen hquiet hleads more hmore
    later hlater 10 10
  exact ⟨h, hend, hopen, hquiet, hmore, hunblamed, hfuture.1 hunblamed⟩

/-- A get is cancelled while it waits for its response, which comes later and says that the server
has failed: the future reports the cancellation first and then the failure. -/
theorem result_changed_by_late_error :
    let e₀ : Engine := { reports := { latches := [1], completions := [{ latch := 0 }] } }
    let e := run e₀ [.create (.get "k" false) (.completion 0), .fill 0 100, .finishWriting 0,
      .cancel 0 "gone"]
    let e' := e.act (.receive 0 (.response 0 132 [] [] [98, 117, 115, 121] 1 0))
    let f : OperationFuture Bool :=
      { operations := [0], completion := 0, timeout := 10, decode := fun c => .ok c.isSuccess }
    let c : Cluster := { engine := e }
    let later : Cluster := { engine := e' }
    let failure (result : Except CacheError Bool) : Option (String ⊕ ProtocolError) :=
      match result with
      | .error (.cancelled cause) => some (.inl cause)
      | .error (.protocol error) => some (.inr error)
      | _ => none
    e.isTerminal 0 = true ∧ c.isOpen (f.latch c) = true ∧
      (e.get? 0).bind (·.error) = none ∧ (e'.get? 0).bind (·.error) = some ⟨.server, "busy"⟩ ∧
      failure (f.get c 10).2.2 = some (.inl "gone") ∧
      failure ((f.get c 10).2.1.get later 10).2.2 = some (.inr ⟨.server, "busy"⟩) := by
  decide +kernel

end Engine

end ShardedCache

import ShardedCache.Proofs.Client.Agreement
import ShardedCache.Proofs.Future.Decoding

/-!
# Reading the same future again

Each operation of a bulk future reports to a completion of its own, and nobody else does
(`BulkFuture.Joined`), so what has arrived for it is settled once it has ended. What the future has
decoded, and the result that it remembers, agree with that through any history of reads, whatever
happens in between (`BulkFuture.Tracks`). But a partial read remembers a result without the values that
cannot be decoded, and so takes the error away from all reads that follow
(`BulkFuture.get_after_reads`).
-/

namespace ShardedCache

open Cluster (Leads)

/-! ## Who reports to a completion -/

namespace Callback

variable {Q : Teller → Callback → Prop} {since o : Outline} {t : Teller} {c : Callback} {k : Nat}

theorem leadsTo_eq_false_of_beyond (h : c.Beyond since o) (hk : o.latchOf k < since.latches) :
    c.leadsTo k = false := by
  induction c with
  | completion id =>
    refine beq_eq_false_iff_ne.2 fun heq => ?_
    rw [← heq] at hk
    exact Nat.not_le_of_lt hk h
  | multiplex id aggregate ih => exact ih h.2
  | _ => rfl

/-- What reaches a completion is told to it, or comes from a multiplexer. -/
theorem Spreads.of_leadsTo (h : c.Spreads Q t) (hleads : c.leadsTo k) :
    c = .completion k ∧ Q t c ∨ ∃ m, Q (.multiplexer m) (.completion k) := by
  induction c generalizing t with
  | completion id =>
    have heq : id = k := by simpa [leadsTo] using hleads
    exact .inl ⟨by rw [heq], h⟩
  | multiplex id aggregate ih =>
    rcases ih h.2 hleads with ⟨rfl, hQ⟩ | hm
    · exact .inr ⟨id, hQ⟩
    · exact .inr hm
  | _ => cases hleads

end Callback

/-- A move tells a completion nothing that nobody may tell it. -/
theorem Engine.Move.completion_eq {since : Outline} {e e' : Engine} {k : Nat} (h : e.Move since e')
    (hquiet : e.Quiet k) (hknown : k < e.reports.outline.completions.length)
    (hsince : e.reports.outline.latchOf k < since.latches) :
    e'.reports.completion k = e.reports.completion k := by
  cases h with
  | evolve hevolves _ => exact hevolves.reports.completion_eq fun _ _ ht => hquiet ht
  | add work idempotent _ _ _ => rfl
  | listen id _ _ => exact congrArg (·.completion k) (reports_listen e id _)
  | conclude member _ hbeyond status =>
    have hleads := Callback.leadsTo_eq_false_of_beyond hbeyond hsince
    exact (Reports.completion_tell hleads _ _ _).trans (Reports.completion_tell hleads _ _ _)
  | extend h _ =>
    exact h.completion_eq (by simpa [Reports.outline] using hknown)

namespace BulkFuture

variable {α : Type}

/-- The entries' operations are what the latch waits for, each reports to the completion of its entry,
and no key or completion has two entries. -/
structure Joined (f : BulkFuture α) (e : Engine) : Prop where
  awaits : e.Awaits .direct f.latch f.operations.length f.operations
  calls : ∀ entry ∈ f.entries, e.Calls entry.operation (.completion entry.completion)
  completions : (f.entries.map (·.completion)).Nodup
  keys : f.keys.Nodup

/-- The future has been made, and nobody has read it. -/
structure Fresh (f : BulkFuture α) (c : Cluster) : Prop where
  joined : f.Joined c.engine
  decoded : f.decoded = []
  final : f.final = none

namespace Joined

variable {f : BulkFuture α} {since : Outline} {e e' : Engine} {entry : BulkEntry}

theorem isOpen_iff (h : f.Joined e) (he : e.Steady) :
    e.reports.isOpen f.latch ↔ ∀ entry ∈ f.entries, e.isTerminal entry.operation := by
  rw [h.awaits.isOpen_iff he, operations, List.forall_mem_map]

theorem moves (h : f.Joined e) (he : e.Proper) (hmoves : e.Moves since e')
    (hsince : f.latch < since.latches) : f.Joined e' where
  awaits := h.awaits.moves he hmoves ⟨hsince, fun m hm => by cases hm⟩
  calls entry hentry := (h.calls entry hentry).goes (hmoves.goes he.orderly.sound)
  completions := h.completions
  keys := h.keys

section Entry

variable (h : f.Joined e) (hentry : entry ∈ f.entries)

include h hentry

theorem latchOf_eq : entry.completion < e.reports.outline.completions.length ∧
    e.reports.outline.latchOf entry.completion = f.latch := by
  obtain ⟨op, hop, hcallback⟩ := h.calls entry hentry
  obtain ⟨op', hop', hknown, hjoins⟩ :=
    h.awaits.joined entry.operation (List.mem_map_of_mem hentry)
  cases hop.symm.trans hop'
  rw [hcallback] at hknown hjoins
  exact ⟨hknown, Option.some.inj hjoins⟩

/-- Only its own operation tells the completion of an entry anything. -/
theorem quiet (he : e.Steady) (hend : e.isTerminal entry.operation) :
    e.Quiet entry.completion := by
  intro t receiver hmay
  refine Bool.eq_false_iff.2 fun hleads => ?_
  have hlatch : (Callback.completion entry.completion).latch? e.reports.outline = some f.latch :=
    congrArg some (h.latchOf_eq hentry).2
  rcases (h.awaits.admits.talkers hmay).of_leadsTo hleads with ⟨rfl, hQ⟩ | ⟨m, hQ⟩
  · obtain ⟨id, hid, ht⟩ := hQ hlatch
    obtain ⟨entry', hentry', rfl⟩ := List.mem_map.1 hid
    obtain ⟨id, op, hop, hnone, ⟨rfl, hcallback⟩ | ⟨rfl, -⟩⟩ := hmay
    · cases ht
      obtain ⟨op', hop', hcallback'⟩ := h.calls entry' hentry'
      cases hop.symm.trans hop'
      have hsame : entry'.completion = entry.completion := by
        rw [hcallback'] at hcallback
        exact (Callback.completion.inj hcallback).symm
      cases List.inj_on_of_nodup_map h.completions hentry' hentry hsame
      have hended : op.isTerminal = op.status.isSome :=
        (he.lives (Engine.life?_of_get? hop)).ended
      simp [Engine.isTerminal, hop, hended, hnone] at hend
    · cases ht
  · obtain ⟨id, -, hm⟩ := hQ hlatch
    cases hm

/-- What has arrived is settled once the operation has ended. -/
theorem completion_eq (he : e.Proper) (hmoves : e.Moves since e')
    (hsince : f.latch < since.latches) (hend : e.isTerminal entry.operation) :
    e'.reports.completion entry.completion = e.reports.completion entry.completion := by
  induction hmoves with
  | refl => rfl
  | @tail e₁ e₂ hmoves hmove ih =>
    have hjoined := h.moves he hmoves hsince
    have hproper := he.moves hmoves
    obtain ⟨op, hop, -⟩ := h.calls entry hentry
    have hstill : e₁.isTerminal entry.operation :=
      (Engine.Moves.goes hmoves he.orderly.sound).follows.isTerminal (Engine.lt_size_of_get? hop) hend
    obtain ⟨hknown, hlatch⟩ := hjoined.latchOf_eq hentry
    exact (hmove.completion_eq (hjoined.quiet hentry hproper.orderly.steady hstill) hknown
      (hlatch ▸ hsince)).trans ih

theorem arrived_eq (he : e.Proper) (hmoves : e.Moves since e') (hsince : f.latch < since.latches)
    (hend : e.isTerminal entry.operation) (t : Transcoder α) : t.arrived e' entry = t.arrived e entry := by
  rw [Transcoder.arrived, Transcoder.arrived, h.completion_eq hentry he hmoves hsince hend]

theorem isTerminal_moves (he : e.Proper) (hmoves : e.Moves since e')
    (hend : e.isTerminal entry.operation) : e'.isTerminal entry.operation := by
  obtain ⟨op, hop, -⟩ := h.calls entry hentry
  exact (hmoves.goes he.orderly.sound).follows.isTerminal (Engine.lt_size_of_get? hop) hend

end Entry

end Joined

/-! ## Histories -/

/-- What may become of a future: it is read in full or in part, and between its reads anything happens to
the cluster. It is told whether a partial read has found all operations ended. -/
inductive History (f : BulkFuture α) (c : Cluster) : Bool → Cluster → BulkFuture α → Prop where
  | start : History f c false c f
  | step {seen : Bool} {s s' : Cluster} {g : BulkFuture α} (h : History f c seen s g)
    (hstep : s.Step s') : History f c seen s' g
  | get {seen : Bool} {s : Cluster} {g : BulkFuture α} (h : History f c seen s g) (timeout : Nat) :
    History f c seen (g.get s timeout).1 (g.get s timeout).2.1
  | getSome {seen : Bool} {s : Cluster} {g : BulkFuture α} (h : History f c seen s g)
    (timeout : Nat) : History f c (seen || (s.waitLatch g.latch timeout).2)
      (g.getSome s timeout).1 (g.getSome s timeout).2.1

/-- The same future, whatever it has kept. -/
structure Resembles (f g : BulkFuture α) : Prop where
  entries : g.entries = f.entries
  latch : g.latch = f.latch
  transcoder : g.transcoder = f.transcoder

theorem Resembles.operations {f g : BulkFuture α} (h : f.Resembles g) :
    g.operations = f.operations := congrArg (List.map _) h.entries

/-- What has been kept agrees with what there is to read. A partial read that has found all operations
ended has left a result behind. -/
structure Tracks (f : BulkFuture α) (since : Outline) (seen : Bool) (s : Cluster)
    (g : BulkFuture α) : Prop where
  regular : s.Regular since
  joined : f.Joined s.engine
  same : f.Resembles g
  faithful : g.Faithful s.engine
  final : ∀ values, g.final = some values → s.isOpen f.latch ∧
    values = f.transcoder.hits s.engine f.entries ∧
    (seen ∨ f.transcoder.flaw? s.engine f.entries = none)
  read : seen → g.final.isSome

namespace Tracks

variable {f g : BulkFuture α} {since : Outline} {seen : Bool} {s s' : Cluster}

theorem isOpen_iff (h : f.Tracks since seen s g) :
    s.isOpen f.latch ↔ ∀ entry ∈ f.entries, s.engine.isTerminal entry.operation :=
  h.joined.isOpen_iff h.regular.proper.orderly.steady

theorem keys (h : f.Tracks since seen s g) : g.keys.Nodup := by
  rw [BulkFuture.keys, h.same.entries]
  exact h.joined.keys

/-- Nothing that happens between reads makes a difference to what has been kept. -/
theorem leads (h : f.Tracks since seen s g) (hled : Leads since s s')
    (hsince : f.latch < since.latches) : f.Tracks since seen s' g := by
  have hproper := h.regular.proper
  have hjoined := h.joined.moves hproper hled.moves hsince
  have hends : ∀ entry ∈ f.entries, s.engine.isTerminal entry.operation →
      s'.engine.isTerminal entry.operation := fun entry hentry hend =>
    h.joined.isTerminal_moves hentry hproper hled.moves hend
  refine ⟨hled.regular, hjoined, h.same, fun key value hkept => ?_, fun values hvalues => ?_, h.read⟩
  · obtain ⟨entry, hentry, hkey, hend, hvalue⟩ := h.faithful key value hkept
    have hentry' : entry ∈ f.entries := h.same.entries ▸ hentry
    refine ⟨entry, hentry, hkey, hends entry hentry' hend, ?_⟩
    rw [h.joined.arrived_eq hentry' hproper hled.moves hsince hend]
    exact hvalue
  · obtain ⟨hopen, hhits, hflaw⟩ := h.final values hvalues
    have hall := h.isOpen_iff.1 hopen
    have harrived : ∀ entry ∈ f.entries,
        f.transcoder.arrived s'.engine entry = f.transcoder.arrived s.engine entry :=
      fun entry hentry =>
        h.joined.arrived_eq hentry hproper hled.moves hsince (hall entry hentry) f.transcoder
    refine ⟨?_, ?_, ?_⟩
    · exact (hjoined.isOpen_iff hled.regular.proper.orderly.steady).2 fun entry hentry =>
        hends entry hentry (hall entry hentry)
    · rw [Transcoder.hits_congr harrived]
      exact hhits
    · rw [Transcoder.flaw?_congr harrived]
      exact hflaw

/-- The future has decoded more. -/
theorem keep (h : f.Tracks since seen s g) {decoded : KeyMap α}
    (hfaithful : Faithful { g with decoded } s.engine) (timedOut : Bool) :
    f.Tracks since seen s { g with decoded, timedOut } :=
  ⟨h.regular, h.joined, ⟨h.same.entries, h.same.latch, h.same.transcoder⟩, hfaithful, h.final, h.read⟩

/-- The future remembers a result. -/
theorem remember (h : f.Tracks since seen s g) (hopen : s.isOpen f.latch) (seen' : Bool)
    (hflaw : seen' ∨ f.transcoder.flaw? s.engine f.entries = none) :
    f.Tracks since seen' s { g with final := some (f.transcoder.hits s.engine f.entries) } := by
  refine ⟨h.regular, h.joined, ⟨h.same.entries, h.same.latch, h.same.transcoder⟩, h.faithful,
    fun values hvalues => ?_, fun _ => rfl⟩
  cases hvalues
  exact ⟨hopen, rfl, hflaw⟩

/-- A wait that cannot end runs out of time. -/
theorem settleAll_error (h : f.Tracks since seen s g) (hshut : ¬s.isOpen f.latch) (timeout : Nat) :
    ∃ error, (s.settleAll f.latch f.operations timeout).2 = .error error := by
  refine ⟨_, Cluster.settleAll_of_not_isOpen h.regular hshut fun hnone => hshut (h.isOpen_iff.2 ?_)⟩
  have hends := (Cluster.overdue_waitLatch h.regular f.latch timeout f.operations).1 hnone
  exact fun entry hentry => hends entry.operation (List.mem_map_of_mem hentry)

/-- Reading in full once all operations have ended. -/
theorem collect_eq (h : f.Tracks since seen s g) (hopen : s.isOpen f.latch) :
    ∃ decoded, collect s g.entries [] g =
        ({ g with decoded }, f.transcoder.whole s.engine f.entries) ∧
      Faithful { g with decoded } s.engine := by
  have hends : ∀ entry ∈ g.entries, s.engine.isTerminal entry.operation :=
    h.same.entries ▸ h.isOpen_iff.1 hopen
  obtain ⟨decoded, hcollect, hfaithful⟩ := BulkFuture.collect_eq (c := s) g.entries [] h.keys
    h.faithful (List.Subset.refl _) h.keys hends fun _ _ hmem => by cases hmem
  refine ⟨decoded, ?_, hfaithful⟩
  rw [hcollect, h.same.transcoder, h.same.entries]
  rfl

/-- Reading in part. -/
theorem collectSome_eq (h : f.Tracks since seen s g) (timedOut : Bool) :
    ∃ decoded, collectSome s g.entries [] { g with timedOut } = ({ g with decoded, timedOut },
        f.transcoder.hits s.engine (f.entries.filter fun entry =>
          s.engine.isTerminal entry.operation)) ∧
      Faithful { g with decoded } s.engine := by
  obtain ⟨decoded, hcollect, hfaithful⟩ := BulkFuture.collectSome_eq (c := s)
    (f := { g with timedOut }) g.entries [] h.keys h.faithful (List.Subset.refl _) h.keys
    fun _ _ hmem => by cases hmem
  refine ⟨decoded, ?_, hfaithful⟩
  rw [hcollect, List.nil_append]
  dsimp only
  rw [h.same.transcoder, h.same.entries]

theorem get_of_isOpen (h : f.Tracks since seen s g) (hopen : s.isOpen f.latch) (timeout : Nat) :
    g.get s timeout = match (s.chargeSuccess f.operations).failures f.operations with
      | .error error => (s.chargeSuccess f.operations, g, .error error)
      | .ok _ => match g.final with
        | some values => (s.chargeSuccess f.operations, g, .ok values)
        | none =>
          match collect (s.chargeSuccess f.operations) g.entries [] g with
          | (g, .ok values) => (s.chargeSuccess f.operations, { g with final := some values }, .ok values)
          | (g, .error error) => (s.chargeSuccess f.operations, g, .error error) := by
  rw [BulkFuture.get, h.same.latch, h.same.operations, Cluster.settleAll_of_isOpen hopen]
  cases (s.chargeSuccess f.operations).failures f.operations <;> rfl

variable (hsince : f.latch < since.latches)

include hsince

/-- Once all operations have ended a read does nothing more to the cluster than charging it. -/
theorem charged (h : f.Tracks since seen s g) (hopen : s.isOpen f.latch) (operations : List Nat) :
    f.Tracks since seen (s.chargeSuccess operations) g ∧
      (s.chargeSuccess operations).isOpen f.latch := by
  refine ⟨h.leads (Cluster.leads_chargeSuccess h.regular operations) hsince, ?_⟩
  rw [Cluster.isOpen, Cluster.engine_chargeSuccess]
  exact hopen

theorem get (h : f.Tracks since seen s g) (timeout : Nat) :
    f.Tracks since seen (g.get s timeout).1 (g.get s timeout).2.1 := by
  by_cases hopen : s.isOpen f.latch
  · obtain ⟨hcharged, hopen'⟩ := h.charged hsince hopen f.operations
    rw [h.get_of_isOpen hopen]
    split
    · exact hcharged
    · split
      · exact hcharged
      · obtain ⟨decoded, hcollect, hfaithful⟩ := hcharged.collect_eq hopen'
        have hkept := hcharged.keep hfaithful g.timedOut
        rw [hcollect, Transcoder.whole]
        cases hflaw : f.transcoder.flaw? (s.chargeSuccess f.operations).engine f.entries with
        | some error => exact hkept
        | none => exact hkept.remember hopen' seen (.inr hflaw)
  · have hled := Cluster.leads_settleAll h.regular f.latch f.operations timeout
    obtain ⟨error, herror⟩ := h.settleAll_error hopen timeout
    rw [BulkFuture.get, h.same.latch, h.same.operations]
    split
    · next heq =>
      rw [heq] at hled
      exact h.leads hled hsince
    · next heq =>
      rw [heq] at herror
      cases herror

/-- A partial read gives what has arrived of the operations that have ended. It is over at once if all
have, and otherwise runs out of time. -/
theorem getSome (h : f.Tracks since seen s g) (timeout : Nat) :
    f.Tracks since (seen || (s.waitLatch g.latch timeout).2) (g.getSome s timeout).1
        (g.getSome s timeout).2.1 ∧
      (g.getSome s timeout).2.2 = f.transcoder.hits (g.getSome s timeout).1.engine
        (f.entries.filter fun entry => (g.getSome s timeout).1.engine.isTerminal entry.operation) ∧
      (g.getSome s timeout).2.1.timedOut = (g.timedOut || !(s.waitLatch g.latch timeout).2) := by
  have hwait : s.waitLatch g.latch timeout = if s.isOpen f.latch then (s, true) else
      ({ s with now := max s.now (s.now + timeout) }, false) := by
    rw [h.same.latch, Cluster.waitLatch, h.regular.waitFor_eq]
  unfold BulkFuture.getSome
  split
  · next values hfinal =>
    obtain ⟨hopen, hhits, hflaw⟩ := h.final values hfinal
    rw [hwait, if_pos hopen]
    refine ⟨⟨h.regular, h.joined, h.same, h.faithful, fun values' hvalues => ?_,
      fun _ => by simp [hfinal]⟩, ?_, by simp⟩
    · cases hfinal.symm.trans hvalues
      exact ⟨hopen, hhits, .inl (by simp)⟩
    · rw [Transcoder.hits_filter_of_all (h.isOpen_iff.1 hopen)]
      exact hhits
  · next hfinal =>
    by_cases hopen : s.isOpen f.latch
    · rw [if_pos hopen] at hwait
      obtain ⟨hcharged, hopen'⟩ := h.charged hsince hopen g.operations
      obtain ⟨decoded, hcollect, hfaithful⟩ := hcharged.collectSome_eq g.timedOut
      have hall := Transcoder.hits_filter_of_all (t := f.transcoder) (hcharged.isOpen_iff.1 hopen')
      rw [hall] at hcollect
      rw [hwait]
      dsimp only
      rw [show collectSome _ g.entries [] g = _ from hcollect]
      exact ⟨(hcharged.keep hfaithful g.timedOut).remember hopen' _ (.inl (by simp)), hall.symm,
        by simp⟩
    · rw [if_neg hopen] at hwait
      have hled := Cluster.leads_waitLatch h.regular g.latch timeout
      rw [hwait] at hled ⊢
      have hcharged := (h.leads hled hsince).leads
        (Cluster.leads_chargeTimeout hled.regular g.operations) hsince
      obtain ⟨decoded, hcollect, hfaithful⟩ := hcharged.collectSome_eq true
      dsimp only at hcollect ⊢
      rw [hcollect, Bool.or_false]
      exact ⟨hcharged.keep hfaithful true, rfl, by simp⟩

end Tracks

theorem Fresh.tracks {f : BulkFuture α} {c s : Cluster} {since : Outline} (hf : f.Fresh c)
    (hs : s.Regular since) (hjoined : f.Joined s.engine) : f.Tracks since false s f := by
  refine ⟨hs, hjoined, ⟨rfl, rfl, rfl⟩, faithful_of_nil hf.decoded _, fun values hvalues => ?_,
    fun hseen => by cases hseen⟩
  rw [hf.final] at hvalues
  cases hvalues

theorem History.tracks {f g : BulkFuture α} {c s : Cluster} {since : Outline} {seen : Bool}
    (h : f.History c seen s g) (hc : c.Regular since) (hf : f.Fresh c)
    (hsince : f.latch < since.latches) : f.Tracks since seen s g := by
  induction h with
  | start => exact hf.tracks hc hf.joined
  | step _ hstep ih => exact ih.leads (hstep.leads ih.regular) hsince
  | get _ timeout ih => exact ih.get hsince timeout
  | getSome _ timeout ih => exact (ih.getSome hsince timeout).1

/-! ## Reads and operations -/

end BulkFuture

namespace Cluster

/-- Nothing has been reported to anybody, and no operation has failed otherwise. -/
structure Undisturbed (c c' : Cluster) : Prop where
  reports : c'.engine.reports = c.engine.reports
  failure : ∀ id, failure? c'.engine id = failure? c.engine id

variable {since : Outline} {c c' c'' : Cluster}

theorem undisturbed_of_engine (h : c'.engine = c.engine) : c.Undisturbed c' := by
  refine ⟨by rw [h], fun id => by rw [h]⟩

theorem Undisturbed.trans (h : c.Undisturbed c') (h' : c'.Undisturbed c'') : c.Undisturbed c'' :=
  ⟨h'.reports.trans h.reports, fun id => (h'.failure id).trans (h.failure id)⟩

theorem undisturbed_foldl {β : Type} {f : Cluster → β → Cluster} (hf : ∀ c b, Undisturbed c (f c b)) :
    ∀ (bs : List β) (c : Cluster), c.Undisturbed (bs.foldl f c)
  | [], _ => undisturbed_of_engine rfl
  | b :: bs, c => (hf c b).trans (undisturbed_foldl hf bs (f c b))

/-- That an operation has been waited for in vain is no failure. -/
theorem failure?_mark (id : Nat) : ∀ (ids : List Nat) (e : Engine),
    failure? (e.each ids fun e id => e.modify id ({ · with timedOut := true })) id = failure? e id ∧
      (e.each ids fun e id => e.modify id ({ · with timedOut := true })).reports = e.reports
  | [], _ => ⟨rfl, rfl⟩
  | first :: ids, e => by
    obtain ⟨hfailure, hreports⟩ := failure?_mark id ids (e.modify first ({ · with timedOut := true }))
    refine ⟨hfailure.trans ?_, hreports⟩
    unfold failure?
    rw [Engine.get?_modify]
    by_cases hid : first = id
    · rw [if_pos hid]
      cases e.get? id <;> rfl
    · rw [if_neg hid]

theorem undisturbed_chargeTimeout (c : Cluster) (operations : List Nat) :
    c.Undisturbed (c.chargeTimeout operations) := by
  have hmarked : c.Undisturbed { c with
      engine := c.engine.each (operations.filter (!c.engine.isTerminal ·)) fun e id =>
        e.modify id ({ · with timedOut := true }) } :=
    ⟨(failure?_mark 0 _ c.engine).2, fun id => (failure?_mark id _ c.engine).1⟩
  refine hmarked.trans ?_
  unfold chargeTimeout
  refine undisturbed_foldl (fun c node => ?_) _ _
  exact ⟨rfl, fun _ => rfl⟩

theorem undisturbed_chargeSuccess (c : Cluster) (operations : List Nat) :
    c.Undisturbed (c.chargeSuccess operations) :=
  undisturbed_of_engine (c.engine_chargeSuccess operations)

theorem undisturbed_waitLatch (h : c.Regular since) (latch timeout : Nat) :
    c.Undisturbed (c.waitLatch latch timeout).1 :=
  undisturbed_of_engine (engine_waitLatch h latch timeout)

theorem undisturbed_settleAll (h : c.Regular since) (latch : Nat) (operations : List Nat)
    (timeout : Nat) : c.Undisturbed (c.settleAll latch operations timeout).1 := by
  have hwaited := undisturbed_waitLatch h latch timeout
  have hregular := (leads_waitLatch h latch timeout).regular
  rw [settleAll_fst]
  unfold await
  split
  · next c' heq =>
    rw [heq] at hwaited
    exact hwaited.trans (undisturbed_chargeSuccess c' operations)
  · next c' heq =>
    rw [heq] at hwaited hregular
    dsimp only
    split
    · have hgrace := undisturbed_waitLatch hregular latch completionGrace
      split
      · next c'' heq' =>
        rw [heq'] at hgrace
        exact (hwaited.trans hgrace).trans (undisturbed_chargeSuccess c'' operations)
      · next c'' heq' =>
        rw [heq'] at hgrace
        exact (hwaited.trans hgrace).trans (undisturbed_chargeTimeout c'' operations)
    · exact hwaited.trans (undisturbed_chargeTimeout c' operations)

end Cluster

namespace BulkFuture

variable {f g : BulkFuture α} {since : Outline} {seen : Bool} {c s : Cluster}

theorem undisturbed_get (h : s.Regular since) (g : BulkFuture α) (timeout : Nat) :
    s.Undisturbed (g.get s timeout).1 := by
  have hsettled := Cluster.undisturbed_settleAll h g.latch g.operations timeout
  unfold BulkFuture.get
  split
  · next heq =>
    rw [heq] at hsettled
    exact hsettled
  · next heq =>
    rw [heq] at hsettled
    split
    · exact hsettled
    · split <;> exact hsettled

theorem undisturbed_getSome (h : s.Regular since) (g : BulkFuture α) (timeout : Nat) :
    s.Undisturbed (g.getSome s timeout).1 := by
  have hwaited := Cluster.undisturbed_waitLatch h g.latch timeout
  unfold BulkFuture.getSome
  split
  · exact Cluster.undisturbed_of_engine rfl
  · split
    · next c' heq =>
      rw [heq] at hwaited
      exact hwaited.trans (Cluster.undisturbed_chargeSuccess c' g.operations)
    · next c' heq =>
      rw [heq] at hwaited
      exact hwaited.trans (Cluster.undisturbed_chargeTimeout c' g.operations)

/-! ## The result -/

/-- The result once all operations have ended: a failure, or all values, or the first of them that
cannot be decoded. After a partial read has found them ended, what cannot be decoded is left out. -/
def result (f : BulkFuture α) (s : Cluster) (seen : Bool) : Except CacheError (KeyMap α) :=
  match s.failures f.operations with
  | .error error => .error error
  | .ok _ =>
    if seen then .ok (f.transcoder.hits s.engine f.entries)
    else f.transcoder.whole s.engine f.entries

theorem Tracks.get_eq (h : f.Tracks since seen s g) (hsince : f.latch < since.latches)
    (hopen : s.isOpen f.latch) (timeout : Nat) : (g.get s timeout).2.2 = f.result s seen := by
  have hengine := s.engine_chargeSuccess f.operations
  have hfailures : (s.chargeSuccess f.operations).failures f.operations =
      s.failures f.operations := by rw [Cluster.failures, Cluster.failures, hengine]
  rw [h.get_of_isOpen hopen, hfailures, result]
  cases s.failures f.operations with
  | error error => rfl
  | ok =>
    dsimp only
    cases hfinal : g.final with
    | some values =>
      obtain ⟨-, hhits, hflaw⟩ := h.final values hfinal
      dsimp only
      rw [hhits]
      split
      · rfl
      · next hunread => rw [Transcoder.whole, hflaw.resolve_left hunread]
    | none =>
      have hunread : ¬seen := by
        intro hseen
        have := h.read hseen
        rw [hfinal] at this
        cases this
      obtain ⟨hcharged, hopen'⟩ := h.charged hsince hopen f.operations
      obtain ⟨decoded, hcollect, -⟩ := hcharged.collect_eq hopen'
      dsimp only
      rw [hcollect, hengine, if_neg hunread]
      cases f.transcoder.whole s.engine f.entries <;> rfl

/-- The future has been made by a bulk get: one get for each of the keys. -/
structure Made (f : BulkFuture α) (keys : List String) (t : Transcoder α) (c : Cluster) : Prop where
  fresh : f.Fresh c
  carries : ∀ entry ∈ f.entries,
    c.engine.Carries entry.operation (.get entry.key false) (.completion entry.completion)
  keys : f.keys = keys.eraseDups
  transcoder : f.transcoder = t
  timedOut : f.timedOut = false

theorem made_getBulk {client : Client} {keys : List String} {t : Transcoder α} {c' : Cluster}
    {f : BulkFuture α} (hreach : c.Reachable) (hplaced : client.Placed c)
    (hcall : client.getBulk keys t c = (c', .ok f)) : c'.Reachable ∧ f.Made keys t c' := by
  have hregular := (hreach.leads Cluster.regular_empty).regular
  have hyields := (Client.yields_entered hregular hplaced keys t).result (congrArg Prod.snd hcall)
  have hstep := Cluster.Step.call hplaced (.getBulk keys t)
  rw [Client.serve, Client.returning, hcall] at hstep
  rw [hcall] at hyields
  obtain ⟨⟨hissued, hentered⟩, hkeys, htranscoder, hdecoded, htimedOut, hfinal⟩ := hyields
  have hnodup : f.keys.Nodup := hkeys ▸ Client.nodup_eraseDups keys
  have hjoined : f.Joined c'.engine :=
    ⟨hissued.awaits, fun entry hentry => (hentered.carries entry hentry).calls, hentered.completions,
      hnodup⟩
  exact ⟨hreach.tail hstep, ⟨hjoined, hdecoded, hfinal⟩, hentered.carries, hkeys, htranscoder, htimedOut⟩

/-- **Reading a future before does not change its result, unless a read in part came after the end.**
Once all operations have ended, a future that a bulk get has returned gives the same result as if it
had never been read, or the same error, through any history of reads that run out of time or not, and
of anything that happens in between; reads disturb no operation. The exception is a partial read that
found all operations ended: it remembers what it could decode, and from then on that is the result. So
the results differ just when there was one, no operation has failed and some value cannot be
decoded. -/
theorem get_after_reads (hreach : c.Reachable) :
    (∀ {client : Client} {keys : List String} {t : Transcoder α} {c' : Cluster} {f : BulkFuture α},
      client.Placed c → client.getBulk keys t c = (c', .ok f) → c'.Reachable ∧ f.Fresh c') ∧
    ∀ {f g : BulkFuture α} {seen : Bool} {s : Cluster}, f.Fresh c → f.History c seen s g →
      ∀ timeout, (s.Undisturbed (g.get s timeout).1 ∧ s.Undisturbed (g.getSome s timeout).1) ∧
        (s.isOpen f.latch →
          (f.get s timeout).2.2 = f.result s false ∧ (g.get s timeout).2.2 = f.result s seen ∧
          ((g.get s timeout).2.2 ≠ (f.get s timeout).2.2 ↔ seen ∧ s.failures f.operations = .ok () ∧
            ∃ entry ∈ f.entries, ∃ error,
              f.transcoder.arrived s.engine entry = some (.error error))) := by
  have hregular := (hreach.leads Cluster.regular_empty).regular.rebase
  refine ⟨fun {client keys t c' f} hplaced hcall => ?_, fun {f g seen s} hf hhistory timeout => ?_⟩
  · obtain ⟨hreach', hmade⟩ := made_getBulk hreach hplaced hcall
    exact ⟨hreach', hmade.fresh⟩
  · have hsince : f.latch < c.engine.reports.outline.latches := hf.joined.awaits.within.latch
    have htracks := hhistory.tracks hregular hf hsince
    refine ⟨⟨undisturbed_get htracks.regular g timeout, undisturbed_getSome htracks.regular g timeout⟩,
      fun hopen => ?_⟩
    have hfirst := (hf.tracks htracks.regular htracks.joined).get_eq hsince hopen timeout
    have hagain := htracks.get_eq hsince hopen timeout
    refine ⟨hfirst, hagain, ?_⟩
    rw [hfirst, hagain, result, result, ← Transcoder.flaw?_isSome]
    cases s.failures f.operations with
    | error error => simp
    | ok =>
      cases hflaw : f.transcoder.flaw? s.engine f.entries <;> cases seen <;>
        simp [Transcoder.whole, hflaw]

/-! ## A value that is not text -/

theorem History.later {f g : BulkFuture α} {c s s' : Cluster} {seen : Bool} (h : f.History c seen s g)
    (hlater : s.Later s') : f.History c seen s' g := by
  induction hlater with
  | refl => exact h
  | tail _ hstep ih => exact ih.step hstep

/-- Reads `"a"` as text. -/
def readText : Call (BulkFuture String) := Client.oneNode.2.getBulk ["a"] .text

def textRead : BulkFuture String :=
  { entries := [⟨"a", 0, 0⟩], latch := 0, timeout := 2500, transcoder := .text }

/-- The node is connected and gets the request. It answers with a value of one byte. -/
def answerRead (value : UInt8) (c : Cluster) : Cluster :=
  let opened := Connection.step c 0 (.down 0) .connected
  let sent := Connection.step opened.1 0 opened.2 (.sent 100)
  (Connection.step sent.1 0 sent.2 (.received [0x81, 12, 0, 0, 4, 0, 0, 0, 0, 0, 0, 5, 0, 0, 0, 1,
    0, 0, 0, 0, 0, 0, 0, 0, 0, 0, 0, 0, value])).1

theorem later_answerRead (value : UInt8) (c : Cluster) : c.Later (answerRead value c) :=
  have hopened : c.Later _ := .single (.link 0 (.down 0) .connected)
  have hsent := hopened.tail (.link 0 _ (.sent 100))
  hsent.tail (.link 0 _ (.received _))

/-- All that a bulk get decides is in the entries, the latch and how long to wait. -/
theorem getBulk_eq {client : Client} {keys : List String} {t : Transcoder α} {c : Cluster}
    {entries : List BulkEntry} {latch timeout : Nat} (hreach : c.Reachable) (hplaced : client.Placed c)
    (h : (client.getBulk keys t c).2.toOption.map (fun f => (f.entries, f.latch, f.timeout)) =
      some (entries, latch, timeout)) : client.getBulk keys t c =
        ((client.getBulk keys t c).1, .ok { entries, latch, timeout, transcoder := t }) := by
  cases hread : (client.getBulk keys t c).2 with
  | error error =>
    rw [hread] at h
    cases h
  | ok f =>
    obtain ⟨-, hmade⟩ := made_getBulk hreach hplaced (Prod.ext rfl hread)
    have htranscoder := hmade.transcoder
    have hdecoded := hmade.fresh.decoded
    have htimedOut := hmade.timedOut
    have hfinal := hmade.fresh.final
    rw [hread] at h
    obtain ⟨_, _, _, _, _, _, _⟩ := f
    cases htranscoder
    cases hdecoded
    cases htimedOut
    cases hfinal
    cases h
    exact Prod.ext rfl hread

theorem readText_oneNode : readText Client.oneNode.1 = ((readText Client.oneNode.1).1, .ok textRead) := by
  obtain ⟨hreach, hplaced⟩ := Future.connected_oneNode
  exact getBulk_eq hreach hplaced (by decide +kernel)

/-- A partial read that runs out of time before the answer has come makes no difference. -/
theorem get_after_reads_in_vain :
    ∃ c s : Cluster, ∃ g : BulkFuture String, c.Reachable ∧ textRead.Fresh c ∧
      textRead.History c false s g ∧ s.isOpen 0 ∧
      (g.get s 10).2.2 = (textRead.get s 10).2.2 ∧ (g.get s 10).2.2 matches .error (.transcode _) := by
  obtain ⟨hreach, hplaced⟩ := Future.connected_oneNode
  have hcall := readText_oneNode
  obtain ⟨c, hc⟩ : ∃ c, c = (readText Client.oneNode.1).1 := ⟨_, rfl⟩
  rw [← hc] at hcall
  obtain ⟨hreach', hfresh⟩ := (get_after_reads hreach).1 hplaced hcall
  have hexpired : (c.waitLatch textRead.latch 10).2 = false := by
    rw [hc]
    decide +kernel
  have hread := (History.start (f := textRead) (c := c)).getSome 10
  rw [hexpired] at hread
  have hhistory := hread.later (later_answerRead 255 _)
  obtain ⟨-, hresult⟩ := (get_after_reads hreach').2 hfresh hhistory 10
  have hopen : (answerRead 255 (textRead.getSome c 10).1).isOpen 0 := by
    rw [hc]
    decide +kernel
  obtain ⟨hfirst, hagain, -⟩ := hresult hopen
  have hsame := hagain.trans hfirst.symm
  refine ⟨c, _, _, hreach', hfresh, hhistory, hopen, hsame, ?_⟩
  rw [hc]
  decide +kernel

/-- A partial read after the answer has come takes the error away. -/
theorem get_after_getSome :
    ∃ c s : Cluster, c.Reachable ∧ (readText c).2 = .ok textRead ∧ (readText c).1.Later s ∧
      s.isOpen textRead.latch ∧ (textRead.get s 10).2.2 matches .error (.transcode _) ∧
      ((textRead.getSome s 10).2.1.get (textRead.getSome s 10).1 10).2.2.toOption = some [] := by
  refine ⟨Client.oneNode.1, answerRead 255 (readText Client.oneNode.1).1, Future.connected_oneNode.1,
    congrArg Prod.snd readText_oneNode, later_answerRead 255 _, ?_, ?_, ?_⟩
  · decide +kernel
  · decide +kernel
  · decide +kernel

end BulkFuture

end ShardedCache

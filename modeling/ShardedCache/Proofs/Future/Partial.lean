import ShardedCache.Proofs.Engine.Recording
import ShardedCache.Proofs.Future.Rereading

/-!
# What a partial read gives

A partial read is put together from the completions of operations that have ended, from what was decoded
before and from a result that may be remembered. All the same it gives exactly what has arrived: a value
for each key whose get has completed with one that can be decoded (`BulkFuture.Arrived`), and for no
other. What has arrived stays, so partial reads give more and more
(`BulkFuture.getSome_gives_arrived`).
-/

namespace ShardedCache

open Wire (Status)

/-! ## Maps -/

namespace KeyMap

variable {α : Type}

/-- Each key stands in the map once, so that it is found. -/
theorem get?_eq_some_iff {m : KeyMap α} (h : (m.map (·.1)).Nodup) {key : String} {value : α} :
    get? m key = some value ↔ (key, value) ∈ m := by
  induction m with
  | nil => simp
  | cons pair m ih =>
    obtain ⟨k, v⟩ := pair
    rw [List.map_cons, List.nodup_cons] at h
    rw [get?_cons, List.mem_cons, Prod.mk.injEq]
    by_cases hkey : key = k
    · have hnot : (key, value) ∉ m := fun hmem => h.1 (List.mem_map.2 ⟨_, hmem, hkey⟩)
      rw [if_pos hkey, or_iff_left hnot, Option.some.injEq]
      exact ⟨fun hv => ⟨hkey, hv.symm⟩, fun hv => hv.2.symm⟩
    · rw [if_neg hkey, ih h.2]
      simp [hkey]

end KeyMap

namespace Transcoder

variable {α : Type} {t : Transcoder α} {e : Engine} {entries : List BulkEntry}

theorem mem_hits {key : String} {value : α} : (key, value) ∈ t.hits e entries ↔
    ∃ entry ∈ entries, entry.key = key ∧ t.arrived e entry = some (.ok value) := by
  rw [hits, List.mem_filterMap]
  refine exists_congr fun entry => and_congr_right fun _ => ?_
  rcases t.arrived e entry with - | (error | value') <;> simp

/-- Values are given in the order of their keys. -/
theorem keys_hits_sublist : ((t.hits e entries).map (·.1)).Sublist (entries.map (·.key)) := by
  induction entries with
  | nil => exact .slnil
  | cons entry entries ih =>
    rw [hits_cons]
    split
    · exact ih.cons_cons entry.key
    · exact ih.cons entry.key

end Transcoder

/-! ## What an operation has found -/

namespace Engine

/-- The operation has completed, and has told its callback of this value and of its success, and of
nothing else. -/
structure Found (e : Engine) (id : Nat) (value : StoredValue) : Prop where
  complete : ∃ op, e.get? id = some op ∧ op.phase = .complete ∧ op.status = some .success
  heard : ∃ key cas, e.reports.heard (.operation id) =
    [.payload (.value key value cas), .status .success, .finished]

variable {e e' : Engine} {id : Nat} {value value' : StoredValue}

theorem Found.isTerminal (h : e.Found id value) : e.isTerminal id := by
  obtain ⟨op, hop, hphase, -⟩ := h.complete
  rw [Engine.isTerminal, hop, Option.map_some, Option.getD_some, Operation.isTerminal, hphase]
  rfl

theorem Found.unique (h : e.Found id value) (h' : e.Found id value') : value' = value := by
  obtain ⟨key, cas, hheard⟩ := h.heard
  obtain ⟨key', cas', hheard'⟩ := h'.heard
  have hsame := hheard'.symm.trans hheard
  injection hsame with hpayload
  cases hpayload
  rfl

/-- What has been found stays. -/
theorem Found.goes (h : e.Found id value) (hgoes : e.Goes e') : e'.Found id value := by
  obtain ⟨op, hop, hphase, hstatus⟩ := h.complete
  obtain ⟨key, cas, hheard⟩ := h.heard
  obtain ⟨l', hl', hfollows⟩ := hgoes.follows id _ (life?_of_get? hop)
  have hending := hfollows.ending (by
    rw [Life.isTerminal, Operation.isTerminal, hphase]
    rfl)
  obtain ⟨op', hop', rfl⟩ := Option.map_eq_some_iff.1 hl'
  exact ⟨⟨op', hop', (congrArg Ending.phase hending).trans hphase,
    (congrArg Ending.status hending).trans hstatus⟩,
    key, cas, (congrArg Ending.heard hending).trans hheard⟩

end Engine

/-- What completions hold and operations say can be relied on in every cluster that there can be. -/
theorem Cluster.Reachable.recorded {c : Cluster} (h : c.Reachable) :
    c.engine.reports.Recorded ∧ c.engine.Candid := by
  have hled := h.leads Cluster.regular_empty
  refine hled.moves.recorded hled.start.proper (fun k hk => ?_) fun id op hop => ?_
  · cases hk
  · cases hop

namespace BulkFuture

variable {α : Type} {f g : BulkFuture α} {since : Outline} {seen : Bool} {c s : Cluster} {e e' : Engine}
  {entry : BulkEntry}

namespace Joined

section Entry

variable (h : f.Joined e) (hentry : entry ∈ f.entries)

include h hentry

/-- The completion of an entry is told just what its operation tells. -/
theorem told_eq (he : e.Proper) :
    e.reports.told (.completion entry.completion) = e.reports.heard (.operation entry.operation) := by
  refine congrArg (List.map _) (List.filter_congr fun d hd => ?_)
  have hd := List.mem_reverse.1 hd
  have haddressed := he.orderly.steady.addressed d hd
  rw [decide_eq_decide]
  refine ⟨fun hreceiver => ?_, fun hteller => ?_⟩
  -- whoever tells the completion may count down the latch, and so is an operation of the future
  · have hlatch : d.receiver.latch? e.reports.outline = some f.latch := by
      rw [hreceiver]
      exact congrArg some (h.latchOf_eq hentry).2
    obtain ⟨id, hid, hteller⟩ := h.awaits.admits.journal d hd hlatch
    obtain ⟨entry', hentry', rfl⟩ := List.mem_map.1 hid
    obtain ⟨op, hop, hcallback⟩ := h.calls entry' hentry'
    rw [Engine.Addressed, hteller] at haddressed
    obtain ⟨op', hop', hreceiver'⟩ := haddressed
    cases hop.symm.trans hop'
    have hsame : entry'.completion = entry.completion :=
      Callback.completion.inj (hcallback.symm.trans (hreceiver'.symm.trans hreceiver))
    rw [hteller, List.inj_on_of_nodup_map h.completions hentry' hentry hsame]
  · obtain ⟨op, hop, hcallback⟩ := h.calls entry hentry
    rw [Engine.Addressed, hteller] at haddressed
    obtain ⟨op', hop', hreceiver⟩ := haddressed
    cases hop.symm.trans hop'
    exact hreceiver.trans hcallback

/-- A value stands in the completion just when the operation has found it. -/
theorem value?_iff (he : e.Proper) (hrecorded : e.reports.Recorded) (hcandid : e.Candid)
    (value : StoredValue) : (∃ cas, (e.reports.completion entry.completion).value? = some (value, cas)) ↔
      e.Found entry.operation value := by
  obtain ⟨op, hop, -⟩ := h.calls entry hentry
  have hknown : entry.completion < e.reports.completions.length := by
    simpa [Reports.outline] using (h.latchOf_eq hentry).1
  have htold : Told op.status (e.reports.heard (.operation entry.operation)) :=
    (he.orderly.sound.lives (Engine.life?_of_get? hop)).told
  rw [hrecorded _ hknown, h.told_eq hentry he]
  constructor
  · rintro ⟨cas, hvalue⟩
    obtain ⟨key, hstatus, hheard⟩ : ∃ key, op.status = some .success ∧
        e.reports.heard (.operation entry.operation) =
          [.payload (.value key value cas), .status .success, .finished] := by
      generalize op.status = status, e.reports.heard (.operation entry.operation) = heard
        at htold hvalue
      cases htold with
      | nothing => cases hvalue
      | outcome s => cases hvalue
      | value p =>
        cases p with
        | value key data version =>
          cases hvalue
          exact ⟨key, rfl, rfl⟩
        | _ => cases hvalue
    exact ⟨⟨op, hop, hcandid.phase_of_success he.orderly.sound hop hstatus rfl, hstatus⟩, key, cas, hheard⟩
  · rintro ⟨-, key, cas, hheard⟩
    rw [hheard]
    exact ⟨cas, rfl⟩

/-- What an operation that has ended has left decodes to a value just when it has found something that
does. -/
theorem arrived_iff (he : e.Proper) (hrecorded : e.reports.Recorded) (hcandid : e.Candid)
    (t : Transcoder α) {value : α} :
    e.isTerminal entry.operation ∧ t.arrived e entry = some (.ok value) ↔
      ∃ stored, e.Found entry.operation stored ∧ t.decode stored = .ok value := by
  have hvalue? := h.value?_iff hentry he hrecorded hcandid
  refine ⟨fun ⟨_, harrived⟩ => ?_, fun ⟨stored, hfound, hdecode⟩ => ?_⟩
  · obtain ⟨⟨stored, cas⟩, hvalue, hdecode⟩ := Option.map_eq_some_iff.1 harrived
    exact ⟨stored, (hvalue? stored).1 ⟨cas, hvalue⟩, hdecode⟩
  · obtain ⟨cas, hvalue⟩ := (hvalue? stored).2 hfound
    refine ⟨hfound.isTerminal, ?_⟩
    rw [Transcoder.arrived, hvalue, Option.map_some, hdecode]

end Entry

end Joined

/-! ## Reads in part -/

/-- The get for the key has completed with a value that decodes to this one. -/
def Arrived (f : BulkFuture α) (e : Engine) (key : String) (value : α) : Prop :=
  ∃ entry ∈ f.entries, entry.key = key ∧
    ∃ stored, e.Found entry.operation stored ∧ f.transcoder.decode stored = .ok value

theorem Arrived.goes {key : String} {value : α} (h : f.Arrived e key value) (hgoes : e.Goes e') :
    f.Arrived e' key value := by
  obtain ⟨entry, hentry, hkey, stored, hfound, hdecode⟩ := h
  exact ⟨entry, hentry, hkey, stored, hfound.goes hgoes, hdecode⟩

/-- What a partial read has returned, and whether its wait for the latch has run out. -/
structure PartialRead (α : Type) where
  values : KeyMap α
  expired : Bool

/-- What may become of a future, with what its partial reads have returned, oldest first: it is read in
full or in part, and between its reads anything happens to the cluster. -/
inductive Readings (f : BulkFuture α) (c : Cluster) :
    List (PartialRead α) → Cluster → BulkFuture α → Prop where
  | start : Readings f c [] c f
  | step {past : List (PartialRead α)} {s s' : Cluster} {g : BulkFuture α} (h : Readings f c past s g)
    (hstep : s.Step s') : Readings f c past s' g
  | get {past : List (PartialRead α)} {s : Cluster} {g : BulkFuture α} (h : Readings f c past s g)
    (timeout : Nat) : Readings f c past (g.get s timeout).1 (g.get s timeout).2.1
  | getSome {past : List (PartialRead α)} {s : Cluster} {g : BulkFuture α} (h : Readings f c past s g)
    (timeout : Nat) : Readings f c
      (past ++ [⟨(g.getSome s timeout).2.2, !(s.waitLatch g.latch timeout).2⟩])
      (g.getSome s timeout).1 (g.getSome s timeout).2.1

/-- The values of a partial read, each key at most once. -/
theorem Tracks.getSome_iff (h : f.Tracks since seen s g) (hsince : f.latch < since.latches)
    (hreach : s.Reachable) (timeout : Nat) :
    let values := (g.getSome s timeout).2.2
    (values.map (·.1)).Nodup ∧ values.map (·.1) ⊆ f.keys ∧ ∀ key value,
      KeyMap.get? values key = some value ↔ f.Arrived (g.getSome s timeout).1.engine key value := by
  intro values
  obtain ⟨htracks, hvalues, -⟩ := h.getSome hsince timeout
  obtain ⟨hrecorded, hcandid⟩ := Cluster.Reachable.recorded (hreach.tail (.getSome g timeout))
  have hsublist : (values.map (·.1)).Sublist f.keys := by
    rw [show values = _ from hvalues]
    exact Transcoder.keys_hits_sublist.trans (List.filter_sublist.map _)
  have hnodup := hsublist.nodup htracks.joined.keys
  refine ⟨hnodup, hsublist.subset, fun key value => ?_⟩
  rw [KeyMap.get?_eq_some_iff hnodup, show values = _ from hvalues, Transcoder.mem_hits, Arrived]
  refine exists_congr fun entry => ?_
  rw [List.mem_filter, and_assoc]
  refine and_congr_right fun hentry => ?_
  rw [and_left_comm]
  exact and_congr_right fun _ => htracks.joined.arrived_iff hentry htracks.regular.proper hrecorded
    hcandid f.transcoder

theorem timedOut_get (g : BulkFuture α) (s : Cluster) (timeout : Nat) :
    (g.get s timeout).2.1.timedOut = g.timedOut := by
  unfold BulkFuture.get
  split
  · rfl
  · next s' _ _ =>
    obtain ⟨⟨decoded, hdecoded⟩, -⟩ := collect_spec s' g.entries [] g
    split
    · rfl
    · split <;>
      · next heq =>
        rw [heq] at hdecoded
        cases hdecoded
        rfl

namespace Readings

variable {past : List (PartialRead α)}

theorem history (h : f.Readings c past s g) : ∃ seen, f.History c seen s g := by
  induction h with
  | start => exact ⟨_, .start⟩
  | step _ hstep ih => exact ih.imp fun _ hhistory => hhistory.step hstep
  | get _ timeout ih => exact ih.imp fun _ hhistory => hhistory.get timeout
  | getSome _ timeout ih =>
    obtain ⟨_, hhistory⟩ := ih
    exact ⟨_, hhistory.getSome timeout⟩

theorem later (h : f.Readings c past s g) : c.Later s := by
  induction h with
  | start => exact .refl
  | step _ hstep ih => exact ih.tail hstep
  | @get _ _ g _ timeout ih => exact ih.tail (.get (.bulk g) timeout)
  | @getSome _ _ g _ timeout ih => exact ih.tail (.getSome g timeout)

theorem tracks (h : f.Readings c past s g) (hreach : c.Reachable) (hf : f.Fresh c) :
    f.latch < c.engine.reports.outline.latches ∧
      ∃ seen, f.Tracks c.engine.reports.outline seen s g := by
  obtain ⟨seen, hhistory⟩ := h.history
  have hregular := (hreach.leads Cluster.regular_empty).regular.rebase
  have hsince := hf.joined.awaits.within.latch
  exact ⟨hsince, seen, hhistory.tracks hregular hf hsince⟩

/-- What has arrived is still there later on. -/
theorem keeps_arrived (h : f.Readings c past s g) (hreach : c.Reachable) (hf : f.Fresh c) {s' : Cluster}
    (hstep : s.Step s') {key : String} {value : α} (harrived : f.Arrived s.engine key value) :
    f.Arrived s'.engine key value := by
  obtain ⟨-, _, htracks⟩ := h.tracks hreach hf
  exact harrived.goes (hstep.leads htracks.regular).goes

/-- Whatever a partial read has given has arrived. -/
theorem arrived (h : f.Readings c past s g) (hreach : c.Reachable) (hf : f.Fresh c) :
    ∀ read ∈ past, ∀ key value, KeyMap.get? read.values key = some value →
      f.Arrived s.engine key value := by
  induction h with
  | start => exact List.forall_mem_nil _
  | step h hstep ih =>
    intro read hread key value hvalue
    exact h.keeps_arrived hreach hf hstep (ih read hread key value hvalue)
  | @get _ _ g h timeout ih =>
    intro read hread key value hvalue
    exact h.keeps_arrived hreach hf (.get (.bulk g) timeout) (ih read hread key value hvalue)
  | @getSome _ _ g h timeout ih =>
    obtain ⟨hsince, _, htracks⟩ := h.tracks hreach hf
    have hgiven := (htracks.getSome_iff hsince (hreach.trans h.later) timeout).2.2
    intro read hread key value hvalue
    rcases List.mem_append.1 hread with hread | hread
    · exact h.keeps_arrived hreach hf (.getSome g timeout) (ih read hread key value hvalue)
    · rw [List.mem_singleton.1 hread] at hvalue
      exact (hgiven key value).1 hvalue

/-- A future has timed out just when a partial read has waited in vain. -/
theorem timedOut_eq (h : f.Readings c past s g) (hreach : c.Reachable) (hf : f.Fresh c) :
    g.timedOut = (f.timedOut || past.any (·.expired)) := by
  induction h with
  | start => simp
  | step _ _ ih => exact ih
  | get _ timeout ih => exact (timedOut_get _ _ timeout).trans ih
  | getSome h timeout ih =>
    obtain ⟨hsince, _, htracks⟩ := h.tracks hreach hf
    rw [(htracks.getSome hsince timeout).2.2, ih]
    simp [Bool.or_assoc]

end Readings

/-- **A partial read gives exactly what has arrived.** Through any history of reads, answers, failures
and cancellations, a partial read of the future of a bulk get returns a value for just those of the keys
whose get has completed by then with a value that can be decoded, and returns what that decodes to: no
key twice, and none whose get has missed, failed or been cancelled, or has found what cannot be decoded.
Whatever an earlier partial read has returned is still there. And the future says that it has timed out
just when the wait of a partial read has run out with the latch closed. -/
theorem getSome_gives_arrived {client : Client} {keys : List String} {t : Transcoder α}
    {c c' s : Cluster} {f g : BulkFuture α} {past : List (PartialRead α)} (hreach : c.Reachable)
    (hplaced : client.Placed c) (hcall : client.getBulk keys t c = (c', .ok f))
    (hreads : f.Readings c' past s g) (timeout : Nat) :
    let s' := (g.getSome s timeout).1
    let values := (g.getSome s timeout).2.2
    (f.keys = keys.eraseDups ∧ ∀ entry ∈ f.entries,
      s'.engine.Carries entry.operation (.get entry.key false) (.completion entry.completion)) ∧
    (values.map (·.1)).Nodup ∧ values.map (·.1) ⊆ keys ∧
    (∀ key value, KeyMap.get? values key = some value ↔ ∃ entry ∈ f.entries, entry.key = key ∧
      ∃ stored, s'.engine.Found entry.operation stored ∧ t.decode stored = .ok value) ∧
    (∀ entry ∈ f.entries, ∀ op, s'.engine.get? entry.operation = some op →
      (op.isCancelled ∨ op.status ≠ some .success ∨
        ∃ stored error, s'.engine.Found entry.operation stored ∧ t.decode stored = .error error) →
      KeyMap.get? values entry.key = none) ∧
    (∀ read ∈ past, ∀ key value, KeyMap.get? read.values key = some value →
      KeyMap.get? values key = some value) ∧
    (g.timedOut ↔ ∃ read ∈ past, read.expired) := by
  intro s' values
  obtain ⟨hreach', hmade⟩ := made_getBulk hreach hplaced hcall
  obtain rfl := hmade.transcoder
  obtain ⟨hsince, _, htracks⟩ := hreads.tracks hreach' hmade.fresh
  obtain ⟨hnodup, hkeys, hgiven⟩ := htracks.getSome_iff hsince (hreach'.trans hreads.later) timeout
  have hstep : s.Step s' := .getSome g timeout
  have hlater : c'.Later s' := hreads.later.tail hstep
  have hall := hlater.leads (hreach'.leads Cluster.regular_empty).regular
  refine ⟨⟨hmade.keys, fun entry hentry => (hmade.carries entry hentry).goes hall.goes⟩, hnodup, ?_,
    hgiven, fun entry hentry op hop hlacks => ?_, fun read hread key value hvalue => ?_, ?_⟩
  · refine List.Subset.trans hkeys fun key hkey => ?_
    rwa [hmade.keys, List.mem_eraseDups] at hkey
  · rw [Option.eq_none_iff_forall_ne_some]
    intro value hvalue
    obtain ⟨entry', hentry', hkey, stored, hfound, hdecode⟩ := (hgiven entry.key value).1 hvalue
    obtain rfl := eq_of_key_eq htracks.joined.keys hentry hentry' hkey
    obtain ⟨op', hop', hphase, hstatus⟩ := hfound.complete
    cases hop.symm.trans hop'
    rcases hlacks with hcancelled | hother | ⟨stored', error, hfound', herror⟩
    · rw [Operation.isCancelled, hphase] at hcancelled
      cases hcancelled
    · exact hother hstatus
    · rw [hfound.unique hfound', hdecode] at herror
      cases herror
  · have harrived := hreads.arrived hreach' hmade.fresh read hread key value hvalue
    exact (hgiven key value).2 (hreads.keeps_arrived hreach' hmade.fresh hstep harrived)
  · rw [hreads.timedOut_eq hreach' hmade.fresh, hmade.timedOut, Bool.false_or, List.any_eq_true]

/-! ## One key of two -/

theorem Readings.of_later {past : List (PartialRead α)} {s' : Cluster} (h : f.Readings c past s g)
    (hlater : s.Later s') : f.Readings c past s' g := by
  induction hlater with
  | refl => exact h
  | tail _ hstep ih => exact ih.step hstep

/-- Reads `"a"` and `"b"`, and `"a"` again. -/
def readBoth : Call (BulkFuture String) := Client.oneNode.2.getBulk ["a", "b", "a"] .text

def bothRead : BulkFuture String :=
  { entries := [⟨"a", 0, 0⟩, ⟨"b", 1, 1⟩], latch := 0, timeout := 2500, transcoder := .text }

/-- The value of one key comes after the first of three partial reads, and the get for the other is
cancelled after the second. -/
theorem getSome_gives_arrived_of_two :
    ∃ (c' s : Cluster) (g : BulkFuture String), Client.oneNode.1.Reachable ∧
      Client.oneNode.2.Placed Client.oneNode.1 ∧ readBoth Client.oneNode.1 = (c', .ok bothRead) ∧
      bothRead.Readings c' [⟨[], true⟩, ⟨[("a", "v")], true⟩] s g ∧
      KeyMap.get? (g.getSome s 10).2.2 "a" = some "v" ∧ KeyMap.get? (g.getSome s 10).2.2 "b" = none ∧
      g.timedOut ∧ (g.getSome s 10).1.isOpen bothRead.latch := by
  obtain ⟨hreach, hplaced⟩ := Future.connected_oneNode
  obtain ⟨c', hc'⟩ : ∃ c', c' = (readBoth Client.oneNode.1).1 := ⟨_, rfl⟩
  have hcall : readBoth Client.oneNode.1 = (c', .ok bothRead) := by
    rw [hc']
    exact getBulk_eq hreach hplaced (by decide +kernel)
  obtain ⟨first, hfirst⟩ : ∃ first, first = bothRead.getSome c' 10 := ⟨_, rfl⟩
  obtain ⟨second, hsecond⟩ : ∃ second, second = first.2.1.getSome (answerRead 118 first.1) 10 := ⟨_, rfl⟩
  have hwaited : first.2.2 = [] ∧ (c'.waitLatch bothRead.latch 10).2 = false := by
    rw [hfirst, hc']
    decide +kernel
  have hagain : second.2.2 = [("a", "v")] ∧
      ((answerRead 118 first.1).waitLatch first.2.1.latch 10).2 = false := by
    rw [hsecond, hfirst, hc']
    decide +kernel
  have hreads := (Readings.start (f := bothRead) (c := c')).getSome 10
  rw [← hfirst, hwaited.1, hwaited.2] at hreads
  have hreads := (hreads.of_later (later_answerRead 118 first.1)).getSome 10
  rw [← hsecond, hagain.1, hagain.2] at hreads
  have hreads := hreads.step (.cancel 1 "gone")
  obtain ⟨-, -, -, -, hlacks, hgrows, htimedOut⟩ := getSome_gives_arrived hreach hplaced hcall hreads 10
  refine ⟨c', _, _, hreach, hplaced, hcall, hreads, ?_, ?_, ?_, ?_⟩
  · exact hgrows _ (List.mem_cons_of_mem _ (List.mem_singleton_self _)) "a" "v" rfl
  · have hcancelled : ((second.2.1.getSome (second.1.cancel 1 "gone") 10).1.engine.get? 1).any
        (·.isCancelled) = true := by
      rw [hsecond, hfirst, hc']
      decide +kernel
    obtain ⟨op, hop, hcancelled⟩ := (Option.any_eq_true _ _).1 hcancelled
    exact hlacks ⟨"b", 1, 1⟩ (List.mem_cons_of_mem _ (List.mem_singleton_self _)) op hop
      (.inl hcancelled)
  · exact htimedOut.2 ⟨_, List.mem_cons_self, rfl⟩
  · rw [hsecond, hfirst, hc']
    decide +kernel

end BulkFuture

end ShardedCache

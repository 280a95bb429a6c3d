import ShardedCache.Proofs.Engine.Multiplexing

/-!
# Who stands behind a callback

A callback comes to be before the callbacks that it stands behind: whatever an engine knows refers to
multiplexers that exist (`Engine.Wired`). So a new multiplexer has heard nothing, has said nothing,
and nobody is about to tell it anything. Engines that are sound, steady and wired are called orderly,
and whatever may be done to an engine leaves it so (`Engine.Orderly.act`).
-/

namespace ShardedCache

open Wire (Status Frame)

/-- If the teller is a multiplexer, its number is smaller. -/
def Teller.Below (n : Nat) : Teller → Prop
  | .multiplexer id => id < n
  | .operation _ | .listener _ | .finishedEarly _ => True

theorem Teller.Below.mono {n n' : Nat} {t : Teller} (h : t.Below n) (hle : n ≤ n') : t.Below n' := by
  cases t with
  | multiplexer id => exact Nat.lt_of_lt_of_le h hle
  | _ => trivial

/-! ## Reports -/

namespace Reports

/-- There are `n` multiplexers, and no others have been heard of. -/
structure Wired (n : Nat) (r : Reports) : Prop where
  length : r.multiplexers.length = n
  receivers : ∀ d ∈ r.journal, d.receiver.Below n
  tellers : ∀ d ∈ r.journal, d.teller.Below n

namespace Wired

variable {n : Nat} {r : Reports}

theorem congr (h : r.Wired n) {r' : Reports}
    (hlength : r'.multiplexers.length = r.multiplexers.length) (hjournal : r'.journal = r.journal) :
    r'.Wired n :=
  ⟨hlength.trans h.length, hjournal ▸ h.receivers, hjournal ▸ h.tellers⟩

theorem modifyMultiplexer (h : r.Wired n) (id : Nat) (f : Multiplexer → Multiplexer) :
    (r.modifyMultiplexer id f).Wired n := h.congr (List.length_modify ..) rfl

theorem enter (h : r.Wired n) {t : Teller} (ht : t.Below n) {receiver : Callback}
    (hreceiver : receiver.Below n) (event : Event) :
    Wired n { r with journal := ⟨t, receiver, event⟩ :: r.journal } :=
  ⟨h.length, List.forall_mem_cons.2 ⟨hreceiver, h.receivers⟩, List.forall_mem_cons.2 ⟨ht, h.tellers⟩⟩

theorem tell {receiver : Callback} (h : r.Wired n) (hreceiver : receiver.Below n) {t : Teller}
    (ht : t.Below n) (event : Event) : (r.tell t receiver event).Wired n := by
  refine tell_induction (P := Wired n) (fun _ _ _ h => h.congr (by simp) (by simp))
    (fun _ _ _ _ h => h.congr (by simp) (by simp)) (fun id _ f _ h => h.modifyMultiplexer id f)
    (fun id aggregate event hbehind h => ?_) (h.enter ht hreceiver event)
  have hbelow := hreceiver.of_behind hbehind
  exact h.enter (t := .multiplexer id) hbelow.1 hbelow.2 event

theorem addMultiplexer (h : r.Wired n) (count : Nat) : (r.addMultiplexer count).1.Wired (n + 1) where
  length := by simp [Reports.addMultiplexer, h.length]
  receivers d hd := (h.receivers d hd).mono (Nat.le_succ n)
  tellers d hd := (h.tellers d hd).mono (Nat.le_succ n)

/-- A new multiplexer has heard nothing and has said nothing. -/
theorem relay_addMultiplexer (h : r.Wired n) (count : Nat) (aggregate : Callback) :
    (r.addMultiplexer count).1.relay n aggregate = Relay.fresh count := by
  have htold : r.deliveredTo (.multiplex n aggregate) = [] := by
    refine List.filter_eq_nil_iff.2 fun d hd => ?_
    simpa using (h.receivers d (List.mem_reverse.1 hd)).ne_multiplex aggregate
  have hsaid : r.said (.multiplexer n) = [] := by
    refine List.map_eq_nil_iff.2 (List.filter_eq_nil_iff.2 fun d hd => ?_)
    have hteller := h.tellers d (List.mem_reverse.1 hd)
    simp only [decide_eq_true_eq]
    rintro heq
    rw [heq] at hteller
    exact Nat.lt_irrefl n hteller
  rw [relay, Relay.fresh]
  congr 1
  simp [Reports.addMultiplexer, ← h.length]

end Wired

theorem Says.wired {n : Nat} {may : Teller → Callback → Prop}
    (hmay : ∀ t receiver, may t receiver → receiver.Below n ∧ t.Below n) {r r' : Reports}
    (hspoken : r.Says may r') (h : r.Wired n) : r'.Wired n := by
  induction hspoken with
  | nothing => exact h
  | tell _ ht event ih => exact ih.tell (hmay _ _ ht).1 (hmay _ _ ht).2 event

end Reports

/-! ## Engines -/

namespace Engine

/-- There are `n` multiplexers, and nothing refers to others. -/
structure Wired (n : Nat) (e : Engine) : Prop where
  reports : e.reports.Wired n
  callbacks : ∀ {id op}, e.get? id = some op → op.callback.Below n
  listeners : ∀ {id op listener}, e.get? id = some op → op.listener = some listener →
    listener.Below n

namespace Wired

variable {n : Nat} {e : Engine}

theorem mayTell (h : e.Wired n) (t : Teller) (receiver : Callback) (ht : e.MayTell t receiver) :
    receiver.Below n ∧ t.Below n := by
  obtain ⟨id, op, hop, -, ⟨rfl, rfl⟩ | ⟨rfl, hlistener⟩⟩ := ht
  · exact ⟨h.callbacks hop, trivial⟩
  · exact ⟨h.listeners hop hlistener, trivial⟩

theorem evolves (h : e.Wired n) {blame : Nat → Option ProtocolError} {e' : Engine}
    (hevolves : e.Evolves blame e') : e'.Wired n := by
  have hkept : ∀ {id op'}, e'.get? id = some op' → ∃ op, e.get? id = some op ∧
      op'.callback = op.callback ∧ op'.listener = op.listener := fun {id op'} hop' => by
    cases hop : e.get? id with
    | none =>
      rw [hevolves.none hop] at hop'
      cases hop'
    | some op =>
      obtain ⟨l', hl', hlife⟩ := hevolves.lives (life?_of_get? hop)
      rw [← operation_eq hop' hl']
      exact ⟨op, rfl, congrArg Nature.callback hlife.nature, hlife.listener⟩
  refine ⟨hevolves.reports.wired h.mayTell h.reports, fun hop' => ?_, fun hop' hlistener => ?_⟩
  · obtain ⟨op, hop, hcallback, -⟩ := hkept hop'
    exact hcallback ▸ h.callbacks hop
  · obtain ⟨op, hop, -, heq⟩ := hkept hop'
    exact h.listeners hop (heq.symm.trans hlistener)

theorem listen (h : e.Wired n) (id : Nat) {listener : Callback} (hlistener : listener.Below n) :
    (e.listen id listener).1.Wired n := by
  unfold Engine.listen
  split
  · next op hop =>
    split
    · exact h
    · refine ⟨h.reports, fun {j op'} hop' => ?_, fun {j op' l} hop' hl => ?_⟩
      · rw [get?_modify] at hop'
        split at hop'
        · obtain ⟨op', hop, rfl⟩ := Option.map_eq_some_iff.1 hop'
          exact @h.callbacks _ op' hop
        · exact h.callbacks hop'
      · rw [get?_modify] at hop'
        split at hop'
        · obtain ⟨op', -, rfl⟩ := Option.map_eq_some_iff.1 hop'
          cases hl
          exact hlistener
        · exact h.listeners hop' hl
  · exact h

theorem add (h : e.Wired n) (work : Work) (idempotent : Bool) {callback : Callback}
    (hcallback : callback.Below n) : (e.add work idempotent callback).1.Wired n := by
  refine ⟨h.reports, fun {id op} hop => ?_, fun {id op l} hop hl => ?_⟩
  · rw [get?_add] at hop
    split at hop
    · cases hop
      exact hcallback
    · exact h.callbacks hop
  · rw [get?_add] at hop
    split at hop
    · cases hop
      cases hl
    · exact h.listeners hop hl

theorem addMultiplexer (h : e.Wired n) (count : Nat) :
    Wired (n + 1) { e with reports := (e.reports.addMultiplexer count).1 } where
  reports := h.reports.addMultiplexer count
  callbacks {_ _} hop := (h.callbacks hop).mono (Nat.le_succ n)
  listeners {_ _ _} hop hlistener := (h.listeners hop hlistener).mono (Nat.le_succ n)

theorem join (h : e.Wired n) {multiplexer : Callback} (hmultiplexer : multiplexer.Below n)
    (member : Nat) : (Engine.join multiplexer e member).Wired n := by
  have hlisten := h.listen member hmultiplexer
  unfold Engine.join
  split
  · next e' heq =>
    rw [heq] at hlisten
    exact hlisten
  · next e' heq =>
    rw [heq] at hlisten
    refine ⟨?_, hlisten.callbacks, hlisten.listeners⟩
    exact (hlisten.reports.tell hmultiplexer (t := .finishedEarly member) trivial _).tell
      hmultiplexer (t := .finishedEarly member) trivial _

theorem joinEach {multiplexer : Callback} (hmultiplexer : multiplexer.Below n) :
    ∀ (members : List Nat) {e : Engine}, e.Wired n →
      (e.each members (Engine.join multiplexer)).Wired n
  | [], _, h => h
  | m :: members, _, h => joinEach hmultiplexer members (h.join hmultiplexer m)

theorem batch (h : e.Wired n) (family : BatchFamily) (members : List Nat) {aggregate : Callback}
    (haggregate : aggregate.Below n) : (e.batch family members aggregate).1.Wired (n + 1) := by
  have hnumber : e.reports.multiplexers.length < n + 1 := by
    rw [h.reports.length]
    exact Nat.lt_succ_self n
  have hmultiplexer : (Callback.multiplex e.reports.multiplexers.length aggregate).Below (n + 1) :=
    ⟨hnumber, haggregate.mono (Nat.le_succ n)⟩
  exact (joinEach hmultiplexer members (h.addMultiplexer members.length)).add _ _ trivial

end Wired

/-! ## Acts -/

/-- The act goes on with operations that are there. -/
def Act.GoesOn : Act → Prop
  | fill _ _ | finishWriting _ | reset _ | receive _ _ | fail _ _ | cancel _ _ => True
  | create _ _ | batch _ _ _ | listen _ _ | complete _ _ => False

variable {e : Engine} {a : Act}

theorem goes_act (he : e.Sound) (ha : a.GoesOn) : e.Goes (e.act a) := by
  cases a with
  | fill id room => exact goes_fill he id room
  | finishWriting id => exact goes_finishWriting he id
  | reset id => exact goes_reset he id
  | receive id f => exact (goes_receive he id f).1
  | fail id error => exact (goes_fail he id error).1
  | cancel id cause => exact (goes_cancel he id cause).1
  | _ => exact ha.elim

theorem evolves_act (he : e.Steady) (ha : a.GoesOn) : e.Evolves (e.blame a) (e.act a) := by
  cases a with
  | fill id room => exact evolves_fill e id room
  | finishWriting id => exact evolves_finishWriting e id
  | reset id => exact evolves_resetTo (id + 1) e id
  | receive id f => exact evolves_receiveTo (id + 1) he.lives id f
  | fail id error => exact evolves_fail e id error
  | cancel id cause => exact evolves_cancelTo (id + 1) e id cause
  | _ => exact ha.elim

theorem evolves_run : ∀ (acts : List Act) {e : Engine}, e.Steady → (∀ a ∈ acts, a.GoesOn) →
    ∃ blame, e.Evolves blame (e.run acts)
  | [], e, _, _ => ⟨_, Evolves.refl e⟩
  | a :: acts, _, he, ha => by
    have hfirst := evolves_act he (ha a List.mem_cons_self)
    obtain ⟨blame, hrest⟩ := evolves_run acts (hfirst.steady he) fun b hb =>
      ha b (List.mem_cons_of_mem a hb)
    exact ⟨_, hfirst.trans hrest⟩

theorem goes_run : ∀ (acts : List Act) {e : Engine}, e.Sound → (∀ a ∈ acts, a.GoesOn) →
    e.Goes (e.run acts)
  | [], _, he, _ => Goes.refl he
  | a :: acts, _, he, ha => by
    have hfirst := goes_act he (ha a List.mem_cons_self)
    exact hfirst.trans (goes_run acts hfirst.sound fun b hb => ha b (List.mem_cons_of_mem a hb))

/-- What may be done to an engine from outside: operations are made for callbacks that only refer to
what exists, batches are made of single commands, and only what is one is completed by itself. -/
def Admits (e : Engine) : Act → Prop
  | .create _ callback => callback.Below e.reports.multiplexers.length
  | .batch _ members aggregate =>
    (∀ m ∈ members, e.IsSingle m) ∧ aggregate.Below e.reports.multiplexers.length
  | .listen _ listener => listener.Below e.reports.multiplexers.length
  | .complete id _ => e.IsSingle id
  | _ => True

/-- Between two acts of those that are admitted. -/
structure Orderly (e : Engine) : Prop where
  sound : e.Sound
  steady : e.Steady
  wired : e.Wired e.reports.multiplexers.length

theorem orderly_of_initial (h : e.Initial) : e.Orderly := by
  have hnone : ∀ id, e.get? id = none := fun id => by rw [get?, h.operations]; rfl
  have hmembers : ∀ id, e.members id = [] := fun id => by rw [members, hnone]; rfl
  refine ⟨⟨fun id m hm => ?_, fun {id l} hl => ?_, fun {id} _ m hm => ?_, fun {id} _ => ?_⟩,
    steady_of_initial h, ⟨⟨rfl, ?_, ?_⟩, fun {id op} hop => ?_, fun {id op l} hop => ?_⟩⟩
  · rw [hmembers] at hm
    cases hm
  · rw [Engine.get?_eq_none.1 (hnone id)] at hl
    cases hl
  · rw [hmembers] at hm
    cases hm
  · rw [heardOf, Reports.heard, Reports.heard, h.journal]
    rfl
  · rw [h.journal]
    exact List.forall_mem_nil _
  · rw [h.journal]
    exact List.forall_mem_nil _
  · rw [hnone] at hop
    cases hop
  · rw [hnone] at hop
    cases hop

theorem goes_listen (he : e.Sound) (id : Nat) (listener : Callback) :
    e.Goes (e.listen id listener).1 :=
  (becomes_listen e id listener).goes_open he ((Life.lawful_listen listener).among _)
    (isTerminal_among (Life.isTerminal_listen listener) _)

theorem goes_complete (he : e.Sound) {id : Nat} (h : e.IsSingle id) (status : Status) :
    e.Goes (e.complete id status) :=
  (becomes_complete e id status).goes_singles he (Life.lawful_complete status)
    (by simpa using members_of_isSingle h)

/-- **What may be done to an orderly engine leaves it orderly.** -/
theorem Orderly.act (he : e.Orderly) (ha : e.Admits a) : (e.act a).Orderly := by
  have hsteady := (proceeds_act he.steady a).steady he.steady
  have hwired : ∀ {n : Nat} {e' : Engine}, e'.Wired n → e'.Wired e'.reports.multiplexers.length :=
    fun h => h.reports.length.symm ▸ h
  by_cases hgoes : a.GoesOn
  · exact ⟨(goes_act he.sound hgoes).sound, hsteady,
      hwired (he.wired.evolves (evolves_act he.steady hgoes))⟩
  · cases a with
    | create command callback =>
      exact ⟨(goes_create he.sound command callback).sound, hsteady, hwired (he.wired.add _ _ ha)⟩
    | batch family members aggregate =>
      exact ⟨(goes_batch he.sound family aggregate ha.1).sound, hsteady,
        hwired (he.wired.batch family members ha.2)⟩
    | listen id listener =>
      exact ⟨(goes_listen he.sound id listener).sound, hsteady, hwired (he.wired.listen id ha)⟩
    | complete id status =>
      exact ⟨(goes_complete he.sound ha status).sound, hsteady,
        hwired (he.wired.evolves (evolves_complete e id status))⟩
    | _ => exact absurd trivial hgoes

/-- Each act is admitted when its turn comes. -/
def AdmitsAll (e : Engine) : List Act → Prop
  | [] => True
  | a :: acts => e.Admits a ∧ (e.act a).AdmitsAll acts

theorem Orderly.run : ∀ (acts : List Act) {e : Engine}, e.Orderly → e.AdmitsAll acts →
    (e.run acts).Orderly
  | [], _, he, _ => he
  | _ :: acts, _, he, h => Orderly.run acts (he.act h.1) h.2

end Engine

end ShardedCache

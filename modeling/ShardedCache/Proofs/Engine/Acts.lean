import ShardedCache.Proofs.Engine.Evolving

/-!
# Runs of an engine

Everything that can be done to operations, in any order and any number. Of each act it is said who
gets a listener by it, which callbacks it brings in and whom it blames; `Engine.Proceeds` says what
follows for lives and reports, and a run of acts is then no more than one of them
(`Engine.proceeds_run`).
-/

namespace ShardedCache

open Wire (Status Frame)

namespace Reports

/-- What follows from who was allowed to tell whom. -/
structure Grows (may : Teller → Callback → Prop) (r r' : Reports) : Prop where
  journal : ∀ d ∈ r'.journal,
    d ∈ r.journal ∨ (∃ id, d.teller = .multiplexer id) ∨ may d.teller d.receiver
  latches : ∀ latch, r.isOpen latch → r'.isOpen latch
  completions : ∀ k, (∀ t receiver, may t receiver → receiver.leadsTo k = false) →
    r'.completion k = r.completion k

variable {may may' : Teller → Callback → Prop} {r r' r'' : Reports}

theorem Says.grows (h : Says may r r') : Grows may r r' :=
  ⟨fun _ hd => h.mem_journal hd, fun _ hopen => h.isOpen hopen, fun _ hmay => h.completion_eq hmay⟩

theorem Grows.trans (h : Grows may r r') (h' : Grows may' r' r'')
    (hmay : ∀ t receiver, may' t receiver → may t receiver) : Grows may r r'' where
  journal d hd := by
    rcases h'.journal d hd with hd | hd | hd
    · exact h.journal d hd
    · exact .inr (.inl hd)
    · exact .inr (.inr (hmay _ _ hd))
  latches latch hopen := h'.latches latch (h.latches latch hopen)
  completions k hk := (h'.completions k fun _ _ h => hk _ _ (hmay _ _ h)).trans (h.completions k hk)

theorem grows_addMultiplexer (r : Reports) (count : Nat) : Grows may r (r.addMultiplexer count).1 :=
  ⟨fun _ hd => .inl hd, fun _ hopen => hopen, fun _ _ => rfl⟩

end Reports

namespace Engine

/-! ## Steady engines -/

/-- A delivery in the name of an operation went to that operation's callback, and one in the name of
its listener went to the listener that it has. -/
def Addressed (e : Engine) (d : Delivery) : Prop :=
  match d.teller with
  | .operation id => ∃ op, e.get? id = some op ∧ d.receiver = op.callback
  | .listener id => ∃ op, e.get? id = some op ∧ op.listener = some d.receiver
  | _ => True

/-- Between two acts. -/
structure Steady (e : Engine) : Prop where
  lives : ∀ {id l}, e.life? id = some l → l.Sound
  addressed : ∀ d ∈ e.reports.journal, e.Addressed d

/-- Nothing has happened yet. -/
structure Initial (e : Engine) : Prop where
  operations : e.operations = []
  journal : e.reports.journal = []

theorem steady_of_initial {e : Engine} (h : e.Initial) : e.Steady := by
  refine ⟨fun {id l} hl => ?_, fun d hd => ?_⟩
  · have hnone : e.get? id = none := by rw [get?, h.operations]; rfl
    rw [get?_of_life? hl] at hnone
    cases hnone
  · rw [h.journal] at hd
    cases hd

theorem mem_heard {r : Reports} {t : Teller} (h : r.heard t ≠ []) :
    ∃ d ∈ r.journal, d.teller = t := by
  obtain ⟨event, hevent⟩ := List.exists_mem_of_ne_nil _ h
  obtain ⟨d, hd, -⟩ := List.mem_map.1 hevent
  obtain ⟨hd, ht⟩ := List.mem_filter.1 hd
  exact ⟨d, List.mem_reverse.1 hd, by simpa using ht⟩

theorem heard_ne_nil {r : Reports} {d : Delivery} (hd : d ∈ r.journal) :
    r.heard d.teller ≠ [] := by
  refine List.ne_nil_of_mem (List.mem_map.2 ⟨d, List.mem_filter.2 ⟨List.mem_reverse.2 hd, ?_⟩, rfl⟩)
  simp

/-- An operation that does not exist has not told anybody anything. -/
theorem Steady.silent {e : Engine} (he : e.Steady) {id : Nat} (hid : e.get? id = none) :
    e.heardOf id = ([], []) := by
  refine Prod.ext ?_ ?_
  · refine Classical.byContradiction fun hne => ?_
    obtain ⟨d, hd, ht⟩ := mem_heard hne
    have haddressed := he.addressed d hd
    rw [Addressed, ht] at haddressed
    obtain ⟨op, hop, -⟩ := haddressed
    rw [hid] at hop
    cases hop
  · refine Classical.byContradiction fun hne => ?_
    obtain ⟨d, hd, ht⟩ := mem_heard hne
    have haddressed := he.addressed d hd
    rw [Addressed, ht] at haddressed
    obtain ⟨op, hop, -⟩ := haddressed
    rw [hid] at hop
    cases hop

theorem Evolves.steady {blame : Nat → Option ProtocolError} {e e' : Engine}
    (h : e.Evolves blame e') (he : e.Steady) : e'.Steady := by
  have hkept : ∀ {id op}, e.get? id = some op → ∃ op', e'.get? id = some op' ∧
      op'.callback = op.callback ∧ op'.listener = op.listener := fun hop => by
    obtain ⟨l', hl', hlife⟩ := h.lives (life?_of_get? hop)
    exact ⟨_, get?_of_life? hl', congrArg Nature.callback hlife.nature, hlife.listener⟩
  have hcallback : ∀ {id receiver}, (∃ op, e.get? id = some op ∧ receiver = op.callback) →
      ∃ op, e'.get? id = some op ∧ receiver = op.callback := by
    rintro id receiver ⟨op, hop, hr⟩
    obtain ⟨op', hop', hcallback, -⟩ := hkept hop
    exact ⟨op', hop', hr.trans hcallback.symm⟩
  have hlistener : ∀ {id receiver}, (∃ op, e.get? id = some op ∧ op.listener = some receiver) →
      ∃ op, e'.get? id = some op ∧ op.listener = some receiver := by
    rintro id receiver ⟨op, hop, hr⟩
    obtain ⟨op', hop', -, hlistener⟩ := hkept hop
    exact ⟨op', hop', hlistener.trans hr⟩
  refine ⟨fun hl' => h.life_sound he.lives hl', fun d hd => ?_⟩
  rcases h.reports.mem_journal hd with hd | ⟨id, ht⟩ | hmay
  · have haddressed := he.addressed d hd
    unfold Addressed at haddressed ⊢
    split at haddressed
    · exact hcallback haddressed
    · exact hlistener haddressed
    · trivial
  · rw [Addressed, ht]
    trivial
  · obtain ⟨id, op, hop, -, ⟨ht, hr⟩ | ⟨ht, hr⟩⟩ := hmay
    · rw [Addressed, ht]
      exact hcallback ⟨op, hop, hr⟩
    · rw [Addressed, ht]
      exact hlistener ⟨op, hop, hr⟩

end Engine

/-! ## From one engine to another -/

/-- What has become of one life. -/
structure Life.Proceeds (enlisted : Prop) (blame : Option ProtocolError) (l l' : Life) : Prop where
  nature : l'.operation.nature = l.operation.nature
  ending : l.isTerminal → l'.ending = l.ending
  error : l.isTerminal → l'.operation.error = blame.or l.operation.error
  reported : l.operation.status.isSome → l'.operation.status.isSome
  listener : l'.operation.listener = l.operation.listener ∨ enlisted ∧ l.operation.status = none

theorem Life.Evolves.proceeds {blame : Option ProtocolError} {l l' : Life} (h : l.Evolves blame l')
    (enlisted : Prop) : l.Proceeds enlisted blame l' :=
  ⟨h.nature, h.ending, h.error, h.reported, .inl h.listener⟩

theorem Life.Proceeds.refl (enlisted : Prop) (l : Life) : l.Proceeds enlisted none l :=
  (Life.Evolves.refl l).proceeds enlisted

theorem Life.Proceeds.trans {enlisted : Prop} {blame blame' : Option ProtocolError}
    {l l' l'' : Life} (h : l.Proceeds enlisted blame l') (h' : l'.Proceeds enlisted blame' l'') :
    l.Proceeds enlisted (blame'.or blame) l'' := by
  have hfollows : l.Follows l' := ⟨h.nature, h.ending⟩
  refine ⟨h'.nature.trans h.nature, fun hl => ?_, fun hl => ?_, fun hl => ?_, ?_⟩
  · exact (h'.ending (hfollows.isTerminal hl)).trans (h.ending hl)
  · rw [h'.error (hfollows.isTerminal hl), h.error hl, Option.or_assoc]
  · exact h'.reported (h.reported hl)
  · rcases h'.listener with heq | ⟨henlisted, hnone⟩
    · exact h.listener.imp_left heq.trans
    · refine .inr ⟨henlisted, ?_⟩
      cases hs : l.operation.status with
      | none => rfl
      | some s =>
        have := h.reported (by simp [hs])
        simp [hnone] at this

namespace Engine

/-- Lives have gone on. Some operations may have got a listener, some callbacks may have come in, and
some operations have been blamed. -/
structure Proceeds (enlisted : Nat → Prop) (offered : Callback → Prop)
    (blame : Nat → Option ProtocolError) (e e' : Engine) : Prop where
  lives : ∀ {id l}, e.life? id = some l →
    ∃ l', e'.life? id = some l' ∧ l.Proceeds (enlisted id) (blame id) l'
  mayTell : ∀ {t receiver}, e'.MayTell t receiver → e.MayTell t receiver ∨ offered receiver
  steady : e.Steady → e'.Steady
  reports : e.reports.Grows (fun t receiver => e.MayTell t receiver ∨ offered receiver) e'.reports

section Proceeds

variable {enlisted enlisted' : Nat → Prop} {offered offered' : Callback → Prop}
  {blame blame' : Nat → Option ProtocolError} {e e' e'' : Engine}

theorem Evolves.proceeds (h : e.Evolves blame e') (enlisted : Nat → Prop)
    (offered : Callback → Prop) : e.Proceeds enlisted offered blame e' where
  lives hl := by
    obtain ⟨l', hl', hlife⟩ := h.lives hl
    exact ⟨l', hl', hlife.proceeds _⟩
  mayTell ht := .inl (h.mayTell ht)
  steady := h.steady
  reports := (h.reports.mono fun _ _ => .inl).grows

theorem Proceeds.refl (enlisted : Nat → Prop) (offered : Callback → Prop) (e : Engine) :
    e.Proceeds enlisted offered unblamed e := (Evolves.refl e).proceeds enlisted offered

theorem Proceeds.trans (h : e.Proceeds enlisted offered blame e')
    (h' : e'.Proceeds enlisted offered blame' e'') :
    e.Proceeds enlisted offered (fun id => (blame' id).or (blame id)) e'' where
  lives hl := by
    obtain ⟨l', hl', hlife⟩ := h.lives hl
    obtain ⟨l'', hl'', hlife'⟩ := h'.lives hl'
    exact ⟨l'', hl'', hlife.trans hlife'⟩
  mayTell ht := (h'.mayTell ht).elim h.mayTell .inr
  steady he := h'.steady (h.steady he)
  reports := h.reports.trans h'.reports fun _ _ ht => ht.elim h.mayTell .inr

theorem Proceeds.mono (h : e.Proceeds enlisted offered blame e')
    (henlisted : ∀ id, enlisted id → enlisted' id) (hoffered : ∀ c, offered c → offered' c) :
    e.Proceeds enlisted' offered' blame e' where
  lives hl := by
    obtain ⟨l', hl', hlife⟩ := h.lives hl
    exact ⟨l', hl', hlife.nature, hlife.ending, hlife.error, hlife.reported,
      hlife.listener.imp_right fun ⟨h, hnone⟩ => ⟨henlisted _ h, hnone⟩⟩
  mayTell ht := (h.mayTell ht).imp_right (hoffered _)
  steady := h.steady
  reports := ⟨fun d hd => (h.reports.journal d hd).imp_right fun hd =>
      hd.imp_right fun hd => hd.imp_right (hoffered _), h.reports.latches,
    fun k hk => h.reports.completions k fun t c hc => hk t c (hc.imp_right (hoffered _))⟩

end Proceeds

/-! ## Listeners -/

/-- The engine in which one more listener has been registered, in the place of the one before. -/
def enlist (e : Engine) (id : Nat) (listener : Callback) : Engine :=
  e.modify id ({ · with listener := some listener })

theorem listen_of_none {e : Engine} {id : Nat} {op : Operation} (hop : e.get? id = some op)
    (hnone : op.status = none) (listener : Callback) :
    e.listen id listener = (e.enlist id listener, true) := by
  simp [listen, enlist, hop, hnone]

theorem get?_enlist_of_ne (e : Engine) {id j : Nat} (hj : j ≠ id) (listener : Callback) :
    (e.enlist id listener).get? j = e.get? j := by
  rw [enlist, get?_modify, if_neg (Ne.symm hj)]

section Enlist

variable {e : Engine} {id : Nat} {op : Operation} {listener : Callback}
  (hop : e.get? id = some op) (hnone : op.status = none)

include hop

theorem get?_enlist_self :
    (e.enlist id listener).get? id = some { op with listener := some listener } := by
  rw [enlist, get?_modify, if_pos rfl, hop, Option.map_some]

include hnone

theorem life_enlist {j : Nat} {l : Life} (hl : e.life? j = some l) :
    ∃ l', (e.enlist id listener).life? j = some l' ∧ l.Proceeds (j = id) none l' ∧
      (l.Sound → l'.Sound) := by
  have hlives := (becomes_modify e id ({ · with listener := some listener })).lives j
  rw [hl, Option.map_some] at hlives
  refine ⟨_, hlives, ?_⟩
  by_cases hj : j = id
  · rw [hj] at hl ⊢
    rw [among_of_mem (List.mem_singleton_self id)]
    have hstatus : l.operation.status = none := by rw [operation_eq hop hl, hnone]
    refine ⟨⟨rfl, fun _ => rfl, fun _ => rfl, fun h => h, .inr ⟨rfl, hstatus⟩⟩, fun hsound => ?_⟩
    have hlater : (l.listen listener).Sound := (Life.lawful_listen listener l hsound).1
    rwa [Life.listen, if_neg (by simp [hstatus])] at hlater
  · rw [among_of_not_mem (show j ∉ [id] by simpa using hj)]
    exact ⟨Life.Proceeds.refl _ l, fun hsound => hsound⟩

theorem mayTell_enlist {t : Teller} {receiver : Callback}
    (ht : (e.enlist id listener).MayTell t receiver) : e.MayTell t receiver ∨ receiver = listener := by
  obtain ⟨j, op', hop', hstatus, hwho⟩ := ht
  by_cases hj : j = id
  · rw [hj, get?_enlist_self hop] at hop'
    cases hop'
    rcases hwho with ⟨ht, hr⟩ | ⟨ht, hr⟩
    · exact .inl ⟨id, op, hop, hnone, .inl ⟨hj ▸ ht, hr⟩⟩
    · cases hr
      exact .inr rfl
  · rw [get?_enlist_of_ne e hj] at hop'
    exact .inl ⟨j, op', hop', hstatus, hwho⟩

/-- No one has heard anything yet who is replaced. -/
theorem addressed_enlist (he : e.Steady) {d : Delivery} (hd : d ∈ e.reports.journal) :
    (e.enlist id listener).Addressed d := by
  have haddressed := he.addressed d hd
  unfold Addressed at haddressed ⊢
  split
  · next j ht =>
    simp only [ht] at haddressed
    obtain ⟨op', hop', hr⟩ := haddressed
    by_cases hj : j = id
    · rw [hj, hop] at hop'
      cases hop'
      exact ⟨_, (congrArg _ hj).trans (get?_enlist_self hop), hr⟩
    · exact ⟨op', (get?_enlist_of_ne e hj listener).trans hop', hr⟩
  · next j ht =>
    simp only [ht] at haddressed
    obtain ⟨op', hop', hr⟩ := haddressed
    have hj : j ≠ id := fun hj => by
      -- the listener has heard something, so the outcome has been reported
      have hsound := he.lives (life?_of_get? hop)
      have hheard : (e.heardOf id).2 ≠ [] := by
        have := heard_ne_nil hd
        rwa [ht, hj] at this
      refine hheard (hsound.overheard.trans ?_)
      rw [Operation.overheard, hnone]
      cases op.listener <;> rfl
    exact ⟨op', (get?_enlist_of_ne e hj listener).trans hop', hr⟩
  · trivial

theorem proceeds_enlist :
    e.Proceeds (· = id) (· = listener) unblamed (e.enlist id listener) where
  lives hl := by
    obtain ⟨l', hl', hproceeds, -⟩ := life_enlist hop hnone hl
    exact ⟨l', hl', hproceeds⟩
  mayTell ht := mayTell_enlist hop hnone ht
  steady he := by
    refine ⟨fun {j l'} hl' => ?_, fun d hd => addressed_enlist hop hnone he hd⟩
    cases hl : e.life? j with
    | none =>
      rw [enlist, (becomes_modify e id _).lives j, hl] at hl'
      cases hl'
    | some l =>
      obtain ⟨l'', hl'', -, hsound⟩ := @life_enlist e id op listener hop hnone j l hl
      rw [hl'] at hl''
      cases hl''
      exact hsound (he.lives hl)
  reports := Reports.Says.nothing.grows

end Enlist

theorem proceeds_listen (e : Engine) (id : Nat) (listener : Callback) :
    e.Proceeds (· = id) (· = listener) unblamed (e.listen id listener).1 := by
  have hrefused : ∀ {e' : Engine}, e' = e → e.Proceeds (· = id) (· = listener) unblamed e' := by
    rintro _ rfl
    exact Proceeds.refl _ _ _
  cases hop : e.get? id with
  | none => exact hrefused (by simp [listen, hop])
  | some op =>
    cases hstatus : op.status with
    | some status => exact hrefused (by simp [listen, hop, hstatus])
    | none =>
      rw [listen_of_none hop hstatus]
      exact proceeds_enlist hop hstatus

/-! ## Making operations -/

theorem proceeds_addMultiplexer (enlisted : Nat → Prop) (offered : Callback → Prop) (e : Engine)
    (count : Nat) :
    e.Proceeds enlisted offered unblamed
      { e with reports := (e.reports.addMultiplexer count).1 } where
  lives {_ l} hl := ⟨l, hl, Life.Proceeds.refl _ l⟩
  mayTell ht := .inl ht
  steady he := ⟨fun hl => he.lives hl, he.addressed⟩
  reports := Reports.grows_addMultiplexer e.reports count

/-- An operation that had finished before it joined a batch reports to it. -/
theorem proceeds_finishedEarly (enlisted : Nat → Prop) (e : Engine) (member : Nat)
    (multiplexer : Callback) (status : Status) :
    e.Proceeds enlisted (· = multiplexer) unblamed
      { e with reports := e.reports.conclude (.finishedEarly member) multiplexer status } := by
  have hlives : ∀ id, Engine.life?
      { e with reports := e.reports.conclude (.finishedEarly member) multiplexer status } id =
        e.life? id := fun id => by
    simp [life?, get?, heardOf, Reports.heard_conclude]
  have hspoken : e.reports.Says (fun t c => t = .finishedEarly member ∧ c = multiplexer)
      (e.reports.conclude (.finishedEarly member) multiplexer status) :=
    Reports.Says.nothing.conclude ⟨rfl, rfl⟩ status
  refine ⟨fun {id l} hl => ⟨l, (hlives id).trans hl, Life.Proceeds.refl _ l⟩, .inl, fun he =>
    ⟨fun {id l} hl => he.lives ((hlives id).symm.trans hl), fun d hd => ?_⟩,
    (hspoken.mono fun _ _ h => .inr h.2).grows⟩
  rcases hspoken.mem_journal hd with hd | ⟨id, ht⟩ | ⟨ht, -⟩
  · exact he.addressed d hd
  · rw [Addressed, ht]
    trivial
  · rw [Addressed, ht]
    trivial

theorem proceeds_join (multiplexer : Callback) (e : Engine) (member : Nat) :
    e.Proceeds (· = member) (· = multiplexer) unblamed (join multiplexer e member) := by
  have hlisten := proceeds_listen e member multiplexer
  unfold join
  split
  · next e' heq =>
    rw [heq] at hlisten
    exact hlisten
  · next e' heq =>
    rw [heq] at hlisten
    exact hlisten.trans (proceeds_finishedEarly _ e' member multiplexer _)

theorem proceeds_joinEach (multiplexer : Callback) : ∀ (members : List Nat) (e : Engine),
    e.Proceeds (· ∈ members) (· = multiplexer) unblamed (e.each members (join multiplexer))
  | [], e => Proceeds.refl _ _ e
  | m :: members, e => by
    have hfirst : e.Proceeds (· ∈ m :: members) (· = multiplexer) unblamed (join multiplexer e m) :=
      (proceeds_join multiplexer e m).mono (fun id hid => hid ▸ List.mem_cons_self) fun _ h => h
    exact hfirst.trans ((proceeds_joinEach multiplexer members (join multiplexer e m)).mono
      (fun id => List.mem_cons_of_mem m) fun _ h => h)

theorem proceeds_add (enlisted : Nat → Prop) (e : Engine) (work : Work) (idempotent : Bool)
    (callback : Callback) :
    e.Proceeds enlisted (· = callback) unblamed (e.add work idempotent callback).1 := by
  have hold : ∀ {id op}, e.get? id = some op →
      (e.add work idempotent callback).1.get? id = some op := fun hop => by
    rw [get?_add, if_neg (Nat.ne_of_lt (lt_size_of_get? hop)), hop]
  have hne : ∀ {id l}, e.life? id = some l → id ≠ e.size := fun hl =>
    Nat.ne_of_lt (lt_size_of_get? (get?_of_life? hl))
  refine ⟨fun {id l} hl => ⟨l, ?_, Life.Proceeds.refl _ l⟩, fun {t receiver} ht => ?_,
    fun he => ⟨fun {id l} hl => ?_, fun d hd => ?_⟩, Reports.Says.nothing.grows⟩
  · rw [life?_add _ _ _ _ (hne hl), hl]
  · obtain ⟨id, op, hop, hnone, hwho⟩ := ht
    rw [get?_add] at hop
    split at hop
    · cases hop
      rcases hwho with ⟨-, hr⟩ | ⟨-, hr⟩
      · exact .inr hr
      · cases hr
    · exact .inl ⟨id, op, hop, hnone, hwho⟩
  · by_cases hid : id = e.size
    · rw [hid, life?_add_size, he.silent (get?_eq_none_iff.2 (Nat.le_refl _))] at hl
      cases hl
      exact ⟨rfl, Told.nothing, rfl⟩
    · rw [life?_add _ _ _ _ hid] at hl
      exact he.lives hl
  · have haddressed := he.addressed d hd
    unfold Addressed at haddressed ⊢
    split at haddressed
    · obtain ⟨op, hop, hr⟩ := haddressed
      exact ⟨op, hold hop, hr⟩
    · obtain ⟨op, hop, hr⟩ := haddressed
      exact ⟨op, hold hop, hr⟩
    · trivial

theorem proceeds_batch (e : Engine) (family : BatchFamily) (members : List Nat)
    (aggregate : Callback) :
    e.Proceeds (· ∈ members) (fun c => c = .silent ∨ ∃ m, c = .multiplex m aggregate) unblamed
      (e.batch family members aggregate).1 := by
  obtain ⟨multiplexer, idempotent, hbatch⟩ := batch_eq e family members aggregate
  rw [hbatch]
  have hjoined : e.Proceeds (· ∈ members) (fun c => c = .silent ∨ ∃ m, c = .multiplex m aggregate)
      unblamed (e.joined members aggregate) :=
    (proceeds_addMultiplexer _ _ e members.length).trans
      ((proceeds_joinEach (.multiplex e.reports.multiplexers.length aggregate) members _).mono
        (fun _ h => h) fun _ h => .inr ⟨_, h⟩)
  exact hjoined.trans ((proceeds_add _ _ _ idempotent .silent).mono (fun _ h => h) fun _ => .inl)

/-! ## Acts -/

/-- What can be done to the operations of an engine. -/
inductive Act where
  | create (command : Command) (callback : Callback)
  | batch (family : BatchFamily) (members : List Nat) (aggregate : Callback)
  | listen (id : Nat) (listener : Callback)
  | fill (id room : Nat)
  | finishWriting (id : Nat)
  | reset (id : Nat)
  | receive (id : Nat) (f : Frame)
  | fail (id : Nat) (error : ProtocolError)
  | complete (id : Nat) (status : Status)
  | cancel (id : Nat) (cause : String)

namespace Act

/-- The act puts a listener on the operation, unless that has reported its outcome. -/
def Enlists (id : Nat) : Act → Prop
  | batch _ members _ => id ∈ members
  | listen member _ => id = member
  | _ => False

/-- The act brings in the callback. -/
def Offers (receiver : Callback) : Act → Prop
  | create _ callback => receiver = callback
  | batch _ _ aggregate => receiver = .silent ∨ ∃ m, receiver = .multiplex m aggregate
  | listen _ listener => receiver = listener
  | _ => False

end Act

def act (e : Engine) : Act → Engine
  | .create command callback => (e.create command callback).1
  | .batch family members aggregate => (e.batch family members aggregate).1
  | .listen id listener => (e.listen id listener).1
  | .fill id room => (e.fill id room).1
  | .finishWriting id => e.finishWriting id
  | .reset id => (e.reset id).1
  | .receive id f => (e.receive id f).1
  | .fail id error => e.fail id error
  | .complete id status => e.complete id status
  | .cancel id cause => (e.cancel id cause).1

def run (e : Engine) (acts : List Act) : Engine := acts.foldl act e

/-- The error that an act puts on an operation. -/
def blame (e : Engine) : Act → Nat → Option ProtocolError
  | .receive id f => e.blameTo (id + 1) id f
  | .fail id error => blaming id error
  | _ => unblamed

/-- The last error that a run puts on an operation. -/
def blameRun (e : Engine) : List Act → Nat → Option ProtocolError
  | [], _ => none
  | a :: acts, id => ((e.act a).blameRun acts id).or (e.blame a id)

theorem proceeds_act {e : Engine} (he : e.Steady) (a : Act) :
    e.Proceeds (a.Enlists ·) (a.Offers ·) (e.blame a) (e.act a) := by
  cases a with
  | create command callback => exact proceeds_add _ e _ _ callback
  | batch family members aggregate => exact proceeds_batch e family members aggregate
  | listen id listener => exact proceeds_listen e id listener
  | fill id room => exact (evolves_fill e id room).proceeds _ _
  | finishWriting id => exact (evolves_finishWriting e id).proceeds _ _
  | reset id => exact (evolves_resetTo (id + 1) e id).proceeds _ _
  | receive id f => exact (evolves_receiveTo (id + 1) he.lives id f).proceeds _ _
  | fail id error => exact (evolves_fail e id error).proceeds _ _
  | complete id status => exact (evolves_complete e id status).proceeds _ _
  | cancel id cause => exact (evolves_cancelTo (id + 1) e id cause).proceeds _ _

/-- What one act does, a run does. -/
theorem proceeds_run : ∀ (acts : List Act) {e : Engine}, e.Steady →
    e.Proceeds (fun id => ∃ a ∈ acts, a.Enlists id) (fun c => ∃ a ∈ acts, a.Offers c)
      (e.blameRun acts) (e.run acts)
  | [], e, _ => Proceeds.refl _ _ e
  | a :: acts, e, he => by
    have hfirst := proceeds_act he a
    have hrest := proceeds_run acts (hfirst.steady he)
    exact (hfirst.mono (fun _ h => ⟨a, List.mem_cons_self, h⟩)
      fun _ h => ⟨a, List.mem_cons_self, h⟩).trans
        (hrest.mono (fun _ ⟨b, hb, h⟩ => ⟨b, List.mem_cons_of_mem a hb, h⟩)
          fun _ ⟨b, hb, h⟩ => ⟨b, List.mem_cons_of_mem a hb, h⟩)

theorem steady_run {e : Engine} (he : e.Steady) (acts : List Act) : (e.run acts).Steady :=
  (proceeds_run acts he).steady he

end Engine

end ShardedCache

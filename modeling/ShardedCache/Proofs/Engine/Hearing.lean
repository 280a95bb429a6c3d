import ShardedCache.Proofs.Node.Slots

/-!
# Why an operation tells what it tells

What an operation tells is only ever added to (`Engine.Adds`). A failure may be told at any time, but
a payload or a success has a reason: a response frame under the operation's own tag that reports
success, or the answer to the last request of a batch of stores (`Engine.Due`, `adds_receive`).
-/

namespace ShardedCache

open Wire (Frame Status StatusCode)

/-- Neither a payload nor a success. -/
inductive Event.IsModest : Event → Prop where
  | failure {status : Status} (h : status.code ≠ .success) : IsModest (.status status)
  | finished : IsModest .finished

/-- More events have been told, all of which may be told. -/
def Extends (may : Event → Prop) (before after : List Event) : Prop :=
  ∃ new, after = before ++ new ∧ ∀ event ∈ new, may event

section Extends

variable {may : Event → Prop} {a b c : List Event}

theorem Extends.refl (may : Event → Prop) (a : List Event) : Extends may a a :=
  ⟨[], (List.append_nil a).symm, by simp⟩

theorem Extends.trans (h : Extends may a b) (h' : Extends may b c) : Extends may a c := by
  obtain ⟨new, rfl, hnew⟩ := h
  obtain ⟨new', rfl, hnew'⟩ := h'
  exact ⟨new ++ new', List.append_assoc .., fun event hevent =>
    (List.mem_append.1 hevent).elim (hnew event) (hnew' event)⟩

/-- Every event was there before, or has been added. -/
theorem Extends.prefix_or {pre : List Event} {event : Event} (h : Extends may a b)
    (hocc : pre ++ [event] <+: b) : pre ++ [event] <+: a ∨ (a <+: pre ∧ may event) := by
  obtain ⟨new, rfl, hnew⟩ := h
  rcases Nat.lt_or_ge pre.length a.length with hlt | hge
  · refine .inl (List.prefix_of_prefix_length_le hocc (List.prefix_append a new) ?_)
    rw [List.length_append, List.length_singleton]
    omega
  · obtain ⟨between, rfl⟩ : a <+: pre :=
      List.prefix_of_prefix_length_le (List.prefix_append a new)
        ((List.prefix_append pre [event]).trans hocc) hge
    refine .inr ⟨List.prefix_append a between, hnew event ?_⟩
    rw [List.append_assoc, List.prefix_append_right_inj] at hocc
    exact hocc.subset (List.mem_append_right _ (List.mem_singleton_self event))

end Extends

/-! ## One life -/

namespace Life

/-- An operation tells its callback and its listener more, all of which it may tell. -/
structure Adds (may : Event → Prop) (l l' : Life) : Prop where
  heard : Extends may l.heard l'.heard
  overheard : Extends may l.overheard l'.overheard

section Adds

variable {may : Event → Prop}

theorem Adds.refl (may : Event → Prop) (l : Life) : l.Adds may l := ⟨.refl .., .refl ..⟩

theorem Adds.trans {l l' l'' : Life} (h : l.Adds may l') (h' : l'.Adds may l'') : l.Adds may l'' :=
  ⟨h.heard.trans h'.heard, h.overheard.trans h'.overheard⟩

/-- Nothing is told by a change to the operation alone. -/
theorem Adds.of_mapOperation {f : Operation → Operation} {l l' : Life}
    (h : (l.mapOperation f).Adds may l') : l.Adds may l' := ⟨h.heard, h.overheard⟩

theorem adds_report {status : Status} (hstatus : may (.status status)) (hfinished : may .finished)
    (l : Life) : l.Adds may (l.report status) := by
  have hoth : ∀ event ∈ [Event.status status, .finished], may event := by simp [hstatus, hfinished]
  unfold report
  split
  · exact Adds.refl may l
  · refine ⟨⟨_, rfl, hoth⟩, ?_⟩
    dsimp only
    split
    · exact ⟨_, rfl, hoth⟩
    · exact Extends.refl ..

theorem adds_hand {payload : Payload} (hpayload : may (.payload payload)) (l : Life) :
    l.Adds may (l.hand payload) := by
  unfold hand
  split
  · exact Adds.refl may l
  · exact ⟨⟨_, rfl, by simpa using hpayload⟩, .refl ..⟩

theorem adds_complete {status : Status} (hstatus : may (.status status)) (hfinished : may .finished)
    (l : Life) : l.Adds may (l.complete status) := by
  unfold complete
  split
  · exact Adds.refl may l
  · exact (adds_report hstatus hfinished _).of_mapOperation

end Adds

theorem adds_reset (may : Event → Prop) (l : Life) : l.Adds may l.reset := by
  unfold reset
  split
  · exact ⟨.refl .., .refl ..⟩
  · exact Adds.refl may l

section Modest

variable {may : Event → Prop} (hmay : ∀ event : Event, event.IsModest → may event)

include hmay

theorem adds_fail (error : ProtocolError) (l : Life) : l.Adds may (l.fail error) := by
  have hcode : (Engine.failureStatus error).code ≠ .success := by
    unfold Engine.failureStatus
    cases error.origin <;> exact nofun
  exact (adds_complete (hmay _ (.failure hcode)) (hmay _ .finished) _).of_mapOperation

theorem adds_failOpen (error : ProtocolError) (l : Life) : l.Adds may (l.failOpen error) := by
  unfold failOpen
  split
  · exact Adds.refl may l
  · exact adds_fail hmay error l

theorem adds_cancel (cause : String) (l : Life) : l.Adds may (l.cancel cause) := by
  unfold cancel
  split
  · exact Adds.refl may l
  · have hcode : (Status.cancelled cause).code ≠ .success := by simp [Status.cancelled]
    exact (adds_report (hmay _ (.failure hcode)) (hmay _ .finished) _).of_mapOperation

end Modest

end Life

/-! ## What a response says -/

/-- The frame reports success, under this tag. -/
structure Wire.Frame.Grants (f : Frame) (tag : UInt32) : Prop where
  status : f.status = Wire.noError
  tag : f.tag = tag

theorem Wire.StatusCode.ofWire_ne_success {status : UInt16} (h : status ≠ Wire.noError) :
    StatusCode.ofWire status ≠ .success := by
  unfold StatusCode.ofWire
  rw [if_neg h]
  repeat' split
  all_goals exact nofun

namespace Command

/-- The frame brings this payload. A get takes no value under another key. -/
structure Brings (c : Command) (f : Frame) (payload : Payload) : Prop where
  reads : c.payload f = .ok (some payload)
  value : ∀ key withCas, c = .get key withCas → f.extras.length = 4 ∧
    (f.key = [] ∨ f.key = Text.Utf8.encode key) ∧
    payload = .value key ⟨UInt32.ofNat (ofBigEndian f.extras), f.value⟩ f.header.cas

theorem brings_of_payload {c : Command} {f : Frame} {p : Payload} (h : c.payload f = .ok (some p)) :
    c.Brings f p := by
  refine ⟨h, fun key withCas hc => ?_⟩
  subst hc
  unfold Command.payload at h
  dsimp only at h
  split at h
  · cases h
  · next hextras =>
    split at h
    · cases h
    · next hkey =>
      cases h
      exact ⟨Decidable.not_not.1 hextras, Decidable.or_iff_not_not_and_not.2 hkey, rfl⟩

/-- A response is not a success unless it says so, under the operation's tag. -/
theorem interpret_ok {c : Command} {tag : UInt32} {f : Frame} {reply : Reply}
    (h : c.interpret tag f = .ok reply) :
    (f.Grants tag ∧ reply.status = .success ∧ c.payload f = .ok reply.payload) ∨
      (reply.status.code ≠ .success ∧ reply.payload = none) := by
  unfold interpret at h
  split at h
  · cases h
  · next htag =>
    split at h
    · next hstatus =>
      have hcode : (Status.ofWire f.status f.value).code ≠ .success := by
        unfold Status.ofWire
        dsimp only
        split <;> exact StatusCode.ofWire_ne_success hstatus
      dsimp only at h
      split at h
      · cases h
      · cases h
      · cases h
        exact .inr ⟨hcode, rfl⟩
    · next hstatus =>
      split at h
      · next payload hpayload =>
        cases h
        exact .inl ⟨⟨Decidable.not_not.1 hstatus, Decidable.not_not.1 htag⟩, rfl, hpayload⟩
      · cases h

end Command

/-- The teller is an operation, speaking to its callback or to its listener. -/
inductive Teller.Speaks (id : Nat) : Teller → Prop where
  | operation : Speaks id (.operation id)
  | listener : Speaks id (.listener id)

namespace Engine

/-- Why an operation of nature `n` may tell a payload or a success while the frame `f` is handed to
`head`. What batches tell, nobody hears. -/
inductive Due (e : Engine) (head : Nat) (f : Frame) (id : Nat) (n : Nature) : Event → Prop where
  | payload {c : Command} {payload : Payload} (hc : n.work = .single c) (hgrants : f.Grants n.tag)
    (hbrings : c.Brings f payload) : Due e head f id n (.payload payload)
  | answered {status : Status} (hgrants : f.Grants n.tag) : Due e head f id n (.status status)
  /-- A store that the server kept silent about. -/
  | stored {r : StoreRequest} {nb : Nature} {b : Batch} {status : Status}
    (hc : n.work = .single (.store r)) (hhead : e.nature? head = some nb) (hb : nb.work = .batch b)
    (hmember : id ∈ b.members) (htag : f.tag = nb.tag) : Due e head f id n (.status status)
  | batch {b : Batch} {event : Event} (hb : n.work = .batch b) : Due e head f id n event

/-- What an operation may tell while `f` is handed to `head`. -/
def MayHear (e : Engine) (head : Nat) (f : Frame) (id : Nat) (event : Event) : Prop :=
  event.IsModest ∨ ∃ n, e.nature? id = some n ∧ e.Due head f id n event

/-! ## All operations -/

/-- From one engine to the other operations tell more, all of which they may tell. -/
def Adds (may : Nat → Event → Prop) (e e' : Engine) : Prop :=
  ∀ id t, Teller.Speaks id t → Extends (may id) (e.reports.heard t) (e'.reports.heard t)

section Adds

variable {may may' : Nat → Event → Prop} {e e' e'' : Engine} {g : Nat → Life → Life}

theorem Adds.trans (h : e.Adds may e') (h' : e'.Adds may e'') : e.Adds may e'' :=
  fun id t ht => (h id t ht).trans (h' id t ht)

theorem extends_of_heardOf {id : Nat} {t : Teller} (ht : Teller.Speaks id t)
    (h : e'.heardOf id = e.heardOf id) (may : Event → Prop) :
    Extends may (e.reports.heard t) (e'.reports.heard t) := by
  have hsame : e'.reports.heard t = e.reports.heard t := by
    cases ht with
    | operation => exact congrArg Prod.fst h
    | listener => exact congrArg Prod.snd h
  rw [hsame]
  exact Extends.refl ..

theorem adds_of_heardOf (h : ∀ id, e'.heardOf id = e.heardOf id) (may : Nat → Event → Prop) :
    e.Adds may e' := fun id _ ht => extends_of_heardOf ht (h id) (may id)

theorem Becomes.adds (h : e.Becomes g e')
    (hg : ∀ id l, e.life? id = some l → l.Adds (may id) (g id l)) : e.Adds may e' := fun id t ht => by
  cases hl : e.life? id with
  | none => exact extends_of_heardOf ht (h.silent id (Engine.get?_eq_none.2 hl)) (may id)
  | some l =>
    have hl' : e'.life? id = some (g id l) := by rw [h.lives id, hl, Option.map_some]
    have hadds := hg id l hl
    obtain ⟨op, -, rfl⟩ := Option.map_eq_some_iff.1 hl
    obtain ⟨op', -, heq⟩ := Option.map_eq_some_iff.1 hl'
    rw [← heq] at hadds
    cases ht with
    | operation => exact hadds.heard
    | listener => exact hadds.overheard

theorem adds_among {may : Event → Prop} {g : Life → Life} {ids : List Nat} {id : Nat} {l : Life}
    (hg : id ∈ ids → l.Adds may (g l)) : l.Adds may (among ids g id l) := by
  unfold among
  split
  · next h => exact hg h
  · exact Life.Adds.refl may l

end Adds

/-- A cancellation is modest. -/
theorem adds_cancel {e : Engine} (hflat : e.Flat) (id : Nat) (cause : String) :
    e.Adds (fun _ => Event.IsModest) (e.cancel id cause).1 := by
  refine (becomes_cancel hflat id cause).adds fun j l _ => ?_
  split
  · exact Life.Adds.refl _ l
  · exact adds_among fun _ => Life.adds_cancel (fun _ h => h) cause l

/-- And so is a failure. -/
theorem adds_fail {e : Engine} (hflat : e.Flat) (id : Nat) (error : ProtocolError) :
    e.Adds (fun _ => Event.IsModest) (e.fail id error) :=
  (becomes_fail hflat id error).adds fun _ l _ =>
    (adds_among fun _ => Life.adds_failOpen (fun _ h => h) error l).trans
      (adds_among fun _ => Life.adds_fail (fun _ h => h) error _)

/-! ## What a frame brings -/

/-- An operation takes a payload or a success from a frame that grants it. -/
theorem adds_answer {e : Engine} {head id : Nat} {f : Frame} {l : Life} {c : Command}
    (hl : e.life? id = some l) (hc : l.operation.work = .single c) :
    l.Adds (e.MayHear head f id) (l.answer c f) := by
  have hn := nature?_of_get? (get?_of_life? hl)
  have hmodest : ∀ event : Event, event.IsModest → e.MayHear head f id event := fun _ => .inl
  unfold Life.answer
  cases hreply : c.interpret l.operation.tag f with
  | error error => exact Life.adds_fail hmodest error l
  | ok reply =>
    dsimp only
    rcases Command.interpret_ok hreply with ⟨hgrants, -, hpayload⟩ | ⟨hcode, hnone⟩
    · have hstatus : e.MayHear head f id (.status reply.status) := .inr ⟨_, hn, .answered hgrants⟩
      cases hp : reply.payload with
      | none => exact Life.adds_complete hstatus (hmodest _ .finished) l
      | some payload =>
        rw [hp] at hpayload
        exact (Life.adds_hand (.inr ⟨_, hn, .payload hc hgrants
          (Command.brings_of_payload hpayload)⟩) l).trans
            (Life.adds_complete hstatus (hmodest _ .finished) _)
    · rw [hnone]
      exact Life.adds_complete (hmodest _ (.failure hcode)) (hmodest _ .finished) l

/-- The answer to the last request of a batch brings success to stores alone. -/
theorem adds_settle {e : Engine} (hjoined : ∀ id, e.Joined id) {head id : Nat} {f : Frame}
    {op : Operation} {b : Batch} (hop : e.get? head = some op) (hb : op.work = .batch b)
    (htag : f.tag = op.tag) (hid : id ∈ b.members) {l : Life} (hl : e.life? id = some l) :
    l.Adds (e.MayHear head f id) (l.complete b.silentStatus) := by
  refine Life.adds_complete ?_ (.inl .finished) l
  cases hfamily : b.family with
  | get =>
    refine .inl (.failure ?_)
    simp [Batch.silentStatus, hfamily]
  | store =>
    obtain ⟨c, hcommand, hjoins⟩ := hjoined head _ b (nature?_of_get? hop) hb id hid
    have hn := nature?_of_get? (get?_of_life? hl)
    rw [hfamily] at hjoins
    obtain ⟨r, rfl⟩ : ∃ r, c = .store r := by
      cases c with
      | store r => exact ⟨r, rfl⟩
      | get key withCas => cases withCas <;> cases hjoins
      | _ => cases hjoins
    rw [command?, hn, Option.bind_some] at hcommand
    have hwork : l.operation.nature.work = .single (.store r) := by
      cases hw : l.operation.nature.work with
      | single c => rw [hw] at hcommand; cases hcommand; rfl
      | batch b => rw [hw] at hcommand; cases hcommand
    exact .inr ⟨_, hn, .stored hwork (nature?_of_get? hop) hb hid htag⟩

/-- **A frame brings nothing to anybody but what is due to them.** -/
theorem adds_receive {e : Engine} (he : e.Sound) (hjoined : ∀ id, e.Joined id) (head : Nat)
    (f : Frame) : e.Adds (e.MayHear head f) (e.receive head f).1 := by
  obtain ⟨g, hg, hstep⟩ := becomes_receive he.flat head f
  generalize (e.receive head f).2 = outcome at hg
  refine hstep.adds fun j l hl => ?_
  have hanswer : ∀ {m op c}, e.get? m = some op → op.work = .single c →
      l.Adds (e.MayHear head f j) (among [m] (·.answer c f) j l) := fun {m op c} hop hc =>
    adds_among fun hj => adds_answer hl (by
      rw [operation_eq (List.mem_singleton.1 hj ▸ hop) hl]
      exact hc)
  cases hg with
  | idle => exact Life.Adds.refl _ l
  | single hop hc => exact hanswer hop hc
  | @sentinel op b hop hb htag =>
    have hmembers : l.Adds (e.MayHear head f j) (among b.members (·.complete b.silentStatus) j l) :=
      adds_among fun hj => adds_settle hjoined hop hb htag hj hl
    refine hmembers.trans (adds_among fun hj => ?_)
    rw [List.mem_singleton.1 hj]
    exact Life.adds_complete (.inr ⟨_, nature?_of_get? hop, .batch hb⟩) (.inl .finished) _
  | member hop hb hm hmember hc => exact hanswer hmember hc
  | fatal hop hb hm hmember hc error =>
    have hmodest : ∀ event : Event, event.IsModest → e.MayHear head f j event := fun _ => .inl
    exact ((hanswer hmember hc).trans
      (adds_among fun _ => Life.adds_failOpen hmodest error _)).trans
        (adds_among fun _ => Life.adds_fail hmodest error _)

theorem size_receive {e : Engine} (hflat : e.Flat) (head : Nat) (f : Frame) :
    (e.receive head f).1.size = e.size := by
  obtain ⟨g, -, hstep⟩ := becomes_receive hflat head f
  exact hstep.size_eq

end Engine

end ShardedCache

import ShardedCache.Proofs.Batch.Seating
import ShardedCache.Proofs.Node.Settling
import ShardedCache.Proofs.Wire.Pieces

/-!
# Replies in order

`Queue.process` parses frame after frame. Here the frames are there already, as `Frame.drain` finds
them, and are handed one after the other to the operations that wait (`Engine.hand`,
`Queue.process_eq_hand`). If the frames come in the order of the operations, then each operation
gets what its own frames come to, members of batches included (`Engine.hand_replies`).
-/

namespace ShardedCache

open Wire (Frame FrameFault)

/-! ## Frames for one operation -/

namespace Life

/-- An operation for one command hears a frame that has its tag. -/
def hear (f : Frame) (l : Life) : Life :=
  match l.operation.work with
  | .single c => if f.tag = l.operation.tag then l.answer c f else l
  | .batch _ => l

/-- It hears each of several frames in turn. -/
def hearAll (fs : List Frame) (l : Life) : Life := fs.foldl (fun l f => l.hear f) l

@[simp] theorem hearAll_nil (l : Life) : l.hearAll [] = l := rfl

@[simp] theorem hearAll_cons (f : Frame) (fs : List Frame) (l : Life) :
    l.hearAll (f :: fs) = (l.hear f).hearAll fs := rfl

theorem hearAll_append (fs fs' : List Frame) (l : Life) :
    l.hearAll (fs ++ fs') = (l.hearAll fs).hearAll fs' := List.foldl_append

theorem hear_of_tag {f : Frame} {l : Life} {c : Command} (hc : l.operation.work = .single c)
    (htag : f.tag = l.operation.tag) : l.hear f = l.answer c f := by
  rw [hear, hc]
  exact if_pos htag

theorem hear_of_tag_ne {f : Frame} {l : Life} (htag : f.tag ≠ l.operation.tag) : l.hear f = l := by
  unfold hear
  split
  · exact if_neg htag
  · rfl

@[simp] theorem nature_hear (f : Frame) (l : Life) :
    (l.hear f).operation.nature = l.operation.nature := by
  unfold hear
  split
  · split
    · exact nature_answer _ f l
    · rfl
  · rfl

@[simp] theorem nature_hearAll : ∀ (fs : List Frame) (l : Life),
    (l.hearAll fs).operation.nature = l.operation.nature
  | [], _ => rfl
  | f :: fs, l => (nature_hearAll fs (l.hear f)).trans (nature_hear f l)

end Life

def Work.batch? : Work → Option Batch
  | .single _ => none
  | .batch b => some b

namespace Engine

def batch? (e : Engine) (id : Nat) : Option Batch := (e.nature? id).bind (·.work.batch?)

/-- Those who are concerned by what happens to an operation: itself, and its members. -/
def kin (e : Engine) (ids : List Nat) : List Nat := ids.flatMap fun id => id :: e.members id

@[simp] theorem kin_nil (e : Engine) : e.kin [] = [] := rfl

@[simp] theorem kin_cons (e : Engine) (id : Nat) (ids : List Nat) :
    e.kin (id :: ids) = id :: e.members id ++ e.kin ids := rfl

theorem mem_kin {e : Engine} {ids : List Nat} {id j : Nat} (hid : id ∈ ids) (hj : j ∈ e.kin [id]) :
    j ∈ e.kin ids :=
  List.mem_flatMap.2 ⟨id, hid, by simpa using hj⟩

theorem batch?_eq_some {e : Engine} {id : Nat} {b : Batch} :
    e.batch? id = some b ↔ ∃ op, e.get? id = some op ∧ op.work = .batch b := by
  constructor
  · intro h
    obtain ⟨n, hn, hb⟩ := Option.bind_eq_some_iff.1 h
    obtain ⟨op, hop, rfl⟩ := Option.map_eq_some_iff.1 hn
    refine ⟨op, hop, ?_⟩
    cases hwork : op.work with
    | single c => simp [Operation.nature, hwork, Work.batch?] at hb
    | batch b' =>
      simp only [Operation.nature, hwork, Work.batch?, Option.some.injEq] at hb
      rw [hb]
  · rintro ⟨op, hop, hb⟩
    simp [batch?, nature?_of_get? hop, Operation.nature, hb, Work.batch?]

theorem batch?_of_isSingle {e : Engine} {id : Nat} (h : e.IsSingle id) : e.batch? id = none := by
  obtain ⟨n, c, hn, hc⟩ := h
  simp [batch?, hn, hc, Work.batch?]

/-- What the server sends for one operation: one frame, or for a batch any frames for its members and
last the answer to its own request. -/
inductive Replies (e : Engine) (id : Nat) : List Frame → Prop where
  | single {n : Nature} {c : Command} {f : Frame} (hn : e.nature? id = some n)
    (hc : n.work = .single c) (htag : f.tag = n.tag) : Replies e id [f]
  | batch {n : Nature} {b : Batch} {front : List Frame} {last : Frame} (hn : e.nature? id = some n)
    (hb : n.work = .batch b)
    (hfront : ∀ f ∈ front, ∃ m ∈ b.members, ∃ n', e.nature? m = some n' ∧ f.tag = n'.tag)
    (hlast : last.tag = n.tag) : Replies e id (front ++ [last])

/-- The operation, or each member of it if it is a batch, has got what its own frames come to. A member
that has none gets what silence means. -/
def Served (e e' : Engine) (id : Nat) (fs : List Frame) : Prop :=
  match e.batch? id with
  | none => e'.life? id = (e.life? id).map (·.hearAll fs)
  | some b => ∀ m ∈ b.members,
    e'.life? m = (e.life? m).map fun l => (l.hearAll fs).complete b.silentStatus

/-! ## Handing frames out -/

/-- Hands to the operations that wait, in order, what a reader has found. A frame goes to the first of
them, which is done with its last frame or with a fault. Gives those who still wait. -/
def hand (e : Engine) :
    List Nat → List (Except FrameFault Frame) → List Nat × Engine × Option LinkFault
  | ids, [] => (ids, e, none)
  | ids, .error fault :: found =>
    let e := match ids with
      | [] => e
      | id :: _ => e.fail id ⟨.general, fault.reason⟩
    if fault.consumed then hand e ids.tail found else (ids.tail, e, some (.malformed fault))
  | [], .ok f :: _ => ([], e, some (.unsolicited f.tag))
  | id :: ids, .ok f :: found =>
    match e.receive id f with
    | (e, .pending) => hand e (id :: ids) found
    | (e, .done) => hand e ids found
    | (e, .fatal) => (ids, e, some (.rejected (e.text id)))

/-! ## One frame -/

section Frame

variable {e : Engine} {id : Nat} {ids : List Nat} {n : Nature} {f : Frame}
  {found : List (Except FrameFault Frame)}

theorem hand_of_pending (h : (e.receive id f).2 = .pending) :
    e.hand (id :: ids) (.ok f :: found) = (e.receive id f).1.hand (id :: ids) found := by
  rw [hand]
  split <;> simp_all

theorem hand_of_done (h : (e.receive id f).2 = .done) :
    e.hand (id :: ids) (.ok f :: found) = (e.receive id f).1.hand ids found := by
  rw [hand]
  split <;> simp_all

theorem hand_single (hflat : e.Flat) (hid : e.IsSingle id)
    (hstatus : f.status ≠ Wire.invalidArguments) :
    e.hand (id :: ids) (.ok f :: found) = (e.receive id f).1.hand ids found :=
  hand_of_done (receive_snd hflat hid hstatus)

theorem hand_error (e : Engine) (ids : List Nat) (fault : FrameFault)
    (found : List (Except FrameFault Frame)) :
    e.hand ids (.error fault :: found) =
      let e' := match ids with
        | [] => e
        | id :: _ => e.fail id ⟨.general, fault.reason⟩
      if fault.consumed then e'.hand ids.tail found
      else (ids.tail, e', some (.malformed fault)) := by
  cases ids <;> rfl

/-- What else comes for an operation that has failed is not for it. -/
theorem hand_fault {fault : FrameFault} (hconsumed : fault.consumed = true) :
    e.hand (id :: ids) (.error fault :: found) =
      (e.fail id ⟨.general, fault.reason⟩).hand ids found := by
  rw [hand_error]
  exact if_pos hconsumed

/-- A member of a batch hears the frames that have its tag. -/
theorem becomes_front (hflat : e.Flat) (htags : e.TagsDistinct) {b : Batch}
    (hn : e.nature? id = some n) (hb : n.work = .batch b) (htag : f.tag ≠ n.tag)
    (hstatus : f.status ≠ Wire.invalidArguments) :
    (e.receive id f).2 = .pending ∧ e.Becomes (among b.members (·.hear f)) (e.receive id f).1 := by
  obtain ⟨op, hop, rfl⟩ := Option.map_eq_some_iff.1 hn
  change op.work = .batch b at hb
  change f.tag ≠ op.tag at htag
  have hdeaf : ∀ {j l}, e.life? j = some l → l.operation.tag ≠ f.tag →
      among b.members (·.hear f) j l = l := fun {j l} _ hne => by
    unfold among
    split
    · exact Life.hear_of_tag_ne (Ne.symm hne)
    · rfl
  cases hm : e.memberByTag? b f.tag with
  | none =>
    have hstep : e.receive id f = (e, .pending) := by simp [receive, receiveTo, hop, hb, htag, hm]
    rw [hstep]
    refine ⟨rfl, (Becomes.refl e).congr fun j l hl => ?_⟩
    by_cases hj : j ∈ b.members
    · refine (hdeaf hl fun heq => ?_).symm
      have := List.find?_eq_none.1 hm j (List.mem_reverse.2 hj)
      simp [get?_of_life? hl, heq] at this
    · rw [among_of_not_mem hj]
  | some m =>
    have hmem := mem_of_memberByTag? hm
    obtain ⟨member, hmember, hmtag⟩ := get?_of_memberByTag? hm
    obtain ⟨hlt, n', c, hn', hc⟩ := hflat id m (members_of_batch hop hb ▸ hmem)
    rw [nature?_of_get? hmember] at hn'
    cases hn'
    change member.work = .single c at hc
    obtain ⟨depth, rfl⟩ := Nat.exists_eq_succ_of_ne_zero (Nat.ne_zero_of_lt hlt)
    obtain ⟨hbecomes, hpending⟩ := (receiveTo_member depth hflat hop hb htag hm hmember hc).1
      fun hfatal => hstatus (beq_iff_eq.1 (isConnectionFatal_of_frameOutcome hfatal))
    refine ⟨hpending, hbecomes.congr fun j l hl => ?_⟩
    by_cases hj : j = m
    · rw [hj, among_of_mem (List.mem_singleton_self m), among_of_mem hmem]
      have hop' := operation_eq (hj ▸ hmember) hl
      exact (Life.hear_of_tag (by rw [hop', hc]) (by rw [hop', hmtag])).symm
    · rw [among_of_not_mem (show j ∉ [m] by simpa using hj)]
      refine (hdeaf hl fun heq => hj ?_).symm
      exact htags (nature?_of_get? (get?_of_life? hl)) (nature?_of_get? hmember) (heq.trans hmtag.symm)

end Frame

/-! ## The frames of one operation -/

/-- Of all operations only these may have changed, and none of them in its nature. -/
structure Within (e : Engine) (ids : List Nat) (e' : Engine) : Prop where
  sound : e'.Sound
  nature : ∀ id, e'.nature? id = e.nature? id
  others : ∀ id, id ∉ ids → e'.life? id = e.life? id

section Within

variable {e e' e'' : Engine} {ids ids' : List Nat}

theorem Within.refl (he : e.Sound) (ids : List Nat) : e.Within ids e :=
  ⟨he, fun _ => rfl, fun _ _ => rfl⟩

theorem Within.trans (h : e.Within ids e') (h' : e'.Within ids' e'') : e.Within (ids ++ ids') e'' where
  sound := h'.sound
  nature id := (h'.nature id).trans (h.nature id)
  others id hid := by
    rw [List.mem_append, not_or] at hid
    exact (h'.others id hid.2).trans (h.others id hid.1)

theorem Becomes.within {g : Nat → Life → Life} (h : e.Becomes g e') (hgoes : e.Goes e')
    (hnature : ∀ id, Life.KeepsNature (g id)) (hg : ∀ id, id ∉ ids → g id = fun l => l) :
    e.Within ids e' where
  sound := hgoes.sound
  nature := h.nature?_eq hnature
  others id hid := by
    rw [h.lives id, hg id hid]
    exact Option.map_id'

theorem Within.batch?_eq (h : e.Within ids e') (id : Nat) : e'.batch? id = e.batch? id := by
  rw [batch?, h.nature, ← batch?]

theorem Within.members_eq (h : e.Within ids e') (id : Nat) : e'.members id = e.members id := by
  rw [members_eq_nature?, h.nature, ← members_eq_nature?]

theorem Within.kin_eq (h : e.Within ids e') (ids : List Nat) : e'.kin ids = e.kin ids := by
  simp only [kin, h.members_eq]

theorem Within.replies (h : e.Within ids e') {id : Nat} {fs : List Frame} (hfs : e.Replies id fs) :
    e'.Replies id fs := by
  cases hfs with
  | single hn hc htag => exact .single ((h.nature _).trans hn) hc htag
  | batch hn hb hfront hlast =>
    refine .batch ((h.nature _).trans hn) hb (fun f hf => ?_) hlast
    obtain ⟨m, hm, n', hn', htag⟩ := hfront f hf
    exact ⟨m, hm, n', (h.nature m).trans hn', htag⟩

end Within

theorem members_of_batch? {e : Engine} {id : Nat} {b : Batch} (h : e.batch? id = some b) :
    e.members id = b.members := by
  obtain ⟨op, hop, hb⟩ := batch?_eq_some.1 h
  exact members_of_batch hop hb

section Served

variable {e e' e'' : Engine} {id : Nat} {ids : List Nat} {fs : List Frame}
  (hapart : ∀ j ∈ e.kin [id], j ∉ ids)

include hapart

/-- Who is served is served whatever has become of others before. -/
theorem Served.after (h : e.Within ids e') (hserved : e'.Served e'' id fs) : e.Served e'' id fs := by
  unfold Served at hserved ⊢
  rw [h.batch?_eq] at hserved
  cases hbatch : e.batch? id with
  | none =>
    rw [hbatch] at hserved
    rw [← h.others id (hapart id (by simp))]
    exact hserved
  | some b =>
    rw [hbatch] at hserved
    intro m hm
    rw [← h.others m (hapart m (by simp [members_of_batch? hbatch, hm]))]
    exact hserved m hm

/-- Who has been served stays so, whatever becomes of others. -/
theorem Served.before (hserved : e.Served e' id fs) (h : e'.Within ids e'') : e.Served e'' id fs := by
  unfold Served at hserved ⊢
  cases hbatch : e.batch? id with
  | none =>
    rw [hbatch] at hserved
    exact (h.others id (hapart id (by simp))).trans hserved
  | some b =>
    rw [hbatch] at hserved
    exact fun m hm =>
      (h.others m (hapart m (by simp [members_of_batch? hbatch, hm]))).trans (hserved m hm)

end Served

/-- The members of a batch hear the frames before its last one. -/
theorem hand_front (ids : List Nat) (found : List (Except FrameFault Frame)) {id : Nat} {n : Nature}
    {b : Batch} (hb : n.work = .batch b) : ∀ {front : List Frame} {e : Engine}, e.Sound →
      e.TagsDistinct → e.nature? id = some n →
      (∀ f ∈ front, f.tag ≠ n.tag ∧ f.status ≠ Wire.invalidArguments) →
        ∃ e', e.hand (id :: ids) (front.map .ok ++ found) = e'.hand (id :: ids) found ∧
          e.Goes e' ∧ e.Becomes (among b.members (·.hearAll front)) e' := by
  intro front
  induction front with
  | nil =>
    intro e he _ _ _
    refine ⟨e, rfl, Goes.refl he, (Becomes.refl e).congr fun j l _ => ?_⟩
    unfold among
    split <;> rfl
  | cons f front ih =>
    intro e he htags hn hfront
    obtain ⟨htag, hstatus⟩ := hfront f List.mem_cons_self
    obtain ⟨hpending, hbecomes⟩ := becomes_front he.flat htags hn hb htag hstatus
    have hgoes := (goes_receive he id f).1
    have hnature := hbecomes.nature?_eq (keepsNature_among (Life.nature_hear f) b.members)
    obtain ⟨e', hhand, hgoes', hbecomes'⟩ := ih hgoes.sound (htags.congr hnature)
      ((hnature id).trans hn) fun g hg => hfront g (List.mem_cons_of_mem f hg)
    refine ⟨e', ?_, hgoes.trans hgoes', (hbecomes.trans hbecomes').congr fun j l _ => ?_⟩
    · rw [List.map_cons, List.cons_append, hand_of_pending hpending, hhand]
    · rw [among_among]
      rfl

/-- The answer to the last request of a batch settles its members. -/
theorem hand_sentinel (ids : List Nat) (found : List (Except FrameFault Frame)) {e : Engine}
    (he : e.Sound) {id : Nat} {n : Nature} {b : Batch} (hn : e.nature? id = some n)
    (hb : n.work = .batch b) {last : Frame} (htag : last.tag = n.tag) :
    ∃ e', e.hand (id :: ids) (.ok last :: found) = e'.hand ids found ∧ e.Goes e' ∧
      e.Becomes (fun j l => among [id] (·.complete .success) j
        (among b.members (·.complete b.silentStatus) j l)) e' := by
  obtain ⟨op, hop, rfl⟩ := Option.map_eq_some_iff.1 hn
  obtain ⟨hbecomes, hdone⟩ := receiveTo_sentinel id he.flat hop hb htag
  exact ⟨_, hand_of_done hdone, (goes_receive he id last).1, hbecomes⟩

/-- The frames of one operation serve it and leave the others alone. -/
theorem hand_own (ids : List Nat) (found : List (Except FrameFault Frame)) {e : Engine}
    (he : e.Sound) (htags : e.TagsDistinct) {id : Nat} {fs : List Frame} (hfs : e.Replies id fs)
    (hstatus : ∀ f ∈ fs, f.status ≠ Wire.invalidArguments) :
    ∃ e', e.hand (id :: ids) (fs.map .ok ++ found) = e'.hand ids found ∧ e.Served e' id fs ∧
      e.Within (e.kin [id]) e' := by
  cases hfs with
  | @single n c f hn hc htag =>
    have hsingle : e.IsSingle id := ⟨n, c, hn, hc⟩
    obtain ⟨op, hop, rfl⟩ := Option.map_eq_some_iff.1 hn
    change op.work = .single c at hc
    have hbecomes : e.Becomes (among [id] (·.answer c f)) (e.receive id f).1 :=
      (receiveTo_single id he.flat hop hc f).1
    refine ⟨_, hand_single he.flat hsingle (hstatus f List.mem_cons_self), ?_,
      hbecomes.within (goes_receive he id f).1 (keepsNature_among (Life.nature_answer c f) _)
        fun j hj => among_of_not_mem (fun hmem => hj ?_) _⟩
    · rw [Served, batch?_of_isSingle hsingle]
      dsimp only
      rw [hbecomes.lives id, among_of_mem (List.mem_singleton_self id), life?_of_get? hop,
        Option.map_some, Option.map_some]
      exact congrArg some (Life.hear_of_tag hc htag).symm
    · simp [List.mem_singleton.1 hmem]
  | @batch n b front last hn hb hfront hlast =>
    have hbatch : e.batch? id = some b := by simp [batch?, hn, hb, Work.batch?]
    have hmembers := members_of_batch? hbatch
    have hne : ∀ m ∈ b.members, m ≠ id := fun m hm =>
      Nat.ne_of_lt (he.flat id m (hmembers ▸ hm)).1
    have hfront' : ∀ f ∈ front, f.tag ≠ n.tag ∧ f.status ≠ Wire.invalidArguments := by
      intro f hf
      obtain ⟨m, hm, n', hn', htag⟩ := hfront f hf
      refine ⟨fun heq => hne m hm (htags hn' hn (htag.symm.trans heq)), ?_⟩
      exact hstatus f (List.mem_append_left _ hf)
    obtain ⟨e₁, hhand₁, hgoes₁, hbecomes₁⟩ := hand_front ids (.ok last :: found) hb he htags hn
      hfront'
    have hnature₁ := hbecomes₁.nature?_eq (keepsNature_among (Life.nature_hearAll front) b.members)
    obtain ⟨e₂, hhand₂, hgoes₂, hbecomes₂⟩ := hand_sentinel ids found hgoes₁.sound
      ((hnature₁ id).trans hn) hb hlast
    have hboth := hbecomes₁.trans hbecomes₂
    refine ⟨e₂, ?_, ?_, hboth.within (hgoes₁.trans hgoes₂) (fun j l => ?_) fun j hj => ?_⟩
    · rw [List.map_append, List.append_assoc]
      exact hhand₁.trans hhand₂
    · rw [Served, hbatch]
      intro m hm
      rw [hboth.lives m]
      refine Option.map_congr fun l hl => ?_
      have hdeaf : last.tag ≠ (l.hearAll front).operation.tag := fun heq => by
        have htag : (l.hearAll front).operation.tag = l.operation.tag :=
          congrArg Nature.tag (Life.nature_hearAll front l)
        refine hne m hm (htags (nature?_of_get? (get?_of_life? hl)) hn ?_)
        exact htag.symm.trans (heq.symm.trans hlast)
      rw [among_of_mem hm, among_of_mem hm, among_of_not_mem (by simpa using hne m hm),
        Life.hearAll_append]
      exact congrArg (Life.complete b.silentStatus) (Life.hear_of_tag_ne hdeaf).symm
    · rw [keepsNature_among (Life.nature_complete _), keepsNature_among (Life.nature_complete _),
        keepsNature_among (Life.nature_hearAll front)]
    · simp only [kin_cons, kin_nil, List.append_nil, List.mem_cons, not_or, hmembers] at hj
      rw [among_of_not_mem hj.2, among_of_not_mem hj.2, among_of_not_mem (by simpa using hj.1)]

/-- **Frames that come in the order of the operations serve each of them.** -/
theorem hand_replies : ∀ {ids : List Nat} {groups : List (List Frame)} {e : Engine}, e.Sound →
    e.TagsDistinct → (e.kin ids).Nodup → List.Forall₂ e.Replies ids groups →
    (∀ f ∈ groups.flatten, f.status ≠ Wire.invalidArguments) →
      ∃ e', e.hand ids (groups.flatten.map .ok) = ([], e', none) ∧
        List.Forall₂ (e.Served e') ids groups ∧ e.Within (e.kin ids) e' := by
  intro ids
  induction ids with
  | nil =>
    intro groups e he _ _ hgroups _
    cases hgroups
    exact ⟨e, rfl, .nil, Within.refl he _⟩
  | cons id ids ih =>
    intro groups e he htags hnodup hgroups hstatus
    cases hgroups with
    | @cons _ fs _ groups hfs hgroups =>
      obtain ⟨e₁, hhand₁, hserved₁, hwithin₁⟩ := hand_own ids (groups.flatten.map .ok) he htags
        hfs fun f hf => hstatus f (by simp [hf])
      rw [kin_cons, ← hwithin₁.kin_eq ids] at hnodup
      obtain ⟨hfirst, hrest, hapart⟩ := List.nodup_append.1 hnodup
      obtain ⟨e₂, hhand₂, hserved₂, hwithin₂⟩ := ih hwithin₁.sound (htags.congr hwithin₁.nature) hrest
        (hgroups.imp fun _ _ => hwithin₁.replies) fun f hf => hstatus f (by
          rw [List.flatten_cons]
          exact List.mem_append_right _ hf)
      refine ⟨e₂, ?_, .cons (hserved₁.before (fun j hj hj' => ?_) hwithin₂) ?_, ?_⟩
      · rw [List.flatten_cons, List.map_append, hhand₁, hhand₂]
      · exact hapart j (by simpa using hj) j hj' rfl
      · refine List.forall₂_iff_zip.2 ⟨hserved₂.length_eq, fun {x gs} hx => ?_⟩
        refine ((List.forall₂_iff_zip.1 hserved₂).2 hx).after (fun j hj hj' => ?_) hwithin₁
        refine hapart j (by simpa using hj') j ?_ rfl
        rw [hwithin₁.kin_eq]
        exact mem_kin (List.of_mem_zip hx).1 hj
      · rw [kin_cons]
        have := hwithin₁.trans hwithin₂
        rwa [hwithin₁.kin_eq, kin_cons, kin_nil, List.append_nil] at this

end Engine

/-- Processing hands out what is found in the read buffer. -/
theorem Queue.process_eq_hand (q : Queue) (e : Engine) :
    ((q.process e).1.readQueue, (q.process e).2) =
      e.hand q.readQueue (Frame.drain Wire.responseMagic q.readBuffer).1 := by
  fun_induction process q e with
  | case1 q e hparse =>
    rw [Frame.drain_of_incomplete hparse]
    rfl
  | case2 q e f rest hparse q' hq =>
    rw [Frame.drain_of_frame hparse, hq]
    rfl
  | case3 q e f rest hparse q' id waiting hq e' hreceive ih =>
    rw [Frame.drain_of_frame hparse, hq, Engine.hand, hreceive, ih]
    simp only [q', hq]
  | case4 q e f rest hparse q' id waiting hq e' hreceive ih =>
    rw [Frame.drain_of_frame hparse, hq, Engine.hand, hreceive, ih]
  | case5 q e f rest hparse q' id waiting hq e' hreceive =>
    rw [Frame.drain_of_frame hparse, hq, Engine.hand, hreceive]
  | case6 q e fault rest hparse e' q' hconsumed ih =>
    rw [Frame.drain_of_fault hparse hconsumed, Engine.hand_error, ih]
    exact (if_pos hconsumed).symm
  | case7 q e fault rest hparse e' q' hstuck =>
    rw [Frame.drain_of_stuck hparse hstuck, Engine.hand_error]
    exact (if_neg hstuck).symm

end ShardedCache

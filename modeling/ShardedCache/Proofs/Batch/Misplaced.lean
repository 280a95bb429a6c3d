import Mathlib.Data.List.Perm.Basic
import Mathlib.Data.List.TakeWhile
import ShardedCache.Proofs.Node.Custody
import ShardedCache.Proofs.Node.Handing

/-!
# A malformed frame among the replies to a batch

A frame that cannot be read is charged to the operation at the head of the read queue, which waits for
nothing more after that. If this is a batch, the replies to its other members and the answer to its own
request are still on their way, and go to whoever waits behind it. A batch takes no notice of them. An
operation for one command takes the first of them for its own reply, so that its own reply is one more
that is left over. `Queue.malformed_in_batch` says what becomes of everyone.
-/

namespace ShardedCache

open Wire (Frame FrameFault)

namespace Engine

theorem kin_append (e : Engine) (ids ids' : List Nat) : e.kin (ids ++ ids') = e.kin ids ++ e.kin ids' :=
  List.flatMap_append

/-- The frame is for none of these, nor for a member of theirs. -/
def Stray (e : Engine) (ids : List Nat) (f : Frame) : Prop :=
  ∀ j ∈ e.kin ids, ∀ n, e.nature? j = some n → f.tag ≠ n.tag

/-- The operation was handed a frame that was not for it. -/
def Misled (e e' : Engine) (id : Nat) : Prop :=
  ∃ n found, e.nature? id = some n ∧ found ≠ n.tag ∧
    e'.life? id = (e.life? id).map (·.fail ⟨.general, (ReplyFlaw.otherTag found n.tag).message⟩)

section Stray

variable {e e' e'' : Engine} {id : Nat} {ids ids' : List Nat} {f : Frame}

/-- For a batch these are frames for its members, and the answer to its own request. -/
theorem Replies.of_batch {n : Nature} {b : Batch} {front : List Frame} {last : Frame}
    (h : e.Replies id (front ++ [last])) (hn : e.nature? id = some n) (hb : n.work = .batch b) :
    (∀ f ∈ front, ∃ m ∈ b.members, ∃ n', e.nature? m = some n' ∧ f.tag = n'.tag) ∧
      last.tag = n.tag := by
  generalize hfs : front ++ [last] = fs at h
  cases h with
  | single hn' hc =>
    rw [hn] at hn'
    cases hn'
    rw [hb] at hc
    cases hc
  | batch hn' hb' hfront hlast =>
    rw [hn] at hn'
    cases hn'
    rw [hb] at hb'
    cases hb'
    obtain ⟨rfl, heq⟩ := List.append_inj' hfs rfl
    cases heq
    exact ⟨hfront, hlast⟩

theorem Stray.within (h : e.Within ids' e') (hf : e.Stray ids f) : e'.Stray ids f := by
  intro j hj n hn
  rw [h.kin_eq] at hj
  rw [h.nature] at hn
  exact hf j hj n hn

theorem Misled.after (hmisled : e'.Misled e'' id) (hid : id ∉ ids) (h : e.Within ids e') :
    e.Misled e'' id := by
  obtain ⟨n, found, hn, htag, hlife⟩ := hmisled
  rw [h.nature] at hn
  rw [h.others id hid] at hlife
  exact ⟨n, found, hn, htag, hlife⟩

theorem Misled.before (hmisled : e.Misled e' id) (hid : id ∉ ids) (h : e'.Within ids e'') :
    e.Misled e'' id := by
  obtain ⟨n, found, hn, htag, hlife⟩ := hmisled
  exact ⟨n, found, hn, htag, (h.others id hid).trans hlife⟩

/-- What is for some is foreign to all others. -/
theorem stray_of_kin (htags : e.TagsDistinct) {j : Nat} {n : Nature} (hj : j ∉ e.kin ids)
    (hn : e.nature? j = some n) (hf : f.tag = n.tag) : e.Stray ids f := by
  intro k hk n' hn' heq
  refine hj ?_
  rwa [htags hn hn' (hf.symm.trans heq)]

/-- A batch takes no notice of a foreign frame. -/
theorem hand_stray {b : Batch} (hb : e.batch? id = some b) (hf : e.Stray [id] f)
    {found : List (Except FrameFault Frame)} :
    e.hand (id :: ids) (.ok f :: found) = e.hand (id :: ids) found := by
  obtain ⟨op, hop, hwork⟩ := batch?_eq_some.1 hb
  have htag : f.tag ≠ op.tag := hf id (by simp) op.nature (nature?_of_get? hop)
  have hnone : e.memberByTag? b f.tag = none := by
    refine List.find?_eq_none.2 fun m hm hfound => ?_
    obtain ⟨member, hmember, hmtag⟩ := (Option.any_eq_true _ _).1 hfound
    refine hf m ?_ member.nature (nature?_of_get? hmember) (beq_iff_eq.1 hmtag).symm
    simp [members_of_batch? hb, List.mem_reverse.1 hm]
  have hstep : e.receive id f = (e, .pending) := by
    simp [receive, receiveTo, hop, hwork, htag, hnone]
  rw [hand_of_pending (by rw [hstep]), hstep]

theorem hand_allStray {b : Batch} (hb : e.batch? id = some b)
    {found : List (Except FrameFault Frame)} : ∀ {strays : List Frame},
      (∀ f ∈ strays, e.Stray [id] f) →
        e.hand (id :: ids) (strays.map .ok ++ found) = e.hand (id :: ids) found
  | [], _ => rfl
  | f :: strays, hstrays => by
    rw [List.map_cons, List.cons_append, hand_stray hb (hstrays f List.mem_cons_self)]
    exact hand_allStray hb fun g hg => hstrays g (List.mem_cons_of_mem f hg)

/-- An operation for one command takes a foreign frame for its own. -/
theorem hand_misled (ids : List Nat) (found : List (Except FrameFault Frame)) (he : e.Sound)
    (hid : e.IsSingle id) (hf : e.Stray [id] f) (hstatus : f.status ≠ Wire.invalidArguments) :
    ∃ e', e.hand (id :: ids) (.ok f :: found) = e'.hand ids found ∧ e.Misled e' id ∧
      e.Within (e.kin [id]) e' := by
  have hstep : e.hand (id :: ids) (.ok f :: found) = (e.receive id f).1.hand ids found :=
    hand_single he.flat hid hstatus
  obtain ⟨n, c, hn, hc⟩ := hid
  obtain ⟨op, hop, rfl⟩ := Option.map_eq_some_iff.1 hn
  have htag : f.tag ≠ op.tag := hf id (by simp) _ hn
  have hbecomes : e.Becomes (among [id] (·.answer c f)) (e.receive id f).1 :=
    (receiveTo_single id he.flat hop hc f).1
  refine ⟨_, hstep, ⟨_, f.tag, hn, htag, ?_⟩,
    hbecomes.within (goes_receive he id f).1 (keepsNature_among (Life.nature_answer c f) _)
      fun j hj => among_of_not_mem (fun hmem => hj ?_) _⟩
  · rw [hbecomes.lives, among_of_mem (List.mem_singleton_self id), life?_of_get? hop,
      Option.map_some, Option.map_some]
    have hinterpret : c.interpret op.tag f =
        .error ⟨.general, (ReplyFlaw.otherTag f.tag op.tag).message⟩ := if_pos htag
    simp only [Life.answer, hinterpret]
    rfl
  · simp [List.mem_singleton.1 hmem]

end Stray

/-- Operations for one command that wait where frames are left over are all misled. As many frames are
left over behind them. -/
theorem hand_singles {rest : List Nat} (found : List (Except FrameFault Frame)) :
    ∀ {singles : List Nat} {own : List (List Frame)} {strays : List Frame} {e : Engine}, e.Sound →
      e.TagsDistinct → (e.kin (singles ++ rest)).Nodup → (∀ x ∈ singles, e.batch? x = none) →
      List.Forall₂ e.Replies singles own → strays ≠ [] →
      (∀ f ∈ strays, e.Stray (singles ++ rest) f) →
      (∀ f ∈ strays ++ own.flatten, f.status ≠ Wire.invalidArguments) →
        ∃ e' strays', strays' ≠ [] ∧ (∀ f ∈ strays', e'.Stray rest f) ∧
          e.hand (singles ++ rest) ((strays ++ own.flatten).map .ok ++ found) =
            e'.hand rest (strays'.map .ok ++ found) ∧
          (∀ x ∈ singles, e.Misled e' x) ∧ e.Within (e.kin singles) e' := by
  intro singles
  induction singles with
  | nil =>
    intro own strays e he _ _ _ hown hne hstray _
    cases hown
    exact ⟨e, strays, hne, hstray, by simp, by simp, Within.refl he _⟩
  | cons x singles ih =>
    intro own strays e he htags hnodup hsingles hown hne hstray hstatus
    cases hown with
    | @cons _ fs _ own hfs hown =>
    cases strays with
    | nil => exact absurd rfl hne
    | cons f strays =>
    obtain ⟨n, c, g, rfl, hn, hc, hg⟩ : ∃ (n : Nature) (c : Command) (g : Frame),
        fs = [g] ∧ e.nature? x = some n ∧ n.work = .single c ∧ g.tag = n.tag := by
      cases hfs with
      | single hn hc htag => exact ⟨_, _, _, rfl, hn, hc, htag⟩
      | batch hn hb =>
        have := hsingles x List.mem_cons_self
        simp [batch?, hn, hb, Work.batch?] at this
    rw [List.cons_append, kin_cons] at hnodup
    obtain ⟨-, hrest, hapart⟩ := List.nodup_append.1 hnodup
    have hx : x ∉ e.kin (singles ++ rest) := fun hmem => hapart x List.mem_cons_self x hmem rfl
    have hkin : ∀ {j}, j ∈ e.kin [x] → j ∈ e.kin (x :: singles ++ rest) := fun hj =>
      mem_kin (by simp) hj
    obtain ⟨e₁, hhand₁, hmisled₁, hwithin₁⟩ := hand_misled (singles ++ rest)
      ((strays ++ ([g] :: own).flatten).map .ok ++ found) he ⟨n, c, hn, hc⟩
      (fun j hj => hstray f List.mem_cons_self j (hkin hj)) (hstatus f List.mem_cons_self)
    have hleft : ∀ f' ∈ strays ++ [g], e₁.Stray (singles ++ rest) f' := by
      intro f' hf'
      refine Stray.within hwithin₁ ?_
      rcases List.mem_append.1 hf' with hf' | hf'
      · intro j hj
        exact hstray f' (List.mem_cons_of_mem f hf') j (by simp [hj])
      · rw [List.mem_singleton.1 hf']
        exact stray_of_kin htags hx hn hg
    obtain ⟨e₂, strays₂, hne₂, hstray₂, hhand₂, hmisled₂, hwithin₂⟩ :=
      ih hwithin₁.sound (htags.congr hwithin₁.nature) (by rwa [hwithin₁.kin_eq])
        (fun y hy => (hwithin₁.batch?_eq y).trans (hsingles y (List.mem_cons_of_mem x hy)))
        (hown.imp fun _ _ => hwithin₁.replies) (by simp) hleft
        fun f' hf' => hstatus f' (List.mem_cons_of_mem f (by simpa using hf'))
    refine ⟨e₂, strays₂, hne₂, hstray₂, ?_, fun y hy => ?_, ?_⟩
    · rw [List.append_assoc] at hhand₂
      exact hhand₁.trans hhand₂
    · rcases List.mem_cons.1 hy with rfl | hy
      · refine hmisled₁.before (fun hmem => hx ?_) hwithin₂
        rw [hwithin₁.kin_eq] at hmem
        rw [kin_append]
        exact List.mem_append_left _ hmem
      · refine (hmisled₂ y hy).after (fun hmem => ?_) hwithin₁
        have hkin : y ∈ e.kin (singles ++ rest) := mem_kin (List.mem_append_left rest hy) (by simp)
        exact hapart y (by simpa using hmem) y hkin rfl
    · rw [kin_cons]
      have := hwithin₁.trans hwithin₂
      rwa [hwithin₁.kin_eq, kin_cons, kin_nil, List.append_nil] at this

/-- Those at the front of a line that are no batches. -/
def singles (e : Engine) (ids : List Nat) : List Nat := ids.takeWhile fun x => (e.batch? x).isNone

theorem drop_singles (e : Engine) (ids : List Nat) :
    ids.drop (e.singles ids).length = ids.dropWhile fun x => (e.batch? x).isNone := by
  have hdrop : (e.singles ids ++ ids.dropWhile fun x => (e.batch? x).isNone).drop
      (e.singles ids).length = ids.dropWhile fun x => (e.batch? x).isNone := List.drop_left
  rwa [singles, List.takeWhile_append_dropWhile] at hdrop

theorem singles_append_drop (e : Engine) (ids : List Nat) :
    e.singles ids ++ ids.drop (e.singles ids).length = ids := by
  rw [drop_singles]
  exact List.takeWhile_append_dropWhile

/-- What comes behind them begins with a batch. -/
theorem batch?_of_drop_singles {e : Engine} {ids : List Nat} {x : Nat} {rest : List Nat}
    (h : ids.drop (e.singles ids).length = x :: rest) : ∃ b, e.batch? x = some b := by
  rw [drop_singles] at h
  have hne : ids.dropWhile (fun x => (e.batch? x).isNone) ≠ [] := by simp [h]
  have hhead := List.head_dropWhile_not (fun x => (e.batch? x).isNone) hne
  simp only [h, List.head_cons, Option.isNone_eq_false_iff] at hhead
  exact Option.isSome_iff_exists.1 hhead

theorem batch?_of_mem_singles {e : Engine} {ids : List Nat} {x : Nat} (h : x ∈ e.singles ids) :
    e.batch? x = none :=
  have hnone : (e.batch? x).isNone = true :=
    @List.mem_takeWhile_imp _ (fun x => (e.batch? x).isNone) _ _ h
  Option.isNone_iff_eq_none.1 hnone

/-- Frames are left over, and after them those for the operations that wait come in order. The
operations up to the next batch are misled; that batch and all behind it are served. -/
theorem hand_leftover {ids : List Nat} {groups : List (List Frame)} {strays : List Frame} {e : Engine}
    (he : e.Sound) (htags : e.TagsDistinct) (hnodup : (e.kin ids).Nodup)
    (hgroups : List.Forall₂ e.Replies ids groups) (hne : strays ≠ [])
    (hstray : ∀ f ∈ strays, e.Stray ids f)
    (hstatus : ∀ f ∈ strays ++ groups.flatten, f.status ≠ Wire.invalidArguments) :
    ∃ e' failure, e.hand ids ((strays ++ groups.flatten).map .ok) = ([], e', failure) ∧
      e.Within (e.kin ids) e' ∧ (∀ x ∈ e.singles ids, e.Misled e' x) ∧
      List.Forall₂ (e.Served e') (ids.drop (e.singles ids).length)
        (groups.drop (e.singles ids).length) ∧
      if e.singles ids = ids then ∃ tag, failure = some (.unsolicited tag) else failure = none := by
  have hids := e.singles_append_drop ids
  have hbatch := @batch?_of_drop_singles e ids
  have hfront : ∀ x ∈ e.singles ids, e.batch? x = none := fun _ => batch?_of_mem_singles
  generalize e.singles ids = front at *
  have hgs := List.take_append_drop front.length groups
  have hown : List.Forall₂ e.Replies front (groups.take front.length) := by
    have := List.forall₂_take front.length hgroups
    rwa [← hids, List.take_left] at this
  have htheirs := List.forall₂_drop front.length hgroups
  generalize ids.drop front.length = rest at *
  generalize groups.take front.length = own at *
  generalize groups.drop front.length = theirs at *
  subst hids hgs
  rw [List.flatten_append, ← List.append_assoc] at hstatus
  obtain ⟨e₁, strays₁, hne₁, hstray₁, hhand₁, hmisled₁, hwithin₁⟩ :=
    hand_singles (theirs.flatten.map .ok) he htags hnodup hfront hown hne hstray
      fun f hf => hstatus f (List.mem_append_left _ hf)
  rw [← List.map_append, List.append_assoc, ← List.flatten_append] at hhand₁
  cases rest with
  | nil =>
    cases htheirs
    obtain ⟨f, strays₁, rfl⟩ := List.exists_cons_of_ne_nil hne₁
    refine ⟨e₁, some (.unsolicited f.tag), hhand₁, ?_, hmisled₁, .nil, ?_⟩
    · rwa [List.append_nil]
    · rw [if_pos (List.append_nil front).symm]
      exact ⟨f.tag, rfl⟩
  | cons x rest =>
    obtain ⟨b, hb⟩ := hbatch rfl
    rw [hand_allStray ((hwithin₁.batch?_eq x).trans hb)
      fun f hf j hj => hstray₁ f hf j (mem_kin List.mem_cons_self hj)] at hhand₁
    rw [kin_append] at hnodup
    obtain ⟨-, hrest, hapart⟩ := List.nodup_append.1 hnodup
    obtain ⟨e₂, hhand₂, hserved₂, hwithin₂⟩ := hand_replies hwithin₁.sound
      (htags.congr hwithin₁.nature) (by rwa [hwithin₁.kin_eq])
      (htheirs.imp fun _ _ => hwithin₁.replies) fun f hf => hstatus f (List.mem_append_right _ hf)
    refine ⟨e₂, none, hhand₁.trans hhand₂, ?_, fun y hy => ?_, ?_, ?_⟩
    · rw [kin_append]
      have := hwithin₁.trans hwithin₂
      rwa [hwithin₁.kin_eq] at this
    · refine (hmisled₁ y hy).before (fun hmem => ?_) hwithin₂
      rw [hwithin₁.kin_eq] at hmem
      exact hapart y (mem_kin hy (by simp)) y hmem rfl
    · refine List.forall₂_iff_zip.2 ⟨hserved₂.length_eq, fun {y gs} hy => ?_⟩
      refine ((List.forall₂_iff_zip.1 hserved₂).2 hy).after (fun j hj hj' => ?_) hwithin₁
      exact hapart j hj' j (mem_kin (List.of_mem_zip hy).1 hj) rfl
    · rw [if_neg (by simp)]

/-- The replies to a batch with a fault in the midst of them, and what comes behind. -/
theorem hand_malformed {e : Engine} (he : e.Sound) (htags : e.TagsDistinct) {id : Nat}
    {behind : List Nat} (hnodup : (e.kin (id :: behind)).Nodup)
    {b : Batch} (hb : e.batch? id = some b) {before after : List Frame} {last : Frame}
    {fault : FrameFault} (hconsumed : fault.consumed = true) {groups : List (List Frame)}
    (hown : e.Replies id (before ++ after ++ [last])) (hbehind : List.Forall₂ e.Replies behind groups)
    (hstatus : ∀ f ∈ before ++ after ++ [last] ++ groups.flatten,
      f.status ≠ Wire.invalidArguments) :
    ∃ e' failure, e.hand (id :: behind)
        (before.map .ok ++ .error fault :: (after ++ [last] ++ groups.flatten).map .ok) =
          ([], e', failure) ∧
      (∀ m ∈ b.members, e'.life? m =
        (e.life? m).map fun l => (l.hearAll before).failOpen ⟨.general, fault.reason⟩) ∧
      (∀ x ∈ e.singles behind, e.Misled e' x) ∧
      List.Forall₂ (e.Served e') (behind.drop (e.singles behind).length)
        (groups.drop (e.singles behind).length) ∧
      if e.singles behind = behind then ∃ tag, failure = some (.unsolicited tag)
      else failure = none := by
  obtain ⟨op, hop, hwork⟩ := batch?_eq_some.1 hb
  have hn := nature?_of_get? hop
  have hmembers := members_of_batch? hb
  obtain ⟨htagged, hlast⟩ := hown.of_batch hn hwork
  have hne : ∀ m ∈ b.members, m ≠ id := fun m hm =>
    Nat.ne_of_lt (he.flat id m (hmembers ▸ hm)).1
  have hbefore : ∀ f ∈ before, f.tag ≠ op.nature.tag ∧ f.status ≠ Wire.invalidArguments := by
    intro f hf
    obtain ⟨m, hm, n, hm', htag⟩ := htagged f (List.mem_append_left _ hf)
    refine ⟨fun heq => hne m hm (htags hm' hn (htag.symm.trans heq)), hstatus f (by simp [hf])⟩
  -- the members hear what comes before the fault, and then the whole batch fails
  obtain ⟨e₁, hhand₁, hgoes₁, hbecomes₁⟩ := hand_front behind
    (.error fault :: (after ++ [last] ++ groups.flatten).map .ok) hwork he htags hn hbefore
  have hfail := becomes_fail hgoes₁.sound.flat id ⟨.general, fault.reason⟩
  rw [hbecomes₁.members_eq (keepsNature_among (Life.nature_hearAll before) _), hmembers] at hfail
  have hwithin₂ : e.Within (e.kin [id]) (e₁.fail id ⟨.general, fault.reason⟩) := by
    refine (hbecomes₁.trans hfail).within (hgoes₁.trans (goes_fail hgoes₁.sound id _).1)
      (fun j l => ?_) fun j hj => ?_
    · rw [keepsNature_among (Life.nature_fail _), keepsNature_among (Life.nature_failOpen _),
        keepsNature_among (Life.nature_hearAll before)]
    · simp only [kin_cons, kin_nil, List.append_nil, List.mem_cons, not_or, hmembers] at hj
      rw [among_of_not_mem hj.2, among_of_not_mem hj.2, among_of_not_mem (by simpa using hj.1)]
  have hlives₂ := (hbecomes₁.trans hfail).lives
  rw [hand_fault hconsumed] at hhand₁
  generalize e₁.fail id ⟨.general, fault.reason⟩ = e₂ at hwithin₂ hlives₂ hhand₁
  -- what else is for the batch is foreign to those behind it
  rw [kin_cons] at hnodup
  obtain ⟨-, hrest, hapart⟩ := List.nodup_append.1 hnodup
  have hout : ∀ j ∈ e.kin [id], j ∉ e.kin behind := fun j hj hj' =>
    hapart j (by simpa using hj) j hj' rfl
  have hstray : ∀ f ∈ after ++ [last], e₂.Stray behind f := by
    intro f hf
    refine Stray.within hwithin₂ ?_
    rcases List.mem_append.1 hf with hf | hf
    · obtain ⟨m, hm, n, hm', htag⟩ := htagged f (List.mem_append_right _ hf)
      exact stray_of_kin htags (hout m (by simp [hmembers, hm])) hm' htag
    · rw [List.mem_singleton.1 hf]
      exact stray_of_kin htags (hout id (by simp)) hn hlast
  have hsingles : e₂.singles behind = e.singles behind := by
    simp only [singles, hwithin₂.batch?_eq]
  obtain ⟨e₃, failure, hhand₃, hwithin₃, hmisled₃, hserved₃, hfailure⟩ := hand_leftover hwithin₂.sound
    (htags.congr hwithin₂.nature) (by rwa [hwithin₂.kin_eq])
    (hbehind.imp fun _ _ => hwithin₂.replies) (by simp) hstray
    fun f hf => hstatus f (by simpa using Or.inr hf)
  rw [hsingles] at hmisled₃ hserved₃ hfailure
  rw [hwithin₂.kin_eq] at hwithin₃
  refine ⟨e₃, failure, ?_, fun m hm => ?_, fun x hx => ?_, ?_, hfailure⟩
  · exact hhand₁.trans hhand₃
  · rw [hwithin₃.others m (hout m (by simp [hmembers, hm])), hlives₂ m, among_of_mem hm,
      among_of_mem hm, among_of_not_mem (by simpa using hne m hm)]
  · refine (hmisled₃ x hx).after (fun hmem => hout x hmem ?_) hwithin₂
    exact mem_kin ((List.takeWhile_prefix _).subset hx) (by simp)
  · refine List.forall₂_iff_zip.2 ⟨hserved₃.length_eq, fun {y gs} hy => ?_⟩
    refine ((List.forall₂_iff_zip.1 hserved₃).2 hy).after (fun j hj hj' => hout j hj' ?_) hwithin₂
    exact mem_kin (List.mem_of_mem_drop (List.of_mem_zip hy).1) hj

end Engine

namespace Queue

open Engine

/-- Whoever waits for a response is held once, and so are the members of batches that do. -/
theorem Custody.nodup_kin {accepted : List Nat} {q : Queue} {e : Engine} (h : Custody accepted q e) :
    (e.kin q.readQueue).Nodup := by
  have hperm : (q.readQueue ++ q.readQueue.flatMap e.members).Perm (e.kin q.readQueue) := by
    have := List.map_append_flatMap_perm q.readQueue id e.members
    rwa [List.map_id] at this
  refine hperm.nodup_iff.1 (h.nodup.sublist (List.Sublist.append ?_ ?_))
  · exact (List.sublist_append_right _ _).trans (List.sublist_append_right _ _)
  · rw [List.flatMap_append]
    exact List.sublist_append_right _ _

/-- **A malformed frame among the replies to a batch** ends every member that has not been answered
before it. What comes for the batch after it goes to the operations that wait behind: up to the next
batch each of them is misled, and from there on each has its own replies. If there is no such batch,
the connection is dropped. -/
theorem malformed_in_batch {accepted : List Nat} {q : Queue} {e : Engine}
    (hcustody : q.Custody accepted e) (htags : e.TagsDistinct) {id : Nat} {behind : List Nat}
    (hq : q.readQueue = id :: behind) {b : Batch} (hb : e.batch? id = some b)
    {before after : List Frame} {last : Frame} {fault : FrameFault} {groups : List (List Frame)}
    (hfound : (Frame.drain Wire.responseMagic q.readBuffer).1 =
      before.map .ok ++ .error fault :: (after ++ [last] ++ groups.flatten).map .ok)
    (hconsumed : fault.consumed = true) (hown : e.Replies id (before ++ after ++ [last]))
    (hbehind : List.Forall₂ e.Replies behind groups)
    (hstatus : ∀ f ∈ before ++ after ++ [last] ++ groups.flatten,
      f.status ≠ Wire.invalidArguments) :
    let misled := e.singles behind
    let e' := (q.process e).2.1
    (∀ m ∈ b.members, e'.life? m =
      (e.life? m).map fun l => (l.hearAll before).failOpen ⟨.general, fault.reason⟩) ∧
    (∀ x ∈ misled, e.Misled e' x) ∧
    List.Forall₂ (e.Served e') (behind.drop misled.length) (groups.drop misled.length) ∧
    if misled = behind then ∃ tag, (q.process e).2.2 = some (.unsolicited tag)
    else (q.process e).2.2 = none := by
  have hnodup := hcustody.nodup_kin
  rw [hq] at hnodup
  obtain ⟨e', failure, hhand, hspec⟩ := hand_malformed hcustody.sound htags hnodup hb hconsumed hown
    hbehind hstatus
  have hprocess := q.process_eq_hand e
  rw [hq, hfound, hhand, Prod.mk.injEq] at hprocess
  rw [hprocess.2]
  exact hspec

/-! ## Two gets in a batch, a delete, two gets more -/

/-- The gets `a` and `b` wait for a response as one batch, and behind them a delete, and behind that
the gets `d` and `e` as another batch. -/
def crowded : Lane :=
  ({ queue := { settings := ⟨64, 400, 10, true, 10, 1000⟩, node := 0, inputCapacity := 10 },
     engine := {} } : Lane).run
    [.create (.get "a" false) .silent, .create (.get "b" false) .silent, .submit 0, .submit 1,
      .copyInput, .pack, .create (.delete "c") .silent, .submit 3, .copyInput, .pack,
      .create (.get "d" false) .silent, .create (.get "e" false) .silent, .submit 4, .submit 5,
      .copyInput, .pack]

/-- The reply to `a` comes under a wrong magic. -/
def misread : Frame := .build 0x82 0x09 0 [0, 0, 0, 7] [] [65] 1 0

/-- The reply to `b`. -/
def hit : Frame := .response 0x09 0 [0, 0, 0, 7] [] [66] 2 0

/-- The answer to a command of the opcode, which brings nothing. -/
def done (opcode : UInt8) (tag : UInt32) : Frame := .response opcode 0 [] [] [] tag 0

/-- All replies are there. -/
def answered : Queue :=
  crowded.queue.appendRead
    (misread.encode ++ Frame.encodeAll [hit, done 0x0a 3, done 0x04 4, done 0x0a 7])

theorem malformed_in_batch_of_two_gets :
    answered.Custody crowded.accepted crowded.engine ∧ answered.readQueue = [2, 3, 6] ∧
      crowded.engine.batch? 2 = some ⟨.get, [0, 1], 0⟩ ∧
      (∀ m ∈ [0, 1], (answered.process crowded.engine).2.1.life? m =
        (crowded.engine.life? m).map (·.failOpen ⟨.general, "bad magic 0x82"⟩)) ∧
      crowded.engine.Misled (answered.process crowded.engine).2.1 3 ∧
      crowded.engine.Served (answered.process crowded.engine).2.1 6 [done 0x0a 7] ∧
      (answered.process crowded.engine).2.2 = none := by
  have hrun : crowded.Custody := Lane.custody_run ⟨rfl, rfl, rfl, rfl, rfl, rfl⟩ _
  have hcustody : answered.Custody crowded.accepted crowded.engine :=
    Custody.goes hrun (Goes.refl hrun.sound) rfl rfl
  have htags : crowded.engine.TagsDistinct := tagsDistinct_of_nodup (by decide +kernel)
  have hq : answered.readQueue = [2, 3, 6] := by decide +kernel
  have hb : crowded.engine.batch? 2 = some ⟨.get, [0, 1], 0⟩ := by decide +kernel
  have hfound : (Frame.drain Wire.responseMagic answered.readBuffer).1 =
      ([] : List Frame).map .ok ++ .error (.badMagic 1 0x82) ::
        ([hit] ++ [done 0x0a 3] ++ [[done 0x04 4], [done 0x0a 7]].flatten).map .ok := by
    decide +kernel
  have hown : crowded.engine.Replies 2 ([] ++ [hit] ++ [done 0x0a 3]) := by
    refine @Replies.batch _ _ ⟨3, .batch ⟨.get, [0, 1], 0⟩, true, .silent⟩ _ [hit] _
      (by decide +kernel) rfl (fun f hf => ?_) rfl
    rw [List.mem_singleton.1 hf]
    exact ⟨1, by simp, ⟨2, .single (.get "b" false), true, .silent⟩, by decide +kernel, rfl⟩
  have hdelete : crowded.engine.Replies 3 [done 0x04 4] :=
    @Replies.single _ _ ⟨4, .single (.delete "c"), false, .silent⟩ _ _ (by decide +kernel) rfl rfl
  have hgets : crowded.engine.Replies 6 [done 0x0a 7] :=
    @Replies.batch _ _ ⟨7, .batch ⟨.get, [4, 5], 1⟩, true, .silent⟩ _ [] _ (by decide +kernel) rfl
      (by simp) rfl
  have hspec := malformed_in_batch hcustody htags hq hb hfound rfl hown
    (.cons hdelete (.cons hgets .nil)) (by decide +kernel)
  have hsingles : crowded.engine.singles [3, 6] = [3] := by decide +kernel
  rw [hsingles] at hspec
  obtain ⟨hmembers, hmisled, hserved, hfailure⟩ := hspec
  refine ⟨hcustody, hq, hb, hmembers, hmisled 3 (by simp), ?_, hfailure⟩
  cases hserved with
  | cons h _ => exact h

/-- **The others in the batch fail with it, and so does what waits behind.** The reply to `b` is a hit
and the one to the delete is a success, but each of them ends in an error. -/
theorem batch_lost_of_bad_magic :
    answered.readQueue = [2, 3, 6] ∧ crowded.engine.members 2 = [0, 1] ∧
      (Frame.drain Wire.responseMagic answered.readBuffer).1 =
        .error (.badMagic 1 0x82) ::
          [hit, done 0x0a 3, done 0x04 4, done 0x0a 7].map .ok ∧
      (Command.get "b" false).interpret 2 hit =
        .ok ⟨.success, some (.value "b" ⟨7, [66]⟩ 0)⟩ ∧
      (answered.process crowded.engine).2.1.status? 1 = some ⟨.error, "bad magic 0x82"⟩ ∧
      (Command.delete "c").interpret 4 (done 0x04 4) = .ok ⟨.success, none⟩ ∧
      (answered.process crowded.engine).2.1.status? 3 =
        some ⟨.error, "response opaque 2 does not match request opaque 4"⟩ := by
  decide +kernel

end Queue

end ShardedCache

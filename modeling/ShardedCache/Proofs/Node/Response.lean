import ShardedCache.Proofs.Node.Transit

/-!
# What a response comes to

A response belongs to the operations that it ends: one, or all members of a batch that have not
ended before. Each of them has then told its callback what the server's answer comes to, and nothing
has come of any other (`Engine.Heeded`).
-/

namespace ShardedCache

open Wire (Frame)

namespace Engine

/-! ## Tags -/

theorem memberByTag?_eq {e : Engine} (htags : e.TagsDistinct) {b : Batch} {m : Nat}
    (hm : m ∈ b.members) {member : Operation} (hmember : e.get? m = some member) :
    e.memberByTag? b member.tag = some m := by
  have hn := nature?_of_get? hmember
  cases hfound : e.memberByTag? b member.tag with
  | none =>
    have hnone := List.find?_eq_none.1 hfound m (List.mem_reverse.2 hm)
    simp [hmember] at hnone
  | some x =>
    unfold memberByTag? at hfound
    have hsame := List.find?_some hfound
    obtain ⟨op, hop, htag⟩ := (Option.any_eq_true _ _).1 hsame
    rw [htags (nature?_of_get? hop) hn (beq_iff_eq.1 htag)]

/-- The request for a member has the member's tag. -/
theorem tag_memberSlot {e : Engine} (hflat : e.Flat) {id m : Nat} (hm : m ∈ e.members id) :
    ∃ n, e.nature? m = some n ∧ n.tag = (e.memberSlot m).frame.tag := by
  obtain ⟨n, c, hn, hc⟩ := (hflat id m hm).2
  exact ⟨n, hn, by simp [memberSlot, hn, hc, Work.command?]⟩

/-- A request has the tag of the operation that it is for, or else of the batch. -/
theorem tag_of_mem_slots {e : Engine} (hflat : e.Flat) {id : Nat} {s : Slot}
    (hs : s ∈ e.slots id) :
    ∃ x n, x ∈ id :: e.members id ∧ e.nature? x = some n ∧ n.tag = s.frame.tag := by
  cases hn : e.nature? id with
  | none => simp [slots, hn] at hs
  | some n =>
    cases hwork : n.work with
    | single c =>
      rw [slots_single hn hwork, List.mem_singleton] at hs
      exact ⟨id, n, List.mem_cons_self, hn, by simp [hs]⟩
    | batch b =>
      rw [slots_batch hn hwork] at hs
      rcases List.mem_append.1 hs with hs | hs
      · obtain ⟨m, hm, rfl⟩ := List.mem_map.1 hs
        have hmember : m ∈ e.members id := by rwa [members_of_nature? hn, hwork]
        obtain ⟨n', hn', htag⟩ := tag_memberSlot hflat hmember
        exact ⟨m, n', List.mem_cons_of_mem id hmember, hn', htag⟩
      · exact ⟨id, n, List.mem_cons_self, hn, by simp [List.mem_singleton.1 hs]⟩

/-- The last request of an operation is one that is always answered. -/
theorem slots_eq_append {e : Engine} {id : Nat} {n : Nature} (hn : e.nature? id = some n) :
    ∃ front owner c, e.slots id = front ++ [⟨owner, Command.request c n.tag⟩] := by
  cases hwork : n.work with
  | single c => exact ⟨[], some id, c, slots_single hn hwork⟩
  | batch b => exact ⟨_, none, .noop, slots_batch hn hwork⟩

/-- What comes before the end of a batch's requests is for its members. -/
theorem mem_of_slots_batch {e : Engine} {id : Nat} {n : Nature} {b : Batch}
    (hn : e.nature? id = some n) (hb : n.work = .batch b) {front back : List Slot}
    (hslots : e.slots id = front ++ back) (hback : back ≠ []) {s : Slot} (hs : s ∈ front) :
    ∃ m ∈ e.members id, s = e.memberSlot m := by
  obtain ⟨ahead, last, rfl⟩ := (List.eq_nil_or_concat back).resolve_left hback
  rw [slots_batch hn hb, List.concat_eq_append, ← List.append_assoc] at hslots
  obtain ⟨m, hm, hslot⟩ := List.mem_map.1 (show s ∈ b.members.map e.memberSlot by
    rw [(List.append_inj' hslots rfl).1]
    exact List.mem_append_left _ hs)
  refine ⟨m, ?_, hslot.symm⟩
  rwa [members_of_nature? hn, hb]

/-- The requests of an operation are for itself, or for its members if it is a batch. -/
theorem mem_owners_slots {e : Engine} (hflat : e.Flat) {id : Nat} {n : Nature}
    (hn : e.nature? id = some n) {x : Nat} :
    x ∈ owners (e.slots id) ↔ x ∈ id :: e.members id ∧ e.IsSingle x := by
  cases hwork : n.work with
  | single c =>
    have hsingle : e.IsSingle id := ⟨n, c, hn, hwork⟩
    rw [owners_slots_single hsingle, members_of_isSingle hsingle]
    refine ⟨fun hx => ⟨hx, ?_⟩, And.left⟩
    rw [List.mem_singleton.1 hx]
    exact hsingle
  | batch b =>
    rw [owners_slots_batch hn hwork]
    refine ⟨fun hx => ⟨List.mem_cons_of_mem id hx, (hflat id x hx).2⟩, fun ⟨hx, hsingle⟩ => ?_⟩
    refine (List.mem_cons.1 hx).resolve_left ?_
    rintro rfl
    obtain ⟨n', c, hn', hc⟩ := hsingle
    rw [hn] at hn'
    cases hn'
    rw [hwork] at hc
    cases hc

/-! ## Effects -/

/-- The operations have told what the server's answers come to, and nothing else has happened. -/
structure Heeded (server : Server) (accepted : List Nat) (e e' : Engine) (ids : List Nat) :
    Prop where
  goes : e.Goes e'
  nature : ∀ id, e'.nature? id = e.nature? id
  same : ∀ id, id ∉ ids → e.Same e' id ∧ e'.request? id = e.request? id
  told : ∀ id ∈ ids, id ∈ accepted → e'.isTerminal id ∧ e'.Tells server accepted id

theorem Heeded.command?_eq {server : Server} {accepted ids : List Nat} {e e' : Engine}
    (h : Heeded server accepted e e' ids) (id : Nat) : e'.command? id = e.command? id := by
  rw [command?, h.nature, ← command?]

/-- Whatever has ended by then has told what it comes to. -/
theorem Heeded.answered {server : Server} {accepted ids : List Nat} {e e' : Engine}
    (h : Heeded server accepted e e' ids) (hanswered : e.Answered server accepted) :
    e'.Answered server accepted := by
  intro id hid hend
  by_cases hmem : id ∈ ids
  · exact (h.told id hmem hid).2
  · obtain ⟨hsame, -⟩ := h.same id hmem
    rw [hsame.terminal] at hend
    exact (hanswered id hid hend).congr hsame fun x _ => h.command?_eq x

theorem heardOf_of_life? {e : Engine} {id : Nat} {l : Life} (h : e.life? id = some l) :
    e.heardOf id = (l.heard, l.overheard) := by
  obtain ⟨op, -, rfl⟩ := Option.map_eq_some_iff.1 h
  rfl

theorem get?_of_command? {e : Engine} {id : Nat} {c : Command} (h : e.command? id = some c) :
    ∃ op, e.get? id = some op ∧ op.work = .single c := by
  obtain ⟨n, hn, hc⟩ := Option.bind_eq_some_iff.1 h
  obtain ⟨op, hop, rfl⟩ := Option.map_eq_some_iff.1 hn
  refine ⟨op, hop, ?_⟩
  cases hwork : op.work with
  | single c' => simpa [Operation.nature, hwork, Work.command?] using hc
  | batch b => simp [Operation.nature, hwork, Work.command?] at hc

section Effects

variable {server : Server} {accepted : List Nat} {e e' : Engine}

theorem heeded_answer (he : e.Sound) (hgoes : e.Goes e') {id : Nat} {op : Operation} {c : Command}
    (hop : e.get? id = some op) (hc : op.work = .single c) (hopen : e.isTerminal id = false)
    {request f : Frame} (htag : request.tag = op.tag) (hloud : request.loud = c.request 0)
    (hreply : server.reply? (e.past accepted id) request = some f)
    (hbecomes : e.Becomes (among [id] (·.answer c f)) e') :
    Heeded server accepted e e' [id] := by
  have hnature : ∀ x, e'.nature? x = e.nature? x := hbecomes.nature?_eq
    (keepsNature_among (Life.nature_answer c f) [id])
  have hcommand : ∀ x, e'.command? x = e.command? x := fun x => by
    rw [command?, hnature, ← command?]
  refine ⟨hgoes, hnature, fun x hx => ⟨?_, ?_⟩, fun x hx _ => ?_⟩
  · refine hbecomes.same ?_
    rw [among_of_not_mem hx]
    exact Life.discreet_id
  · refine hbecomes.request?_eq fun l => ?_
    rw [among_of_not_mem hx]
  · rw [List.mem_singleton.1 hx]
    have hlife := life?_of_get? hop
    refine ⟨hbecomes.isTerminal_of fun l _ => ?_, fun c' hc' => ?_⟩
    · rw [among_of_mem (List.mem_singleton_self id)]
      exact Life.isTerminal_answer c f l
    · have hcommandId : e.command? id = some c := by
        simp [command?, nature?, hop, Operation.nature, hc, Work.command?]
      rw [hcommand, hcommandId] at hc'
      cases hc'
      have hlife' := hbecomes.lives id
      rw [hlife, Option.map_some, among_of_mem (List.mem_singleton_self id)] at hlife'
      rw [isTerminal_eq, hlife] at hopen
      have hheard := Life.heard_answer (he.lives hlife) hopen c f
      rw [heardOf_of_life? hlife', past_congr fun x _ => hcommand x,
        ← Server.conclusion_of_reply? hreply hloud, htag, hheard]
      exact Conclusion.heardIn_ofReply _

/-- The answer to the last request of a batch ends the members that have not been answered. -/
theorem heeded_settle (he : e.Sound) (hgoes : e.Goes e') {id : Nat} {b : Batch}
    (hid : id ∉ accepted) (hanswered : e.Answered server accepted)
    (hsilent : ∀ m ∈ b.members, m ∈ accepted → e.isTerminal m = false → ∀ c,
      e.command? m = some c → server.conclusion (e.past accepted m) c = ⟨b.silentStatus.code, none⟩)
    (hbecomes : e.Becomes (fun j l => among [id] (·.complete .success) j
      (among b.members (·.complete b.silentStatus) j l)) e') :
    Heeded server accepted e e' (id :: b.members) := by
  have hnature : ∀ x, e'.nature? x = e.nature? x := hbecomes.nature?_eq fun x l =>
    (keepsNature_among (Life.nature_complete _) _ x _).trans
      (keepsNature_among (Life.nature_complete _) _ x l)
  have hcommand : ∀ x, e'.command? x = e.command? x := fun x => by
    rw [command?, hnature, ← command?]
  have hother : ∀ x, x ∉ id :: b.members →
      (fun l => among [id] (·.complete .success) x (among b.members (·.complete b.silentStatus) x l))
        = fun l => l := fun x hx => by
    obtain ⟨hxid, hxmembers⟩ := not_or.1 (mt List.mem_cons.2 hx)
    rw [among_of_not_mem (show x ∉ [id] by simpa using hxid), among_of_not_mem hxmembers]
  refine ⟨hgoes, hnature, fun x hx => ⟨?_, ?_⟩, fun x hx haccepted => ?_⟩
  · refine hbecomes.same ?_
    rw [hother x hx]
    exact Life.discreet_id
  · exact hbecomes.request?_eq fun l => congrArg (·.operation.request) (congrFun (hother x hx) l)
  · have hxid : x ≠ id := fun heq => hid (heq ▸ haccepted)
    have hxmember : x ∈ b.members := (List.mem_cons.1 hx).resolve_left hxid
    have hlives := hbecomes.lives x
    rw [among_of_not_mem (show x ∉ [id] by simpa using hxid), among_of_mem hxmember] at hlives
    refine ⟨hbecomes.isTerminal_of fun l _ => ?_, fun c hc => ?_⟩
    · rw [among_of_not_mem (show x ∉ [id] by simpa using hxid), among_of_mem hxmember]
      exact Life.isTerminal_complete _ l
    · rw [hcommand] at hc
      obtain ⟨op, hop, -⟩ := get?_of_command? hc
      have hlife := life?_of_get? hop
      rw [hlife, Option.map_some] at hlives
      rw [heardOf_of_life? hlives, past_congr fun x _ => hcommand x]
      cases hend : e.isTerminal x with
      | true =>
        have htells := hanswered x haccepted hend c hc
        rw [isTerminal_eq, hlife] at hend
        rw [Life.complete_of_isTerminal hend]
        rwa [heardOf_of_life? hlife] at htells
      | false =>
        rw [hsilent x hxmember haccepted hend c hc]
        rw [isTerminal_eq, hlife] at hend
        rw [Life.heard_complete (he.lives hlife) hend]
        exact ⟨b.silentStatus.message, rfl⟩

end Effects

end Engine

end ShardedCache

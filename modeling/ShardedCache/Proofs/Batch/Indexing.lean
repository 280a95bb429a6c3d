import Mathlib.Data.List.Nodup
import ShardedCache.Proofs.Batch.Seating
import ShardedCache.Proofs.Node.Traffic

/-!
# Who a response is for

The counter that gives out tags skips zero, so it goes through all other tags before it comes back to
one: two draws give the same tag just if the number of draws between them is a multiple of `2 ^ 32 - 1`
(`Engine.tagAt_eq_iff`). Every operation takes one draw, whatever else is done in between
(`Engine.CountedFrom.run`). So when the members of a batch and the batch itself have been made within
one cycle, the tag of a response says which of them it is for (`Engine.Indexed`), wherever the counter
was when the client was started.
-/

namespace ShardedCache

namespace Engine

/-! ## One draw after the other -/

/-- The engine after `k` draws. -/
def drawn (e : Engine) : Nat → Engine
  | 0 => e
  | k + 1 => (e.drawn k).freshTag.1

/-- The tag that comes after `k` others. -/
def tagAt (e : Engine) (k : Nat) : UInt32 := (e.drawn k).freshTag.2

theorem turn_drawn (e : Engine) : ∀ k, (e.drawn k).turn = (e.turn + k) % tagCount
  | 0 => (Nat.mod_eq_of_lt e.turn_lt).symm
  | k + 1 => by
    rw [drawn, (freshTag_spec (e.drawn k)).2, turn_drawn e k, Nat.mod_add_mod, Nat.add_assoc]

theorem toNat_tagAt (e : Engine) (k : Nat) : (e.tagAt k).toNat = (e.turn + k) % tagCount + 1 := by
  rw [tagAt, (freshTag_spec (e.drawn k)).1, turn_drawn]

theorem tagAt_ne_zero (e : Engine) (k : Nat) : e.tagAt k ≠ 0 := fun hzero => by
  have hpos := e.toNat_tagAt k
  rw [hzero] at hpos
  exact Nat.succ_ne_zero _ hpos.symm

/-- Two draws give the same tag if they are whole cycles apart, and only then. -/
theorem tagAt_eq_iff (e : Engine) (i j : Nat) :
    e.tagAt i = e.tagAt j ↔ i % tagCount = j % tagCount := by
  rw [← UInt32.toNat_inj, toNat_tagAt, toNat_tagAt, Nat.add_left_inj]
  unfold tagCount
  omega

/-! ## One draw for each operation -/

section Run

variable {first : Nat} {e e' : Engine} {a : Act}

theorem CountedFrom.becomes {g : Nat → Life → Life} (h : CountedFrom first e) (hgoes : e.Goes e')
    (hbecomes : e.Becomes g e') : CountedFrom first e' := by
  refine h.congr (fun id => ?_) hbecomes.size_eq hbecomes.counter
  rcases Nat.lt_or_ge id e.size with hlt | hge
  · exact hgoes.follows.nature?_eq hlt
  · have hnone := get?_eq_none_iff.2 hge
    rw [nature?, nature?, hnone, hbecomes.get?_eq_none.2 hnone]

theorem CountedFrom.act (h : CountedFrom first e) (he : e.Sound) (ha : e.Admits a) :
    CountedFrom first (e.act a) := by
  cases a with
  | create command callback => exact h.add _ _ callback
  | batch family members aggregate =>
    obtain ⟨multiplexer, idempotent, hbatch⟩ := batch_eq e family members aggregate
    obtain ⟨listener, hjoined⟩ := becomes_joined aggregate ha.1
    have hgoes := hjoined.goes_open he ((Life.lawful_listen listener).among _)
      (isTerminal_among (Life.isTerminal_listen listener) _)
    change CountedFrom first (e.batch family members aggregate).1
    rw [hbatch]
    exact (h.becomes hgoes hjoined).add _ _ _
  | listen id listener => exact h.becomes (goes_listen he id listener) (becomes_listen e id listener)
  | complete id status => exact h.becomes (goes_complete he ha status) (becomes_complete e id status)
  | fill id room =>
    have hgoes := goes_fill he id room
    cases hop : e.get? id with
    | none =>
      have hstep : e.fill id room = (e, []) := by
        simp [fill, prepare, unwritten, count, hop, modify_of_none hop]
      change CountedFrom first (e.fill id room).1
      rwa [hstep]
    | some op => exact h.becomes hgoes (becomes_fill he.flat hop room)
  | finishWriting id =>
    have hgoes := goes_finishWriting he id
    cases hop : e.get? id with
    | none =>
      have hstep : e.finishWriting id = e := by
        simp [finishWriting, advance, hop, modify_of_none hop]
      change CountedFrom first (e.finishWriting id)
      rwa [hstep]
    | some op => exact h.becomes hgoes (becomes_finishWriting he.flat hop)
  | reset id => exact h.becomes (goes_reset he id) (becomes_reset he.flat id)
  | receive id f =>
    obtain ⟨g, -, hbecomes⟩ := becomes_receive he.flat id f
    exact h.becomes (goes_receive he id f).1 hbecomes
  | fail id error => exact h.becomes (goes_fail he id error).1 (becomes_fail he.flat id error)
  | cancel id cause => exact h.becomes (goes_cancel he id cause).1 (becomes_cancel he.flat id cause)

theorem CountedFrom.run : ∀ (acts : List Act) {e : Engine}, CountedFrom first e → e.Orderly →
    e.AdmitsAll acts → CountedFrom first (e.run acts)
  | [], _, h, _, _ => h
  | _ :: acts, _, h, he, hall =>
    CountedFrom.run acts (h.act he.sound hall.1) (he.act hall.1) hall.2

end Run

/-! ## Telling the members of a batch apart -/

def tag? (e : Engine) (id : Nat) : Option UInt32 := (e.get? id).map (·.tag)

/-- A response to the batch `id` is for whom its tag says. -/
structure Indexed (e : Engine) (id : Nat) (b : Batch) : Prop where
  /-- No two members have the same tag. -/
  nodup : (b.members.map e.tag?).Nodup
  /-- Under the tag of a member that member is found, and nobody under any other tag. -/
  found : ∀ tag m, e.memberByTag? b tag = some m ↔ m ∈ b.members ∧ e.tag? m = some tag
  /-- The tag of the last request is not that of a member. -/
  sentinel : ∀ m ∈ b.members, e.tag? m ≠ e.tag? id

variable {e : Engine} {id : Nat} {n : Nature} {b : Batch}

theorem tag?_eq_nature? (e : Engine) (id : Nat) : e.tag? id = (e.nature? id).map (·.tag) := by
  rw [tag?, nature?, Option.map_map]
  rfl

/-- Operations that have been made within one cycle have tags of their own. -/
theorem Counted.eq_of_tag? (h : e.Counted) {i j : Nat} (hi : i < e.size) (hj : j < e.size)
    (hnear : i - j < tagCount) (hnear' : j - i < tagCount) (htag : e.tag? i = e.tag? j) : i = j := by
  obtain ⟨first, htags, -⟩ := h
  obtain ⟨op, hop⟩ := get?_of_lt_size hi
  obtain ⟨op', hop'⟩ := get?_of_lt_size hj
  rw [tag?, tag?, hop, hop', Option.map_some, Option.map_some, Option.some_inj] at htag
  have hsame := congrArg UInt32.toNat htag
  rw [show op.tag.toNat = _ from htags i op.nature (nature?_of_get? hop),
    show op'.tag.toNat = _ from htags j op'.nature (nature?_of_get? hop')] at hsame
  unfold tagCount at hsame hnear hnear'
  omega

theorem Counted.indexed (h : e.Counted) (he : e.Sound) (hn : e.nature? id = some n)
    (hb : n.work = .batch b) (hdistinct : b.members.Nodup)
    (hnear : ∀ m ∈ b.members, id - m < tagCount) : e.Indexed id b := by
  obtain ⟨op, hop, rfl⟩ := Option.map_eq_some_iff.1 hn
  have hid := lt_size_of_get? hop
  have hmembers : e.members id = b.members := members_of_batch hop hb
  have hbefore : ∀ m ∈ b.members, m < id := fun m hm => (he.flat id m (hmembers ▸ hm)).1
  have hinj : ∀ m ∈ b.members, ∀ m' ∈ b.members, e.tag? m = e.tag? m' → m = m' :=
    fun m hm m' hm' htag => by
      have hlt := hbefore m hm
      have hlt' := hbefore m' hm'
      have hwithin := hnear m hm
      have hwithin' := hnear m' hm'
      exact h.eq_of_tag? (Nat.lt_trans hlt hid) (Nat.lt_trans hlt' hid) (by omega) (by omega) htag
  refine ⟨hdistinct.map_on hinj, fun tag m => ⟨fun hfound => ?_, fun ⟨hm, htag⟩ => ?_⟩,
    fun m hm htag => ?_⟩
  · obtain ⟨member, hmember, htag⟩ := get?_of_memberByTag? hfound
    exact ⟨mem_of_memberByTag? hfound, by rw [tag?, hmember, Option.map_some, htag]⟩
  · obtain ⟨member, hmember, hmine⟩ := Option.map_eq_some_iff.1 htag
    cases hfound : e.memberByTag? b tag with
    | none =>
      have hno := List.find?_eq_none.1 hfound m (List.mem_reverse.2 hm)
      simp [hmember, hmine] at hno
    | some m' =>
      obtain ⟨member', hmember', hmine'⟩ := get?_of_memberByTag? hfound
      have htag' : e.tag? m' = some tag := by rw [tag?, hmember', Option.map_some, hmine']
      rw [hinj m' (mem_of_memberByTag? hfound) m hm (htag'.trans htag.symm)]
  · have hlt := hbefore m hm
    have hwithin := hnear m hm
    exact absurd (h.eq_of_tag? (Nat.lt_trans hlt hid) hid (by omega) (by omega) htag) (Nat.ne_of_lt hlt)

end Engine

namespace Lane

variable {s : Lane}

theorem counted_run (h : s.Initial) (actions : List Action) : (s.run actions).engine.Counted := by
  have hkept := run_induction (P := fun t => t.Custody ∧ t.engine.Counted)
    (fun t a ht => ⟨custody_step t a ht.1, (goes_step ht.1 a).1.counted ht.2⟩) actions
    ⟨custody_of_initial h, Engine.counted_of_nil h.operations⟩
  exact hkept.2

/-- A node puts no operation into a batch twice. -/
theorem nodup_members (h : s.Custody) {id : Nat} (hid : id ∈ s.queue.writeQueue ++ s.queue.readQueue) :
    (s.engine.members id).Nodup :=
  (List.nodup_flatMap.1 (List.nodup_append.1 h.nodup).2.1).1 id hid

end Lane

namespace Engine

/-- **Tags are never zero, and the same one comes again after a whole cycle at the earliest.** That is
so wherever the counter starts, and the operations of a client have the tags in the order in which they
are made. So a batch of distinct operations, made within one cycle with itself, can tell the responses to
them apart from each other and from that to its own last request; the batches of a node are of distinct
operations. -/
theorem tags_come_round (e : Engine) :
    (∀ k, e.tagAt k ≠ 0) ∧
    (∀ i j, i < j → e.tagAt i = e.tagAt j → UInt32.size - 1 ≤ j - i) ∧
    (∀ i, e.tagAt (i + (UInt32.size - 1)) = e.tagAt i) ∧
    (e.Initial → ∀ acts, e.AdmitsAll acts →
      (∀ id tag, (e.run acts).tag? id = some tag → tag = e.tagAt id) ∧
      ∀ id n b, (e.run acts).nature? id = some n → n.work = .batch b → b.members.Nodup →
        (∀ m ∈ b.members, id - m < UInt32.size - 1) → (e.run acts).Indexed id b) ∧
    ∀ s : Lane, s.Initial → ∀ actions id n b,
      id ∈ (s.run actions).queue.writeQueue ++ (s.run actions).queue.readQueue →
      (s.run actions).engine.nature? id = some n → n.work = .batch b →
      (∀ m ∈ b.members, id - m < UInt32.size - 1) → (s.run actions).engine.Indexed id b := by
  refine ⟨e.tagAt_ne_zero, fun i j hlt heq => ?_, fun i => ?_, fun he acts hacts => ?_, ?_⟩
  · have hmod := (e.tagAt_eq_iff i j).1 heq
    unfold tagCount at hmod
    unfold UInt32.size
    omega
  · exact (e.tagAt_eq_iff _ i).2 (Nat.add_mod_right i tagCount)
  · have horderly := orderly_of_initial he
    have hcounted := (countedFrom_of_nil he.operations).run acts horderly hacts
    refine ⟨fun id tag htag => ?_, fun id n b hn hb hdistinct hnear => ?_⟩
    · rw [tag?_eq_nature?] at htag
      obtain ⟨n, hn, rfl⟩ := Option.map_eq_some_iff.1 htag
      exact UInt32.toNat_inj.1 ((hcounted.1 id n hn).trans (e.toNat_tagAt id).symm)
    · exact Counted.indexed ⟨e.turn, hcounted⟩ (horderly.run acts hacts).sound hn hb hdistinct hnear
  · intro s hs actions id n b hid hn hb hnear
    have hcustody := Lane.custody_run hs actions
    obtain ⟨op, hop, rfl⟩ := Option.map_eq_some_iff.1 hn
    have hdistinct := Lane.nodup_members hcustody hid
    rw [members_of_batch hop hb] at hdistinct
    exact (Lane.counted_run hs actions).indexed hcustody.sound hn hb hdistinct hnear

/-- The last tag before the counter comes round is given out next. -/
def atLastTag : Engine := { nextTag := 4294967295 }

/-- Two gets and the batch of them, made while the counter comes round. -/
theorem tags_come_round_in_batch :
    let acts : List Act :=
      [.create (.get "a" false) .silent, .create (.get "b" false) .silent, .batch .get [0, 1] .silent]
    let e := atLastTag.run acts
    e.tag? 0 = some 4294967295 ∧ e.tag? 1 = some 1 ∧ e.tag? 2 = some 2 ∧
      e.Indexed 2 { family := .get, members := [0, 1], multiplexer := 0 } ∧
      e.memberByTag? { family := .get, members := [0, 1], multiplexer := 0 } 1 = some 1 := by
  intro acts e
  obtain ⟨-, -, -, hruns, -⟩ := tags_come_round atLastTag
  have hacts : atLastTag.AdmitsAll acts := by
    refine ⟨trivial, trivial, ⟨fun m hm => ?_, trivial⟩, trivial⟩
    rcases List.mem_pair.1 hm with rfl | rfl
    · exact ⟨_, _, rfl, rfl⟩
    · exact ⟨_, _, rfl, rfl⟩
  obtain ⟨-, hindexed⟩ := hruns ⟨rfl, rfl⟩ acts hacts
  have hbatch := hindexed 2 _ { family := .get, members := [0, 1], multiplexer := 0 } rfl rfl
    (by decide) (by decide)
  exact ⟨rfl, rfl, rfl, hbatch, (hbatch.found 1 1).2 ⟨by decide, rfl⟩⟩

end Engine

end ShardedCache

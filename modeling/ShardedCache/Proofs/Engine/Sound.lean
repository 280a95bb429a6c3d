import ShardedCache.Proofs.Engine.Tags
import ShardedCache.Proofs.Engine.Writing

/-!
# Sound engines

Between the steps of an engine an operation has told its callback nothing, or its outcome with
perhaps a value before it, and it has done so exactly if it has ended (`Life.Sound`). A batch that
has ended has no member that has not (`Engine.Sound`). Each step keeps all this, and what has come
of an operation that has ended stays as it is (`Engine.Goes`).
-/

namespace ShardedCache

open Wire (Status Frame)

/-! ## Sound lives -/

/-- What an operation of this status has told its callback. -/
inductive Told : Option Status → List Event → Prop where
  | nothing : Told none []
  | outcome (s : Status) : Told (some s) [.status s, .finished]
  | value (p : Payload) : Told (some .success) [.payload p, .status .success, .finished]

/-- What an operation has told its listener. -/
def Operation.overheard (op : Operation) : List Event :=
  match op.listener, op.status with
  | some _, some s => [.status s, .finished]
  | _, _ => []

/-- What has come of an operation. -/
structure Ending where
  phase : Phase
  status : Option Status
  cancelCause : Option String
  heard : List Event
  overheard : List Event

namespace Life

structure Sound (l : Life) : Prop where
  ended : l.isTerminal = l.operation.status.isSome
  told : Told l.operation.status l.heard
  overheard : l.overheard = l.operation.overheard

def ending (l : Life) : Ending where
  phase := l.operation.phase
  status := l.operation.status
  cancelCause := l.operation.cancelCause
  heard := l.heard
  overheard := l.overheard

/-- The same operation at a later time. -/
structure Follows (l l' : Life) : Prop where
  nature : l'.operation.nature = l.operation.nature
  ending : l.isTerminal → l'.ending = l.ending

/-- A change that keeps lives sound and never alters an ending. -/
def Lawful (g : Life → Life) : Prop := ∀ l, l.Sound → (g l).Sound ∧ l.Follows (g l)

theorem Follows.refl (l : Life) : l.Follows l := ⟨rfl, fun _ => rfl⟩

theorem Follows.isTerminal {l l' : Life} (h : l.Follows l') (hl : l.isTerminal) : l'.isTerminal := by
  have := congrArg Ending.phase (h.ending hl)
  rw [Life.isTerminal, Operation.isTerminal] at hl ⊢
  rwa [show l'.operation.phase = l.operation.phase from this]

theorem Follows.trans {l l' l'' : Life} (h : l.Follows l') (h' : l'.Follows l'') : l.Follows l'' where
  nature := h'.nature.trans h.nature
  ending hl := (h'.ending (h.isTerminal hl)).trans (h.ending hl)

theorem lawful_id : Lawful fun l => l := fun l h => ⟨h, Follows.refl l⟩

theorem Lawful.comp {g g' : Life → Life} (h : Lawful g) (h' : Lawful g') :
    Lawful fun l => g' (g l) := fun l hl =>
  have hg := h l hl
  have hg' := h' (g l) hg.1
  ⟨hg'.1, hg.2.trans hg'.2⟩

theorem Sound.status_eq_none {l : Life} (h : l.Sound) (hopen : l.isTerminal = false) :
    l.operation.status = none := by
  cases hs : l.operation.status with
  | none => rfl
  | some s =>
    rw [h.ended, hs] at hopen
    cases hopen

theorem Sound.heard_eq_nil {l : Life} (h : l.Sound) (hopen : l.isTerminal = false) :
    l.heard = [] := by
  have := h.told
  rw [h.status_eq_none hopen] at this
  generalize l.heard = heard at this ⊢
  cases this
  rfl

theorem Sound.overheard_eq_nil {l : Life} (h : l.Sound) (hopen : l.isTerminal = false) :
    l.overheard = [] := by
  rw [h.overheard, Operation.overheard, h.status_eq_none hopen]
  cases l.operation.listener <;> rfl

/-- A change that nobody is told of. -/
theorem Sound.mapOperation {l : Life} (h : l.Sound) {f : Operation → Operation}
    (hnature : (f l.operation).nature = l.operation.nature)
    (hphase : (f l.operation).isTerminal = l.operation.isTerminal)
    (hstatus : (f l.operation).status = l.operation.status)
    (hlistener : (f l.operation).overheard = l.operation.overheard)
    (hended : l.isTerminal → (f l.operation).phase = l.operation.phase ∧
      (f l.operation).cancelCause = l.operation.cancelCause) :
    (l.mapOperation f).Sound ∧ l.Follows (l.mapOperation f) := by
  refine ⟨⟨?_, ?_, ?_⟩, ⟨hnature, fun hl => ?_⟩⟩
  · exact (hphase.trans h.ended).trans (congrArg Option.isSome hstatus).symm
  · have := h.told
    rwa [← hstatus] at this
  · exact h.overheard.trans hlistener.symm
  · obtain ⟨hp, hc⟩ := hended hl
    simp only [Life.ending, Life.mapOperation, hp, hc, hstatus]

/-- An operation ends by reporting its outcome, after what it has told so far. -/
theorem sound_report {l : Life} {status : Status} (hphase : l.isTerminal)
    (hstatus : l.operation.status = none)
    (htold : Told (some status) (l.heard ++ [.status status, .finished]))
    (hoverheard : l.overheard = []) : (l.report status).Sound := by
  rw [report, if_neg (by simp [hstatus])]
  refine ⟨hphase, htold, ?_⟩
  simp only [hoverheard, Operation.overheard]
  cases l.operation.listener <;> rfl

theorem follows_of_open {l l' : Life} (hopen : l.isTerminal = false)
    (h : l'.operation.nature = l.operation.nature) : l.Follows l' :=
  ⟨h, fun hl => absurd hl (by simp [hopen])⟩

theorem lawful_complete (status : Status) : Lawful (·.complete status) := by
  intro l hl
  dsimp only [complete]
  split
  · exact lawful_id l hl
  · next hopen =>
    have hopen : l.isTerminal = false := by simpa using hopen
    refine ⟨sound_report rfl (hl.status_eq_none hopen) ?_ (hl.overheard_eq_nil hopen),
      follows_of_open hopen ?_⟩
    · rw [mapOperation, hl.heard_eq_nil hopen]
      exact Told.outcome status
    · rw [nature_report]
      rfl

theorem lawful_fail (error : ProtocolError) : Lawful (·.fail error) := by
  have hmark : Lawful (·.mapOperation ({ · with error := some error })) := fun l hl =>
    hl.mapOperation rfl rfl rfl rfl fun _ => ⟨rfl, rfl⟩
  exact hmark.comp (lawful_complete _)

theorem lawful_failOpen (error : ProtocolError) : Lawful (·.failOpen error) := by
  intro l hl
  dsimp only [failOpen]
  split
  · exact lawful_id l hl
  · exact lawful_fail error l hl

theorem lawful_cancel (cause : String) : Lawful (·.cancel cause) := by
  intro l hl
  dsimp only [cancel]
  split
  · exact lawful_id l hl
  · next hopen =>
    have hopen : l.isTerminal = false := by simpa using hopen
    refine ⟨sound_report rfl (hl.status_eq_none hopen) ?_ (hl.overheard_eq_nil hopen),
      follows_of_open hopen ?_⟩
    · rw [mapOperation, hl.heard_eq_nil hopen]
      exact Told.outcome _
    · rw [nature_report]
      rfl

/-- A value comes with success. -/
theorem status_of_payload {c : Command} {tag : UInt32} {f : Frame} {reply : Reply}
    {payload : Payload} (h : c.interpret tag f = .ok reply) (hp : reply.payload = some payload) :
    reply.status = .success := by
  unfold Command.interpret at h
  split at h
  · cases h
  · split at h
    · dsimp only at h
      split at h <;> cases h
      cases hp
    · split at h <;> cases h
      rfl

theorem lawful_answer (c : Command) (f : Frame) : Lawful (·.answer c f) := by
  intro l hl
  dsimp only [answer]
  split
  · exact lawful_fail _ l hl
  · next reply hreply =>
    split
    · next payload hpayload =>
      rw [status_of_payload hreply hpayload]
      cases hopen : l.isTerminal with
      | true =>
        have hsome : l.operation.status.isSome := by rw [← hl.ended, hopen]
        rw [hand, if_pos hsome]
        exact lawful_complete _ l hl
      | false =>
        have hnone := hl.status_eq_none hopen
        refine ⟨?_, follows_of_open hopen (by rw [nature_complete, nature_hand])⟩
        have hhand : l.hand payload = { l with heard := l.heard ++ [.payload payload] } := by
          rw [hand, if_neg (by simp [hnone])]
        rw [hhand, complete, if_neg (by simpa [isTerminal] using hopen)]
        refine sound_report rfl hnone ?_ (hl.overheard_eq_nil hopen)
        rw [mapOperation, hl.heard_eq_nil hopen]
        exact Told.value payload
    · exact lawful_complete _ l hl

theorem lawful_moveTo {next : Phase} (hnext : next.isTerminal = false) : Lawful (·.moveTo next) := by
  intro l hl
  dsimp only [moveTo]
  split
  · next hmay =>
    have hopen := Phase.isTerminal_of_mayBecome hmay
    refine hl.mapOperation rfl ?_ rfl rfl fun h => ?_
    · exact hnext.trans hopen.symm
    · rw [Life.isTerminal, Operation.isTerminal, hopen] at h
      cases h
  · exact lawful_id l hl

theorem lawful_listen (listener : Callback) : Lawful (·.listen listener) := by
  intro l hl
  dsimp only [listen]
  split
  · exact lawful_id l hl
  · next hnone =>
    refine hl.mapOperation rfl rfl rfl ?_ fun _ => ⟨rfl, rfl⟩
    have : l.operation.status = none := by simpa using hnone
    cases h : l.operation.listener <;> simp [Operation.overheard, this]

theorem lawful_reset : Lawful (·.reset) := by
  intro l hl
  dsimp only [reset]
  split
  · next hphase =>
    have hopen : l.operation.phase.isTerminal = false := by
      rcases hphase with h | h <;> rw [h] <;> rfl
    refine hl.mapOperation rfl ?_ rfl rfl fun h => ?_
    · exact hopen.symm
    · rw [Life.isTerminal, Operation.isTerminal, hopen] at h
      cases h
  · exact lawful_id l hl

theorem lawful_prepare (bytes : Bytes) : Lawful (·.prepare bytes) := by
  intro l hl
  dsimp only [prepare]
  split
  · exact lawful_id l hl
  · exact hl.mapOperation rfl rfl rfl rfl fun _ => ⟨rfl, rfl⟩

theorem lawful_count (n : Nat) : Lawful (·.count n) := fun _ hl =>
  hl.mapOperation rfl rfl rfl rfl fun _ => ⟨rfl, rfl⟩

theorem lawful_handOn : Lawful (·.handOn) := by
  intro l hl
  dsimp only [handOn]
  split
  · exact hl.mapOperation rfl rfl rfl rfl fun _ => ⟨rfl, rfl⟩
  · exact lawful_moveTo rfl l hl

theorem isTerminal_moveTo {next : Phase} (hnext : next.isTerminal = false) (l : Life) :
    (l.moveTo next).isTerminal = l.isTerminal := by
  unfold moveTo
  split
  · next hmay => exact hnext.trans (Phase.isTerminal_of_mayBecome hmay).symm
  · rfl

theorem isTerminal_prepare (bytes : Bytes) (l : Life) :
    (l.prepare bytes).isTerminal = l.isTerminal := by
  unfold prepare
  split <;> rfl

theorem isTerminal_handOn (l : Life) : l.handOn.isTerminal = l.isTerminal := by
  unfold handOn
  split
  · rfl
  · exact isTerminal_moveTo rfl l

theorem isTerminal_reset (l : Life) : l.reset.isTerminal = l.isTerminal := by
  unfold reset
  split
  · next hphase =>
    rw [isTerminal, isTerminal, Operation.isTerminal, Operation.isTerminal]
    rcases hphase with h | h <;> rw [h] <;> rfl
  · rfl

theorem isTerminal_listen (listener : Callback) (l : Life) :
    (l.listen listener).isTerminal = l.isTerminal := by
  unfold listen
  split <;> rfl

theorem Lawful.among {g : Life → Life} (h : Lawful g) (ids : List Nat) (id : Nat) :
    Lawful (Engine.among ids g id) := by
  intro l hl
  unfold Engine.among
  split
  · exact h l hl
  · exact lawful_id l hl

end Life

/-! ## Sound engines -/

namespace Engine

structure Sound (e : Engine) : Prop where
  flat : e.Flat
  lives : ∀ {id l}, e.life? id = some l → l.Sound
  settled : ∀ {id}, e.isTerminal id → ∀ m ∈ e.members id, e.isTerminal m
  silent : ∀ {id}, e.get? id = none → e.heardOf id = ([], [])

/-- Every operation is still there. -/
def Follows (e e' : Engine) : Prop :=
  ∀ id l, e.life? id = some l → ∃ l', e'.life? id = some l' ∧ l.Follows l'

/-- The engine after one or more whole steps. -/
structure Goes (e e' : Engine) : Prop where
  sound : e'.Sound
  follows : e.Follows e'
  counted : e.Counted → e'.Counted

theorem Follows.refl (e : Engine) : e.Follows e := fun _ l hl => ⟨l, hl, Life.Follows.refl l⟩

theorem Follows.trans {e e' e'' : Engine} (h : e.Follows e') (h' : e'.Follows e'') :
    e.Follows e'' := fun id l hl => by
  obtain ⟨l', hl', hf⟩ := h id l hl
  obtain ⟨l'', hl'', hf'⟩ := h' id l' hl'
  exact ⟨l'', hl'', hf.trans hf'⟩

theorem Goes.refl {e : Engine} (he : e.Sound) : e.Goes e := ⟨he, Follows.refl e, fun h => h⟩

theorem Goes.trans {e e' e'' : Engine} (h : e.Goes e') (h' : e'.Goes e'') : e.Goes e'' :=
  ⟨h'.sound, h.follows.trans h'.follows, fun hcounted => h'.counted (h.counted hcounted)⟩

theorem Follows.nature?_eq {e e' : Engine} (h : e.Follows e') {id : Nat} (hid : id < e.size) :
    e'.nature? id = e.nature? id := by
  obtain ⟨l, hl⟩ := life?_of_lt_size hid
  obtain ⟨l', hl', hf⟩ := h id l hl
  rw [nature?_of_get? (get?_of_life? hl), nature?_of_get? (get?_of_life? hl'), hf.nature]

theorem Follows.members_eq {e e' : Engine} (h : e.Follows e') {id : Nat} (hid : id < e.size) :
    e'.members id = e.members id := by
  rw [members_eq_nature?, h.nature?_eq hid, ← members_eq_nature?]

theorem IsSingle.follows {e e' : Engine} (h : e.Follows e') {id : Nat} (hid : e.IsSingle id) :
    e'.IsSingle id := by
  rwa [IsSingle, h.nature?_eq (lt_size_of_isSingle hid)]

theorem Follows.isTerminal {e e' : Engine} (h : e.Follows e') {id : Nat} (hid : id < e.size)
    (hend : e.isTerminal id) : e'.isTerminal id := by
  obtain ⟨l, hl⟩ := life?_of_lt_size hid
  obtain ⟨l', hl', hf⟩ := h id l hl
  rw [isTerminal_eq, hl] at hend
  rw [isTerminal_eq, hl']
  exact hf.isTerminal hend

theorem TagsDistinct.of_follows {e e' : Engine} (h : e'.TagsDistinct) (hfollows : e.Follows e') :
    e.TagsDistinct := by
  have hold : ∀ {id n}, e.nature? id = some n → e'.nature? id = some n := fun {id n} hn => by
    rw [hfollows.nature?_eq (lt_size_of_nature? hn), hn]
  exact fun i j n n' hi hj => h (hold hi) (hold hj)

theorem Follows.size_le {e e' : Engine} (h : e.Follows e') : e.size ≤ e'.size := by
  refine Nat.le_of_not_lt fun hlt => ?_
  obtain ⟨l, hl⟩ := life?_of_lt_size hlt
  obtain ⟨l', hl', -⟩ := h _ l hl
  exact Nat.lt_irrefl _ (lt_size_of_get? (get?_of_life? hl'))

theorem isTerminal_among {g : Life → Life} (hg : ∀ l, (g l).isTerminal = l.isTerminal)
    (ids : List Nat) (id : Nat) (l : Life) : (among ids g id l).isTerminal = l.isTerminal := by
  unfold among
  split
  · exact hg l
  · rfl

theorem Becomes.isTerminal_of {e e' : Engine} {g : Nat → Life → Life} (h : e.Becomes g e') {id : Nat}
    (hg : ∀ l, e.life? id = some l → (g id l).isTerminal) : e'.isTerminal id := by
  rw [isTerminal_eq, h.lives id]
  cases hl : e.life? id with
  | none => rfl
  | some l => exact hg l hl

/-- A lawful change is a whole step, if what it ends it ends together with all members. -/
theorem Becomes.goes {e e' : Engine} {g : Nat → Life → Life} (h : e.Becomes g e') (he : e.Sound)
    (hg : ∀ id, Life.Lawful (g id))
    (hend : ∀ id l, e.life? id = some l → l.isTerminal = false → (g id l).isTerminal →
      ∀ m ∈ e.members id, e'.isTerminal m) : e.Goes e' := by
  have hfollows : e.Follows e' := fun id l hl =>
    ⟨g id l, by rw [h.lives id, hl]; rfl, (hg id l (he.lives hl)).2⟩
  have hsize := h.size_eq
  have hnature : ∀ id, e'.nature? id = e.nature? id := fun id => by
    by_cases hid : id < e.size
    · exact hfollows.nature?_eq hid
    · have hnone := get?_eq_none_iff.2 (Nat.le_of_not_lt hid)
      rw [nature?, nature?, hnone, h.get?_eq_none.2 hnone]
  have hmembers : ∀ id, e'.members id = e.members id := fun id => by
    rw [members_eq_nature?, hnature, ← members_eq_nature?]
  have hkept : ∀ id, e.isTerminal id → e'.isTerminal id := fun id hid => by
    refine h.isTerminal_of fun l hl => ?_
    rw [isTerminal_eq, hl] at hid
    exact (hg id l (he.lives hl)).2.isTerminal hid
  refine ⟨⟨fun id m hm => ?_, fun {id l'} hl' => ?_, fun {id} hterminal m hm => ?_,
    fun {id} hnone => ?_⟩, hfollows, fun hcounted => hcounted.congr hnature hsize h.counter⟩
  · rw [hmembers] at hm
    rw [IsSingle, hnature]
    exact he.flat id m hm
  · rw [h.lives id, Option.map_eq_some_iff] at hl'
    obtain ⟨l, hl, rfl⟩ := hl'
    exact (hg id l (he.lives hl)).1
  · rw [hmembers] at hm
    cases hl : e.life? id with
    | none =>
      rw [Engine.members_eq, hl] at hm
      cases hm
    | some l =>
      rw [isTerminal_eq, h.lives id, hl] at hterminal
      cases hopen : l.isTerminal with
      | false => exact hend id l hl hopen hterminal m hm
      | true => exact hkept m (he.settled (by rw [isTerminal_eq, hl]; exact hopen) m hm)
  · rw [h.get?_eq_none] at hnone
    rw [h.silent id hnone, he.silent hnone]

/-! ## Whole steps -/

theorem members_of_mem {e : Engine} (he : e.Sound) {id m : Nat} (hm : m ∈ e.members id) :
    e.members m = [] := members_of_isSingle (he.flat id m hm).2

/-- A lawful change to operations that are not batches. -/
theorem Becomes.goes_singles {e e' : Engine} {ids : List Nat} {g : Life → Life}
    (h : e.Becomes (among ids g) e') (he : e.Sound) (hg : Life.Lawful g)
    (hids : ∀ id ∈ ids, e.members id = []) : e.Goes e' := by
  refine h.goes he (hg.among ids) fun id l _ hopen hend m hm => ?_
  unfold among at hend
  split at hend
  · next hid =>
    rw [hids id hid] at hm
    cases hm
  · rw [hopen] at hend
    cases hend

/-- A lawful change that ends nothing. -/
theorem Becomes.goes_open {e e' : Engine} {g : Nat → Life → Life} (h : e.Becomes g e') (he : e.Sound)
    (hg : ∀ id, Life.Lawful (g id))
    (hopen : ∀ id l, (g id l).isTerminal = l.isTerminal) : e.Goes e' :=
  h.goes he hg fun id l _ hl hend => by
    rw [hopen id l, hl] at hend
    cases hend

/-- An operation ends, and its members before it. -/
theorem Becomes.goes_batch {e e' : Engine} {id : Nat} {g : Life → Life} {g' : Nat → Life → Life}
    (h : e.Becomes (fun j l => among [id] g j (g' j l)) e') (he : e.Sound)
    (hg : Life.Lawful g) (hg' : ∀ j, Life.Lawful (g' j)) (hend : ∀ l, (g l).isTerminal)
    (hend' : ∀ m ∈ e.members id, ∀ l, (g' m l).isTerminal)
    (hrest : ∀ j, j ∉ e.members id → g' j = fun l => l) : e.Goes e' ∧ e'.isTerminal id := by
  have hself : id ∉ e.members id := fun hm => Nat.lt_irrefl id (he.flat id id hm).1
  have hmember : ∀ m ∈ e.members id, e'.isTerminal m := fun m hm => by
    refine h.isTerminal_of fun l _ => ?_
    have hne : m ∉ [id] := fun hmid => hself (List.mem_singleton.1 hmid ▸ hm)
    rw [among_of_not_mem hne]
    exact hend' m hm l
  refine ⟨h.goes he (fun j => (hg' j).comp (hg.among _ j)) ?_, ?_⟩
  · intro j l _ hopen hterminal m hm
    by_cases hj : j = id
    · rw [hj] at hm
      exact hmember m hm
    · rw [among_of_not_mem (by simpa using hj)] at hterminal
      by_cases hjm : j ∈ e.members id
      · rw [members_of_mem he hjm] at hm
        cases hm
      · rw [hrest j hjm, hopen] at hterminal
        cases hterminal
  · refine h.isTerminal_of fun l _ => ?_
    rw [among_of_mem (List.mem_singleton_self id)]
    exact hend _

theorem goes_fail {e : Engine} (he : e.Sound) (id : Nat) (error : ProtocolError) :
    e.Goes (e.fail id error) ∧ (e.fail id error).isTerminal id := by
  refine (becomes_fail he.flat id error).goes_batch he (Life.lawful_fail error)
    ((Life.lawful_failOpen error).among _) (Life.isTerminal_fail error) (fun m hm l => ?_)
    fun j hj => among_of_not_mem hj _
  rw [among_of_mem hm]
  exact Life.isTerminal_failOpen error l

theorem goes_cancel {e : Engine} (he : e.Sound) (id : Nat) (cause : String) :
    e.Goes (e.cancel id cause).1 ∧ (e.cancel id cause).1.isTerminal id := by
  have hcancel := becomes_cancel he.flat id cause
  split at hcancel
  · next hend =>
    refine ⟨hcancel.goes_open he (fun _ => Life.lawful_id) fun _ _ => rfl, ?_⟩
    refine hcancel.isTerminal_of fun l hl => ?_
    rwa [isTerminal_eq, hl] at hend
  · have hself : id ∉ e.members id := fun hm => Nat.lt_irrefl id (he.flat id id hm).1
    have hparts : e.Becomes (fun j l => among [id] (·.cancel cause) j
        (among (e.members id) (·.cancel cause) j l)) (e.cancel id cause).1 :=
      hcancel.congr fun j l _ => by
        by_cases hj : j = id
        · rw [hj, among_of_mem List.mem_cons_self, among_of_not_mem hself,
            among_of_mem (List.mem_singleton_self id)]
        · rw [among_of_not_mem (show j ∉ [id] by simpa using hj)]
          unfold among
          simp [hj]
    refine hparts.goes_batch he (Life.lawful_cancel cause) ((Life.lawful_cancel cause).among _)
      (Life.isTerminal_cancel cause) (fun m hm l => ?_) fun j hj => among_of_not_mem hj _
    rw [among_of_mem hm]
    exact Life.isTerminal_cancel cause l

/-- A frame is a whole step, and if it is the last one of its operation, that has ended. -/
theorem goes_receive {e : Engine} (he : e.Sound) (id : Nat) (f : Frame) :
    e.Goes (e.receive id f).1 ∧
      ((e.receive id f).2 ≠ .pending → (e.receive id f).1.isTerminal id) := by
  obtain ⟨g, hg, hstep⟩ := becomes_receive he.flat id f
  generalize (e.receive id f).2 = outcome at hg ⊢
  cases hg with
  | idle =>
    exact ⟨hstep.goes_open he (fun _ => Life.lawful_id) fun _ _ => rfl, fun h => absurd rfl h⟩
  | @single op c hop hc =>
    refine ⟨hstep.goes_singles he (Life.lawful_answer c f) ?_, fun _ => ?_⟩
    · simpa using members_of_isSingle (isSingle_of_get? hop hc)
    · refine hstep.isTerminal_of fun l _ => ?_
      rw [among_of_mem (List.mem_singleton_self id)]
      exact Life.isTerminal_answer c f l
  | sentinel hop hb htag =>
    have hmembers := members_of_batch hop hb
    obtain ⟨hgoes, hend⟩ := hstep.goes_batch he (Life.lawful_complete _)
      ((Life.lawful_complete _).among _) (Life.isTerminal_complete _)
      (fun m hm l => by
        rw [among_of_mem (hmembers ▸ hm)]
        exact Life.isTerminal_complete _ l)
      fun j hj => among_of_not_mem (hmembers ▸ hj) _
    exact ⟨hgoes, fun _ => hend⟩
  | @member op member b c m hop hb hm hmember hc =>
    refine ⟨hstep.goes_singles he (Life.lawful_answer c f) ?_, fun h => absurd rfl h⟩
    simpa using members_of_isSingle (isSingle_of_get? hmember hc)
  | @fatal op member b c m hop hb hm hmember hc error =>
    have hmembers := members_of_batch hop hb
    obtain ⟨hgoes, hend⟩ := hstep.goes_batch he (Life.lawful_fail error)
      (fun j => ((Life.lawful_answer c f).among _ j).comp
        ((Life.lawful_failOpen error).among _ j)) (Life.isTerminal_fail error)
      (fun m' hm' l => by
        rw [among_of_mem (hmembers ▸ hm')]
        exact Life.isTerminal_failOpen error _)
      fun j hj => by
        rw [hmembers] at hj
        have hjm : j ∉ [m] := fun h => hj (List.mem_singleton.1 h ▸ hm)
        rw [among_of_not_mem hj, among_of_not_mem hjm]
    exact ⟨hgoes, fun _ => hend⟩

theorem goes_fill {e : Engine} (he : e.Sound) (id room : Nat) : e.Goes (e.fill id room).1 := by
  cases hop : e.get? id with
  | none =>
    have hstep : e.fill id room = (e, []) := by
      simp [fill, prepare, unwritten, count, hop, modify_of_none hop]
    rw [hstep]
    exact Goes.refl he
  | some op =>
    refine (becomes_fill he.flat hop room).goes_open he (fun j => ?_) fun j l => ?_
    · exact (((Life.lawful_prepare _).comp (Life.lawful_count _)).among _ j).comp
        (((Life.lawful_moveTo rfl).among _ j).comp ((Life.lawful_moveTo rfl).among _ j))
    · rw [isTerminal_among (Life.isTerminal_moveTo rfl), isTerminal_among (Life.isTerminal_moveTo rfl)]
      refine isTerminal_among (fun l => ?_) _ _ _
      exact Life.isTerminal_prepare _ l

theorem goes_finishWriting {e : Engine} (he : e.Sound) (id : Nat) :
    e.Goes (e.finishWriting id) := by
  cases hop : e.get? id with
  | none =>
    have hstep : e.finishWriting id = e := by
      simp [finishWriting, advance, hop, modify_of_none hop]
    rw [hstep]
    exact Goes.refl he
  | some op =>
    refine (becomes_finishWriting he.flat hop).goes_open he (fun j => ?_) fun j l => ?_
    · exact (Life.lawful_handOn.among _ j).comp ((Life.lawful_moveTo rfl).among _ j)
    · rw [isTerminal_among (Life.isTerminal_moveTo rfl), isTerminal_among Life.isTerminal_handOn]

theorem goes_reset {e : Engine} (he : e.Sound) (id : Nat) : e.Goes (e.reset id).1 := by
  refine (becomes_reset he.flat id).goes_open he (fun j => ?_) fun j l => ?_
  · split
    · exact Life.lawful_reset.among _ j
    · exact Life.lawful_id
  · split
    · exact isTerminal_among Life.isTerminal_reset _ _ _
    · rfl

/-- A change that is of no consequence to what is told. -/
theorem goes_assign {e : Engine} (he : e.Sound) (id : Nat) (node : Option Nat) :
    e.Goes (e.modify id ({ · with node := node })) := by
  refine (becomes_modify e id _).goes_open he (Life.Lawful.among (fun l hl => ?_) _) fun j l => ?_
  · exact hl.mapOperation rfl rfl rfl rfl fun _ => ⟨rfl, rfl⟩
  · refine isTerminal_among (fun l => ?_) _ j l
    rfl

/-! ## New operations -/

theorem goes_add {e : Engine} (he : e.Sound) {work : Work} (idempotent : Bool) (callback : Callback)
    (hwork : ∀ m ∈ work.members, e.IsSingle m) : e.Goes (e.add work idempotent callback).1 := by
  have hold : ∀ {id}, id ≠ e.size → (e.add work idempotent callback).1.life? id = e.life? id :=
    life?_add e work idempotent callback
  have hnew := life?_add_size e work idempotent callback
  rw [he.silent (get?_eq_none_iff.2 (Nat.le_refl _))] at hnew
  have hsingle : ∀ m, e.IsSingle m → m < e.size ∧ (e.add work idempotent callback).1.IsSingle m := by
    rintro m ⟨n, c, hn, hc⟩
    have hm : m < e.size := lt_size_of_nature? hn
    refine ⟨hm, n, c, ?_, hc⟩
    rw [nature?, get?_eq, hold (Nat.ne_of_lt hm), ← get?_eq]
    exact hn
  have hmembers : ∀ id, (e.add work idempotent callback).1.members id =
      if id = e.size then work.members else e.members id := fun id => by
    split
    · next h =>
      rw [members_eq, h, hnew]
      rfl
    · next h => rw [members_eq, hold h, ← members_eq]
  refine ⟨⟨fun id m hm => ?_, fun {id l} hl => ?_, fun {id} hend m hm => ?_, fun {id} hnone => ?_⟩,
    fun id l hl => ?_, fun hcounted => hcounted.add work idempotent callback⟩
  · rw [hmembers] at hm
    split at hm
    · next h =>
      have := hsingle m (hwork m hm)
      exact ⟨h ▸ this.1, this.2⟩
    · have := he.flat id m hm
      exact ⟨this.1, (hsingle m this.2).2⟩
  · by_cases h : id = e.size
    · rw [h, hnew] at hl
      cases hl
      exact ⟨rfl, Told.nothing, rfl⟩
    · rw [hold h] at hl
      exact he.lives hl
  · have hne : id ≠ e.size := fun h => by
      rw [isTerminal_eq, h, hnew] at hend
      cases hend
    rw [hmembers, if_neg hne] at hm
    have hmem : m ≠ e.size := fun h => by
      have := (hsingle m (he.flat id m hm).2).1
      omega
    rw [isTerminal_eq, hold hne, ← isTerminal_eq] at hend
    rw [isTerminal_eq, hold hmem, ← isTerminal_eq]
    exact he.settled hend m hm
  · rw [get?_add] at hnone
    split at hnone
    · cases hnone
    · rw [heardOf_add]
      exact he.silent hnone
  · refine ⟨l, ?_, Life.Follows.refl l⟩
    rw [hold fun h => ?_, hl]
    rw [h, life?, get?_eq_none_iff.2 (Nat.le_refl _)] at hl
    cases hl

/-- Neither metrics nor logs matter here. -/
theorem Goes.congr {e e' e'' : Engine} (h : e.Goes e') (hops : e''.operations = e'.operations)
    (hjournal : e''.reports.journal = e'.reports.journal) (hcounter : e''.nextTag = e'.nextTag) :
    e.Goes e'' :=
  h.trans ((becomes_of_eq (Becomes.refl e') e'' hops hjournal hcounter).goes_open h.sound
    (fun _ => Life.lawful_id) fun _ _ => rfl)

theorem goes_create {e : Engine} (he : e.Sound) (command : Command) (callback : Callback) :
    e.Goes (e.create command callback).1 :=
  goes_add he _ callback fun _ hm => absurd hm List.not_mem_nil

theorem goes_batch {e : Engine} (he : e.Sound) (family : BatchFamily) {members : List Nat}
    (aggregate : Callback) (h : ∀ m ∈ members, e.IsSingle m) :
    e.Goes (e.batch family members aggregate).1 := by
  obtain ⟨multiplexer, idempotent, hbatch⟩ := batch_eq e family members aggregate
  obtain ⟨listener, hjoined⟩ := becomes_joined aggregate h
  have hgoes := hjoined.goes_open he ((Life.lawful_listen listener).among _)
    (isTerminal_among (Life.isTerminal_listen listener) _)
  rw [hbatch]
  refine hgoes.trans (goes_add hgoes.sound _ _ fun m hm => ?_)
  exact (hjoined.isSingle_iff (keepsNature_among (Life.nature_listen listener) _) m).2 (h m hm)

end Engine

end ShardedCache

import ShardedCache.Proofs.Engine.Outcome

/-!
# What writing does to lives

A request is written piece by piece; the members of a batch go through the phases with it. Nothing
here ends an operation.
-/

namespace ShardedCache

namespace Life

/-- Encodes the request, unless that has been done. -/
def prepare (bytes : Bytes) (l : Life) : Life :=
  if l.operation.request.isSome then l
  else l.mapOperation ({ · with request := some { bytes } })

/-- Counts bytes of the request as written. -/
def count (n : Nat) (l : Life) : Life :=
  l.mapOperation fun op =>
    { op with request := op.request.map fun r => { r with written := r.written + n } }

/-- The whole request has been handed on. -/
def handOn (l : Life) : Life :=
  if l.isTerminal then l.mapOperation ({ · with request := none }) else l.moveTo .reading

@[simp] theorem nature_prepare (bytes : Bytes) (l : Life) :
    (l.prepare bytes).operation.nature = l.operation.nature := by
  unfold prepare
  split <;> rfl

@[simp] theorem phase_prepare (bytes : Bytes) (l : Life) :
    (l.prepare bytes).operation.phase = l.operation.phase := by
  unfold prepare
  split <;> rfl

@[simp] theorem phase_count (n : Nat) (l : Life) :
    (l.count n).operation.phase = l.operation.phase := rfl

@[simp] theorem nature_count (n : Nat) (l : Life) :
    (l.count n).operation.nature = l.operation.nature := by
  cases l
  rfl

@[simp] theorem nature_handOn (l : Life) : l.handOn.operation.nature = l.operation.nature := by
  unfold handOn
  split
  · rfl
  · exact nature_moveTo _ l

theorem handOn_of_isTerminal {l : Life} (h : l.isTerminal = true) :
    l.handOn = l.mapOperation ({ · with request := none }) := by
  rw [handOn, if_pos h]

theorem handOn_of_open {l : Life} (h : l.isTerminal = false) : l.handOn = l.moveTo .reading := by
  rw [handOn, if_neg (by simp [h])]

end Life

/-- The request of an operation, be it encoded or not. -/
def Engine.requestOf (e : Engine) (op : Operation) : Request :=
  op.request.getD { bytes := e.encode op }

namespace Engine

theorem becomes_prepare {e : Engine} {id : Nat} {op : Operation} (hop : e.get? id = some op) :
    e.Becomes (among [id] (·.prepare (e.encode op))) (e.prepare id) := by
  rw [prepare, hop]
  dsimp only
  split
  · next hsome =>
    refine becomes_self fun l hl => ?_
    simp only [Life.prepare, operation_eq hop hl, hsome, ↓reduceIte]
  · next hnone =>
    refine becomes_among_congr (becomes_modify e id _) fun l hl => ?_
    simp only [Life.prepare, operation_eq hop hl, hnone, Bool.false_eq_true, ↓reduceIte]

theorem get?_prepare {e : Engine} {id : Nat} {op : Operation} (hop : e.get? id = some op) :
    (e.prepare id).get? id = some { op with request := some (e.requestOf op) } := by
  have hlife := (becomes_prepare hop).lives id
  rw [among_of_mem (List.mem_singleton_self id), life?_of_get? hop] at hlife
  rw [get?_of_life? hlife]
  cases hr : op.request with
  | none => simp [Life.prepare, Life.mapOperation, hr, requestOf]
  | some r =>
    cases op
    cases hr
    rfl

theorem becomes_advanceMembers {e : Engine} (hflat : e.Flat) (id : Nat) (next : Phase) :
    e.Becomes (among (e.members id) (·.moveTo next)) (e.advanceMembers id next) :=
  becomes_each (Life.nature_moveTo next) (Life.moveTo_moveTo next)
    (fun e m _ => becomes_advance e m next) fun m hm => (hflat id m hm).2

/-- What an operation hands out of its request, if there is room for some bytes. -/
def piece (e : Engine) (op : Operation) (room : Nat) : Bytes := (e.requestOf op).left.take room

theorem piece_eq {e : Engine} {id : Nat} {op : Operation} (hop : e.get? id = some op) (room : Nat) :
    ((e.prepare id).unwritten id).take room = e.piece op room := by
  simp [unwritten, get?_prepare hop, piece]

theorem fill_snd {e : Engine} {id : Nat} {op : Operation} (hop : e.get? id = some op) (room : Nat) :
    (e.fill id room).2 = e.piece op room := by
  unfold fill
  dsimp only
  rw [piece_eq hop]
  split
  · rfl
  · split <;> rfl

theorem becomes_count {e : Engine} {id : Nat} {op : Operation} (hop : e.get? id = some op)
    (n : Nat) :
    e.Becomes (among [id] fun l => (l.prepare (e.encode op)).count n) ((e.prepare id).count id n) :=
  ((becomes_prepare hop).trans (becomes_modify _ id _)).congr fun j l _ =>
    among_among [id] (·.prepare (e.encode op)) (·.count n) j l

/-- The first byte of a request moves its operation on, and the members with it. -/
theorem becomes_fill {e : Engine} (hflat : e.Flat) {id : Nat} {op : Operation}
    (hop : e.get? id = some op) (room : Nat) :
    let n := (e.piece op room).length
    e.Becomes (fun j l =>
        among (if n = 0 ∨ ¬ op.phase.mayBecome .writing then [] else e.members id)
          (·.moveTo .writing) j
          (among (if n = 0 then [] else [id]) (·.moveTo .writing) j
            (among [id] (fun l => (l.prepare (e.encode op)).count n) j l)))
      (e.fill id room).1 := by
  intro n
  have hcounted := becomes_count hop n
  have hkeeps : ∀ j, Life.KeepsNature
      (among [id] (fun l => (l.prepare (e.encode op)).count n) j) :=
    keepsNature_among (by simp [Life.KeepsNature]) _
  have hstep : (e.fill id room).1 =
      if n = 0 then (e.prepare id).count id n
      else if (((e.prepare id).count id n).advance id .writing).2 then
        (((e.prepare id).count id n).advance id .writing).1.advanceMembers id .writing
      else (((e.prepare id).count id n).advance id .writing).1 := by
    unfold fill
    dsimp only
    rw [piece_eq hop]
    by_cases hn : n = 0
    · rw [if_pos hn, if_pos (by simpa [n] using hn)]
    · rw [if_neg hn, if_neg (by simpa [n] using hn)]
      rcases ((e.prepare id).count id n).advance id .writing with ⟨_, _ | _⟩ <;> rfl
  have hphase : (((e.prepare id).count id n).get? id).any (·.phase.mayBecome .writing) =
      op.phase.mayBecome .writing := by
    have hlife := hcounted.lives id
    rw [life?_of_get? hop, Option.map_some, among_of_mem (List.mem_singleton_self id)] at hlife
    rw [get?_of_life? hlife, Option.any_some, Life.phase_count, Life.phase_prepare]
  by_cases hzero : n = 0
  · have hfill : (e.fill id room).1 = (e.prepare id).count id n := by rw [hstep, if_pos hzero]
    rw [hfill]
    refine hcounted.congr fun j l _ => ?_
    rw [if_pos (.inl hzero), if_pos hzero, among_of_not_mem List.not_mem_nil]
  · have hstarted := hcounted.trans (becomes_advance _ id .writing)
    rw [if_neg hzero, advance_snd, hphase] at hstep
    by_cases hmay : op.phase.mayBecome .writing
    · rw [hstep, if_pos hmay]
      have hkept : ∀ j, Life.KeepsNature fun l => among [id] (·.moveTo .writing) j
          (among [id] (fun l => (l.prepare (e.encode op)).count n) j l) := fun j l =>
        (keepsNature_among (Life.nature_moveTo _) [id] j _).trans (hkeeps j l)
      have hmembers := becomes_advanceMembers (hstarted.flat hkept hflat) id .writing
      rw [hstarted.members_eq hkept] at hmembers
      refine (hstarted.trans hmembers).congr fun j l _ => ?_
      rw [if_neg (by simp [hzero, hmay]), if_neg hzero]
    · rw [hstep, if_neg hmay]
      refine hstarted.congr fun j l _ => ?_
      rw [if_pos (.inr hmay), if_neg hzero, among_of_not_mem List.not_mem_nil]

/-- The members of a batch whose request has been handed on wait for their responses with it. -/
theorem becomes_finishWriting {e : Engine} (hflat : e.Flat) {id : Nat} {op : Operation}
    (hop : e.get? id = some op) :
    e.Becomes (fun j l => among (if op.phase.mayBecome .reading then e.members id else [])
        (·.moveTo .reading) j (among [id] (·.handOn) j l)) (e.finishWriting id) := by
  have hadvanced := becomes_advance e id .reading
  have hsnd : (e.advance id .reading).2 = op.phase.mayBecome .reading := by
    rw [advance_snd, hop, Option.any_some]
  have hkeeps : ∀ j, Life.KeepsNature (among [id] (·.moveTo .reading) j) :=
    keepsNature_among (Life.nature_moveTo _) _
  by_cases hmay : op.phase.mayBecome .reading
  · have hstep : e.finishWriting id = (e.advance id .reading).1.advanceMembers id .reading := by
      unfold finishWriting
      cases h : e.advance id .reading with
      | mk e' b =>
        rw [h, hmay] at hsnd
        cases hsnd
        rfl
    have hmembers := becomes_advanceMembers (hadvanced.flat hkeeps hflat) id .reading
    rw [hadvanced.members_eq hkeeps] at hmembers
    rw [hstep, if_pos hmay]
    refine (hadvanced.trans hmembers).congr fun j l hl => ?_
    congr 1
    unfold among
    split
    · next hj =>
      rw [List.mem_singleton.1 hj] at hl
      refine (Life.handOn_of_open ?_).symm
      rw [Life.isTerminal, operation_eq hop hl]
      exact Phase.isTerminal_of_mayBecome hmay
    · rfl
  · have hsame : (e.advance id .reading).1 = e := by simp [advance, hop, hmay]
    have hstep : e.finishWriting id =
        if e.isTerminal id then e.modify id ({ · with request := none }) else e := by
      unfold finishWriting
      cases h : e.advance id .reading with
      | mk e' b =>
        rw [h, Bool.eq_false_iff.2 hmay] at hsnd
        rw [h] at hsame
        cases hsnd
        cases hsame
        rfl
    have hend : e.isTerminal id = op.isTerminal := by
      rw [isTerminal, hop, Option.map_some, Option.getD_some]
    rw [hstep, if_neg hmay, hend]
    split
    · next hterminal =>
      have hcleared : e.Becomes (among [id] (·.handOn)) (e.modify id ({ · with request := none })) :=
        becomes_among_congr (becomes_modify e id _) fun l hl => by
          refine (Life.handOn_of_isTerminal ?_).symm
          rw [Life.isTerminal, operation_eq hop hl, hterminal]
      exact hcleared.congr fun j l _ => by rw [among_of_not_mem List.not_mem_nil]
    · next hopen =>
      have hkept : e.Becomes (among [id] (·.handOn)) e := becomes_self fun l hl => by
        rw [Life.handOn_of_open]
        · simp [Life.moveTo, operation_eq hop hl, hmay]
        · rw [Life.isTerminal, operation_eq hop hl, Bool.eq_false_iff.2 hopen]
      exact hkept.congr fun j l _ => by rw [among_of_not_mem List.not_mem_nil]

/-! ## Back to the start -/

/-- The request has not been written in full. -/
def isUnwritten (e : Engine) (id : Nat) : Bool :=
  (e.get? id).any fun op => op.phase == .queued || op.phase == .writing

theorem isUnwritten_of_get? {e : Engine} {id : Nat} {op : Operation} (hop : e.get? id = some op) :
    e.isUnwritten id = true ↔ op.phase = .queued ∨ op.phase = .writing := by
  rw [isUnwritten, hop]
  simp

theorem reset_of_not_isUnwritten {e : Engine} {id : Nat} (h : ¬ e.isUnwritten id) {l : Life}
    (hl : e.life? id = some l) : l.reset = l := by
  rw [isUnwritten_of_get? (get?_of_life? hl)] at h
  exact if_neg h

theorem becomes_resetTo_of_members {depth : Nat} {e : Engine} {id : Nat}
    (hself : id ∉ e.members id)
    (hmembers : ∀ e', e.Becomes (among [id] (·.reset)) e' →
      e'.Becomes (among (e.members id) (·.reset)) (e'.each (e.members id) (resetTo depth))) :
    e.Becomes (if e.isUnwritten id then among (id :: e.members id) (·.reset) else fun _ l => l)
      (resetTo (depth + 1) e id) := by
  cases hop : e.get? id with
  | none =>
    have hsame : resetTo (depth + 1) e id = e := by simp [resetTo, hop]
    have hnot : ¬ e.isUnwritten id := by simp [isUnwritten, hop]
    rw [hsame, if_neg hnot]
    exact Becomes.refl e
  | some op =>
    have hlist : op.members = e.members id := by
      rw [members, hop, Option.map_some, Option.getD_some]
    by_cases hphase : op.phase = .queued ∨ op.phase = .writing
    · have hstarted : e.Becomes (among [id] (·.reset)) (e.modify id fun op =>
          { op with phase := .queued, request := op.request.map ({ · with written := 0 }) }) :=
        becomes_among_congr (becomes_modify e id _) fun l hl => by
          rw [Life.reset, if_pos (by rwa [operation_eq hop hl])]
      have hstep : resetTo (depth + 1) e id = (e.modify id fun op =>
          { op with phase := .queued, request := op.request.map ({ · with written := 0 }) }).each
            (e.members id) (resetTo depth) := by
        simp only [resetTo, hop, hphase, ↓reduceIte, hlist]
      rw [hstep, if_pos ((isUnwritten_of_get? hop).2 hphase)]
      refine (hstarted.trans (hmembers _ hstarted)).congr fun j l _ => ?_
      by_cases hj : j = id
      · subst hj
        rw [among_of_mem (List.mem_singleton_self j), among_of_not_mem hself,
          among_of_mem List.mem_cons_self]
      · rw [among_of_not_mem (show j ∉ [id] by simpa using hj)]
        unfold among
        simp [hj]
    · have hsame : resetTo (depth + 1) e id = e := by
        simp only [resetTo, hop, hphase, ↓reduceIte]
      rw [hsame, if_neg (by rwa [isUnwritten_of_get? hop])]
      exact Becomes.refl e

theorem becomes_resetTo_single (depth : Nat) {e : Engine} {id : Nat} (h : e.members id = []) :
    e.Becomes (among [id] (·.reset)) (resetTo (depth + 1) e id) := by
  refine (becomes_resetTo_of_members (by simp [h]) fun e' _ => ?_).congr fun j l hl => ?_
  · rw [h]
    exact (Becomes.refl _).congr fun _ _ _ => by simp [among]
  · split
    · rw [h]
    · next hnot =>
      refine (ite_eq_right_iff.2 fun hj => ?_).symm
      rw [List.mem_singleton.1 hj] at hl
      exact reset_of_not_isUnwritten hnot hl

/-- A batch that starts over takes its members along. -/
theorem becomes_reset {e : Engine} (hflat : e.Flat) (id : Nat) :
    e.Becomes (if e.isUnwritten id then among (id :: e.members id) (·.reset) else fun _ l => l)
      (e.reset id).1 := by
  have hself : id ∉ e.members id := fun h => Nat.lt_irrefl id (hflat id id h).1
  refine becomes_resetTo_of_members hself fun e' he' => ?_
  cases id with
  | zero =>
    have hnone : e.members 0 = [] :=
      List.eq_nil_iff_forall_not_mem.2 fun m hm => Nat.not_lt_zero m (hflat 0 m hm).1
    rw [hnone]
    exact (Becomes.refl _).congr fun _ _ _ => by simp [among]
  | succ depth =>
    refine becomes_each Life.nature_reset Life.reset_reset
      (fun e m hm => becomes_resetTo_single depth (members_of_isSingle hm)) fun m hm => ?_
    exact (he'.isSingle_iff (keepsNature_among Life.nature_reset _) m).2 (hflat _ m hm).2

end Engine

end ShardedCache

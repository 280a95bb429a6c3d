import ShardedCache.Proofs.Engine.Sound

/-!
# What steps leave as it is

Making, joining and writing tell nobody anything and end nothing (`Engine.Same`); and the request of
an operation is changed only by writing that operation.
-/

namespace ShardedCache

namespace Life

/-- A change that ends nothing and that nobody hears of. -/
def Discreet (g : Life → Life) : Prop := ∀ l, (g l).operation.nature = l.operation.nature ∧
  (g l).isTerminal = l.isTerminal ∧ (g l).heard = l.heard ∧ (g l).overheard = l.overheard

theorem discreet_id : Discreet fun l => l := fun _ => ⟨rfl, rfl, rfl, rfl⟩

theorem Discreet.comp {g g' : Life → Life} (h : Discreet g) (h' : Discreet g') :
    Discreet fun l => g' (g l) := fun l => by
  obtain ⟨hnature, hterminal, hheard, hoverheard⟩ := h' (g l)
  rw [hnature, hterminal, hheard, hoverheard]
  exact h l

theorem Discreet.among {g : Life → Life} (h : Discreet g) (ids : List Nat) (id : Nat) :
    Discreet (Engine.among ids g id) := by
  intro l
  unfold Engine.among
  split
  · exact h l
  · exact discreet_id l

theorem discreet_moveTo {next : Phase} (hnext : next.isTerminal = false) :
    Discreet (·.moveTo next) := fun l => by
  refine ⟨nature_moveTo next l, isTerminal_moveTo hnext l, ?_, ?_⟩ <;>
  · dsimp only [moveTo]
    split <;> rfl

theorem discreet_prepare (bytes : Bytes) : Discreet (·.prepare bytes) := fun l => by
  refine ⟨nature_prepare bytes l, isTerminal_prepare bytes l, ?_, ?_⟩ <;>
  · dsimp only [prepare]
    split <;> rfl

theorem discreet_count (n : Nat) : Discreet (·.count n) := fun _ => ⟨rfl, rfl, rfl, rfl⟩

theorem discreet_handOn : Discreet (·.handOn) := fun l => by
  refine ⟨nature_handOn l, isTerminal_handOn l, ?_, ?_⟩ <;>
  · dsimp only [handOn]
    split
    · rfl
    · obtain ⟨-, -, hheard, hoverheard⟩ := @discreet_moveTo .reading rfl l
      first | exact hheard | exact hoverheard

theorem discreet_listen (listener : Callback) : Discreet (·.listen listener) := fun l => by
  refine ⟨nature_listen listener l, isTerminal_listen listener l, ?_, ?_⟩ <;>
  · dsimp only [listen]
    split <;> rfl

theorem discreet_reset : Discreet (·.reset) := fun l => by
  refine ⟨nature_reset l, isTerminal_reset l, ?_, ?_⟩ <;>
  · dsimp only [reset]
    split <;> rfl

@[simp] theorem request_moveTo (next : Phase) (l : Life) :
    (l.moveTo next).operation.request = l.operation.request := by
  unfold moveTo
  split <;> rfl

@[simp] theorem request_listen (listener : Callback) (l : Life) :
    (l.listen listener).operation.request = l.operation.request := by
  unfold listen
  split <;> rfl

theorem request_cancel_of_none {l : Life} (h : l.operation.request = none) (cause : String) :
    (l.cancel cause).operation.request = none := by
  unfold cancel report
  split
  · exact h
  · split
    · exact h
    · simp [mapOperation, h]

end Life

namespace Engine

/-- Nothing has come of an operation meanwhile. -/
structure Same (e e' : Engine) (id : Nat) : Prop where
  nature : e'.nature? id = e.nature? id
  terminal : e'.isTerminal id = e.isTerminal id
  heard : e'.heardOf id = e.heardOf id

theorem Same.trans {e e' e'' : Engine} {id : Nat} (h : e.Same e' id) (h' : e'.Same e'' id) :
    e.Same e'' id :=
  ⟨h'.nature.trans h.nature, h'.terminal.trans h.terminal, h'.heard.trans h.heard⟩

def request? (e : Engine) (id : Nat) : Option Request := (e.get? id).bind (·.request)

theorem request?_eq_life? (e : Engine) (id : Nat) :
    e.request? id = (e.life? id).bind (·.operation.request) := by
  rw [request?, get?_eq, Option.bind_map]
  rfl

theorem request?_of_get? {e : Engine} {id : Nat} {op : Operation} (hop : e.get? id = some op) :
    e.request? id = op.request := by
  rw [request?, hop, Option.bind_some]

theorem request_among {g : Life → Life} (hg : ∀ l, (g l).operation.request = l.operation.request)
    (ids : List Nat) (id : Nat) (l : Life) :
    (among ids g id l).operation.request = l.operation.request := by
  unfold among
  split
  · exact hg l
  · rfl

section Becomes

variable {e e' : Engine} {g : Nat → Life → Life} {id : Nat}

theorem Becomes.same (h : e.Becomes g e') (hg : Life.Discreet (g id)) : e.Same e' id := by
  cases hl : e.life? id with
  | none =>
    have hnone := Engine.get?_eq_none.2 hl
    have hnone' := h.get?_eq_none.2 hnone
    refine ⟨?_, ?_, h.silent id hnone⟩
    · rw [nature?, nature?, hnone, hnone']
    · rw [isTerminal, isTerminal, hnone, hnone']
  | some l =>
    have hl' : e'.life? id = some (g id l) := by rw [h.lives id, hl, Option.map_some]
    obtain ⟨hnature, hterminal, hheard, hoverheard⟩ := hg l
    refine ⟨?_, ?_, ?_⟩
    · rw [nature?, nature?, get?_of_life? hl, get?_of_life? hl', Option.map_some, hnature,
        Option.map_some]
    · rw [isTerminal_eq, isTerminal_eq, hl, hl', Option.map_some, hterminal, Option.map_some]
    · obtain ⟨op, hop, rfl⟩ := Option.map_eq_some_iff.1 hl
      obtain ⟨op', hop', heq⟩ := Option.map_eq_some_iff.1 hl'
      rw [← heq] at hheard hoverheard
      exact Prod.ext hheard hoverheard

theorem Becomes.request?_eq (h : e.Becomes g e')
    (hg : ∀ l, (g id l).operation.request = l.operation.request) :
    e'.request? id = e.request? id := by
  rw [request?_eq_life?, request?_eq_life?, h.lives id, Option.bind_map]
  congr 1
  funext l
  exact hg l

end Becomes

/-! ## Writing -/

section Writing

variable {e : Engine} (hflat : e.Flat) {id : Nat}

include hflat

theorem same_fill (id room j : Nat) : e.Same (e.fill id room).1 j := by
  cases hop : e.get? id with
  | none =>
    have hstep : (e.fill id room).1 = e := by
      simp [fill, prepare, unwritten, count, hop, modify_of_none hop]
    rw [hstep]
    exact (Becomes.refl e).same Life.discreet_id
  | some op =>
    refine (becomes_fill hflat hop room).same ?_
    exact ((((Life.discreet_prepare _).comp (Life.discreet_count _)).among _ j).comp
      ((Life.discreet_moveTo rfl).among _ j)).comp ((Life.discreet_moveTo rfl).among _ j)

theorem same_finishWriting (id j : Nat) : e.Same (e.finishWriting id) j := by
  cases hop : e.get? id with
  | none =>
    have hstep : e.finishWriting id = e := by
      simp [finishWriting, advance, hop, modify_of_none hop]
    rw [hstep]
    exact (Becomes.refl e).same Life.discreet_id
  | some op =>
    refine (becomes_finishWriting hflat hop).same ?_
    exact (Life.discreet_handOn.among _ j).comp ((Life.discreet_moveTo rfl).among _ j)

/-- The request counts what has been copied out. -/
theorem request?_fill {op : Operation} (hop : e.get? id = some op) (room : Nat) :
    (e.fill id room).1.request? id = some { e.requestOf op with
      written := (e.requestOf op).written + (e.piece op room).length } := by
  have hlife := (becomes_fill hflat hop room).lives id
  rw [life?_of_get? hop, Option.map_some] at hlife
  rw [request?_eq_life?, hlife, Option.bind_some, request_among (Life.request_moveTo _),
    request_among (Life.request_moveTo _), among_of_mem (List.mem_singleton_self id)]
  cases hr : op.request with
  | none => simp [Life.count, Life.prepare, Life.mapOperation, requestOf, hr]
  | some r => simp [Life.count, Life.prepare, Life.mapOperation, requestOf, hr]

theorem request?_fill_of_ne {j : Nat} (hj : j ≠ id) (room : Nat) :
    (e.fill id room).1.request? j = e.request? j := by
  cases hop : e.get? id with
  | none =>
    have hstep : (e.fill id room).1 = e := by
      simp [fill, prepare, unwritten, count, hop, modify_of_none hop]
    rw [hstep]
  | some op =>
    refine (becomes_fill hflat hop room).request?_eq fun l => ?_
    rw [request_among (Life.request_moveTo _), request_among (Life.request_moveTo _),
      among_of_not_mem (show j ∉ [id] by simpa using hj)]

theorem request?_finishWriting_of_ne {j : Nat} (hj : j ≠ id) :
    (e.finishWriting id).request? j = e.request? j := by
  cases hop : e.get? id with
  | none =>
    have hstep : e.finishWriting id = e := by
      simp [finishWriting, advance, hop, modify_of_none hop]
    rw [hstep]
  | some op =>
    refine (becomes_finishWriting hflat hop).request?_eq fun l => ?_
    rw [request_among (Life.request_moveTo _),
      among_of_not_mem (show j ∉ [id] by simpa using hj)]

end Writing

/-! ## Making and joining -/

section Making

variable {e : Engine} {id : Nat} (hid : id < e.size)

include hid

theorem same_add (work : Work) (idempotent : Bool) (callback : Callback) :
    e.Same (e.add work idempotent callback).1 id := by
  have hget : (e.add work idempotent callback).1.get? id = e.get? id := by
    rw [get?_add, if_neg (Nat.ne_of_lt hid)]
  exact ⟨by rw [nature?, nature?, hget], by rw [isTerminal, isTerminal, hget], heardOf_add ..⟩

theorem request?_add (work : Work) (idempotent : Bool) (callback : Callback) :
    (e.add work idempotent callback).1.request? id = e.request? id := by
  rw [request?, get?_add, if_neg (Nat.ne_of_lt hid), ← request?]

theorem same_batch (family : BatchFamily) {members : List Nat} (aggregate : Callback)
    (h : ∀ m ∈ members, e.IsSingle m) : e.Same (e.batch family members aggregate).1 id ∧
      (e.batch family members aggregate).1.request? id = e.request? id := by
  obtain ⟨multiplexer, idempotent, hbatch⟩ := batch_eq e family members aggregate
  obtain ⟨listener, hjoined⟩ := becomes_joined aggregate h
  have hid' : id < (e.joined members aggregate).size := by rwa [hjoined.size_eq]
  have hsame := hjoined.same ((Life.discreet_listen listener).among members id)
  have hrequest := @Becomes.request?_eq _ _ _ id hjoined
    (request_among (Life.request_listen listener) members id)
  have hadd := same_add hid' (.batch { family, members, multiplexer }) idempotent .silent
  rw [hbatch]
  refine ⟨⟨hadd.nature.trans hsame.nature, hadd.terminal.trans hsame.terminal,
    hadd.heard.trans hsame.heard⟩, ?_⟩
  rw [request?_add hid', hrequest]

end Making

/-- Whoever is cancelled on its own leaves the others alone. -/
theorem same_cancel_of_ne {e : Engine} {id j : Nat} (h : e.IsSingle id) (cause : String)
    (hj : j ≠ id) : e.Same (e.cancel id cause).1 j ∧
      (e.cancel id cause).1.request? j = e.request? j := by
  have hcancel := becomes_cancelTo_single id (members_of_isSingle h) cause
  have hnot : among [id] (·.cancel cause) j = fun l => l :=
    among_of_not_mem (by simpa using hj) _
  refine ⟨hcancel.same ?_, hcancel.request?_eq fun l => ?_⟩
  · rw [hnot]
    exact Life.discreet_id
  · rw [hnot]

/-- Nothing is written for an operation that is cancelled. -/
theorem request?_cancel {e : Engine} {id : Nat} (h : e.IsSingle id) (cause : String)
    (hnone : e.request? id = none) : (e.cancel id cause).1.request? id = none := by
  have hlife := (becomes_cancelTo_single id (members_of_isSingle h) cause).lives id
  rw [among_of_mem (List.mem_singleton_self id)] at hlife
  change (cancelTo (id + 1) e id cause).request? id = none
  rw [request?_eq_life?] at hnone ⊢
  rw [hlife, Option.bind_map]
  cases hl : e.life? id with
  | none => rfl
  | some l =>
    rw [hl] at hnone
    exact Life.request_cancel_of_none hnone cause

end Engine

end ShardedCache

import ShardedCache.Engine.Response

/-!
# The life of one operation

`Engine.life? id` is all that can be learnt about one operation: the operation itself, and what it
has told its callback and its listener, oldest first. What an engine does to an operation is a
function on lives, such as `Life.complete` and `Life.cancel`, and `Engine.Becomes` says of two
engines what happened to every operation between them.
-/

namespace ShardedCache

open Wire (Status)

/-- The callback itself, or one that it leads to. -/
inductive Callback.Behind (c : Callback) : Callback → Prop where
  | self : Behind c c
  | multiplex {aggregate : Callback} (id : Nat) (h : Behind c aggregate) :
      Behind c (.multiplex id aggregate)

/-! ## What was heard -/

namespace Reports

/-- What one teller has reported, oldest first. -/
def heard (r : Reports) (teller : Teller) : List Event :=
  (r.journal.reverse.filter (·.teller = teller)).map (·.event)

/-- A delivery is the last of those that it is counted among. -/
theorem events_cons (p : Delivery → Bool) (d : Delivery) (journal : List Delivery) :
    ((d :: journal).reverse.filter p).map (·.event) =
      (journal.reverse.filter p).map (·.event) ++ if p d then [d.event] else [] := by
  rw [List.reverse_cons, List.filter_append, List.map_append, List.filter_cons]
  cases p d <;> rfl

theorem heard_cons (r : Reports) (d : Delivery) (teller : Teller) :
    { r with journal := d :: r.journal }.heard teller =
      r.heard teller ++ if d.teller = teller then [d.event] else [] := by
  simpa [heard] using events_cons (·.teller = teller) d r.journal

@[simp] theorem journal_tellCompletion (r : Reports) (id : Nat) (event : Event) :
    (r.tellCompletion id event).journal = r.journal := by
  cases event <;> rfl

@[simp] theorem journal_tellShard (r : Reports) (keys : List String) (answer latch : Nat)
    (event : Event) : (r.tellShard keys answer latch event).journal = r.journal := by
  cases event with
  | payload p => cases p <;> rfl
  | status s =>
    simp only [tellShard]
    split <;> rfl
  | finished => rfl

/-- Telling a callback enters the event in the journal. After that its tables change, and whatever a
multiplexer passes on is entered in its own name. -/
theorem tell_induction {P : Reports → Prop} {receiver : Callback}
    (completion : ∀ {r} id event, (Callback.completion id).Behind receiver → P r →
      P (r.tellCompletion id event))
    (shard : ∀ {r} keys answer latch event, P r → P (r.tellShard keys answer latch event))
    (count : ∀ {r} id aggregate f, (Callback.multiplex id aggregate).Behind receiver → P r →
      P (r.modifyMultiplexer id f))
    (pass : ∀ {r} id aggregate event, (Callback.multiplex id aggregate).Behind receiver → P r →
      P { r with journal := ⟨.multiplexer id, aggregate, event⟩ :: r.journal })
    {r : Reports} {t : Teller} {event : Event}
    (h : P { r with journal := ⟨t, receiver, event⟩ :: r.journal }) : P (r.tell t receiver event) := by
  induction receiver generalizing r t event with
  | silent => exact h
  | record name => exact h
  | completion id =>
    rw [tell.eq_def]
    exact completion id event .self h
  | shard keys answer latch =>
    rw [tell.eq_def]
    exact shard keys answer latch event h
  | multiplex id aggregate ih =>
    have hpass : ∀ {r : Reports} (event : Event), P r → P (r.tell (.multiplexer id) aggregate event) := by
      intro r event hr
      exact ih (fun id event hbehind => completion id event (.multiplex _ hbehind))
        (fun id _ f hbehind => count id _ f (.multiplex _ hbehind))
        (fun id _ event hbehind => pass id _ event (.multiplex _ hbehind))
        (pass id aggregate event .self hr)
    rw [tell.eq_def]
    cases event with
    | payload p => exact hpass _ h
    | status s =>
      dsimp only
      split
      · exact h
      · exact count id aggregate _ .self h
    | finished =>
      dsimp only
      split
      · exact hpass _ (hpass _ (count id aggregate _ .self h))
      · exact count id aggregate _ .self h
      · exact h

/-- Telling a callback adds one event to what its teller has reported; all that a multiplexer
passes on, it reports itself. -/
theorem heard_tell {t t' : Teller} (ht : ∀ id, t' ≠ .multiplexer id) (r : Reports)
    (receiver : Callback) (event : Event) :
    (r.tell t receiver event).heard t' = r.heard t' ++ if t = t' then [event] else [] := by
  have hjournal : ∀ {r r' : Reports}, r'.journal = r.journal → r'.heard t' = r.heard t' :=
    fun h => by rw [heard, heard, h]
  refine tell_induction (P := fun r' => r'.heard t' = r.heard t' ++ if t = t' then [event] else [])
    (fun id event _ h => (hjournal (journal_tellCompletion _ id event)).trans h)
    (fun keys answer latch event h => (hjournal (journal_tellShard _ keys answer latch event)).trans h)
    (fun _ _ _ _ h => h) (fun id aggregate event _ h => ?_) (heard_cons r ⟨t, receiver, event⟩ t')
  rw [heard_cons, if_neg fun h => ht id h.symm, List.append_nil]
  exact h

theorem heard_conclude {t t' : Teller} (ht : ∀ id, t' ≠ .multiplexer id) (r : Reports)
    (receiver : Callback) (status : Status) :
    (r.conclude t receiver status).heard t' =
      r.heard t' ++ if t = t' then [.status status, .finished] else [] := by
  rw [conclude, heard_tell ht, heard_tell ht]
  split <;> simp

end Reports

/-! ## Lives -/

/-- An operation, and what it has told its callback and its listener. -/
structure Life where
  operation : Operation
  heard : List Event
  overheard : List Event

namespace Life

def isTerminal (l : Life) : Bool := l.operation.isTerminal

/-- Changes what is not told to anyone. -/
def mapOperation (f : Operation → Operation) (l : Life) : Life :=
  { l with operation := f l.operation }

/-- Moves on to `next`, if the phase allows that. -/
def moveTo (next : Phase) (l : Life) : Life :=
  if l.operation.phase.mayBecome next then l.mapOperation ({ · with phase := next }) else l

/-- Reports an outcome, unless one has been reported before. -/
def report (status : Status) (l : Life) : Life :=
  if l.operation.status.isSome then l
  else
    { operation := { l.operation with
        status := some status, request := l.operation.request.filter (·.inFlight) }
      heard := l.heard ++ [.status status, .finished]
      overheard :=
        if l.operation.listener.isSome then l.overheard ++ [.status status, .finished]
        else l.overheard }

/-- Hands over a payload, unless the outcome has been reported. -/
def hand (payload : Payload) (l : Life) : Life :=
  if l.operation.status.isSome then l else { l with heard := l.heard ++ [.payload payload] }

def complete (status : Status) (l : Life) : Life :=
  if l.isTerminal then l else (l.mapOperation ({ · with phase := .complete })).report status

def fail (error : ProtocolError) (l : Life) : Life :=
  (l.mapOperation ({ · with error := some error })).complete (Engine.failureStatus error)

/-- What a batch that fails does to its members. -/
def failOpen (error : ProtocolError) (l : Life) : Life :=
  if l.isTerminal then l else l.fail error

def cancel (cause : String) (l : Life) : Life :=
  if l.isTerminal then l
  else
    (l.mapOperation ({ · with phase := .cancelled, cancelCause := some cause })).report
      (.cancelled cause)

/-- Takes the request back to the start, if it has not been written in full. -/
def reset (l : Life) : Life :=
  if l.operation.phase = .queued ∨ l.operation.phase = .writing then
    l.mapOperation fun op =>
      { op with phase := .queued, request := op.request.map ({ · with written := 0 }) }
  else l

/-- Registers a listener, unless the outcome has been reported. -/
def listen (listener : Callback) (l : Life) : Life :=
  if l.operation.status.isSome then l else l.mapOperation ({ · with listener := some listener })

/-- What a response frame does to an operation for one command. -/
def answer (c : Command) (f : Wire.Frame) (l : Life) : Life :=
  match c.interpret l.operation.tag f with
  | .error error => l.fail error
  | .ok reply =>
    match reply.payload with
    | some payload => (l.hand payload).complete reply.status
    | none => l.complete reply.status

end Life

/-- What stays as it is for all of an operation's life. -/
structure Nature where
  tag : UInt32
  work : Work
  idempotent : Bool
  callback : Callback
  deriving DecidableEq, Repr

def Operation.nature (op : Operation) : Nature where
  tag := op.tag
  work := op.work
  idempotent := op.idempotent
  callback := op.callback

namespace Phase

/-- Whatever has not ended may end. -/
theorem mayBecome_of_isTerminal {p next : Phase} (h : next.isTerminal) :
    p.mayBecome next = !p.isTerminal := by
  cases next <;> cases p <;> first | rfl | cases h

theorem isTerminal_of_mayBecome {p next : Phase} (h : p.mayBecome next) :
    p.isTerminal = false := by
  cases p <;> first | rfl | cases h

end Phase

/-! ## What changes keep -/

namespace Life

def KeepsNature (g : Life → Life) : Prop := ∀ l, (g l).operation.nature = l.operation.nature

@[simp] theorem nature_moveTo (next : Phase) (l : Life) :
    (l.moveTo next).operation.nature = l.operation.nature := by
  unfold moveTo
  split <;> rfl

@[simp] theorem nature_report (status : Status) (l : Life) :
    (l.report status).operation.nature = l.operation.nature := by
  unfold report
  split <;> rfl

@[simp] theorem nature_hand (payload : Payload) (l : Life) :
    (l.hand payload).operation.nature = l.operation.nature := by
  unfold hand
  split <;> rfl

@[simp] theorem nature_complete (status : Status) (l : Life) :
    (l.complete status).operation.nature = l.operation.nature := by
  unfold complete
  split
  · rfl
  · rw [nature_report]
    rfl

@[simp] theorem nature_fail (error : ProtocolError) (l : Life) :
    (l.fail error).operation.nature = l.operation.nature := by
  rw [fail, nature_complete]
  rfl

@[simp] theorem nature_failOpen (error : ProtocolError) (l : Life) :
    (l.failOpen error).operation.nature = l.operation.nature := by
  unfold failOpen
  split
  · rfl
  · exact nature_fail error l

@[simp] theorem nature_cancel (cause : String) (l : Life) :
    (l.cancel cause).operation.nature = l.operation.nature := by
  unfold cancel
  split
  · rfl
  · rw [nature_report]
    rfl

@[simp] theorem nature_reset (l : Life) : l.reset.operation.nature = l.operation.nature := by
  unfold reset
  split <;> rfl

@[simp] theorem nature_listen (listener : Callback) (l : Life) :
    (l.listen listener).operation.nature = l.operation.nature := by
  unfold listen
  split <;> rfl

@[simp] theorem nature_answer (c : Command) (f : Wire.Frame) (l : Life) :
    (l.answer c f).operation.nature = l.operation.nature := by
  unfold answer
  split
  · exact nature_fail _ l
  · split <;> simp

/-! ## What ends, ends once -/

theorem isTerminal_report (status : Status) (l : Life) :
    (l.report status).isTerminal = l.isTerminal := by
  unfold report
  split <;> rfl

theorem isTerminal_complete (status : Status) (l : Life) : (l.complete status).isTerminal := by
  unfold complete
  split
  · next h => exact h
  · rw [isTerminal_report]
    rfl

theorem isTerminal_fail (error : ProtocolError) (l : Life) : (l.fail error).isTerminal :=
  isTerminal_complete _ _

theorem isTerminal_failOpen (error : ProtocolError) (l : Life) : (l.failOpen error).isTerminal := by
  unfold failOpen
  split
  · next h => exact h
  · exact isTerminal_fail error l

theorem isTerminal_cancel (cause : String) (l : Life) : (l.cancel cause).isTerminal := by
  unfold cancel
  split
  · next h => exact h
  · rw [isTerminal_report]
    rfl

theorem isTerminal_answer (c : Command) (f : Wire.Frame) (l : Life) :
    (l.answer c f).isTerminal := by
  unfold answer
  split
  · exact isTerminal_fail _ l
  · split <;> exact isTerminal_complete _ _

theorem complete_of_isTerminal {l : Life} (h : l.isTerminal) (status : Status) :
    l.complete status = l := if_pos h

theorem failOpen_of_isTerminal {l : Life} (h : l.isTerminal) (error : ProtocolError) :
    l.failOpen error = l := if_pos h

theorem cancel_of_isTerminal {l : Life} (h : l.isTerminal) (cause : String) :
    l.cancel cause = l := if_pos h

theorem moveTo_moveTo (next : Phase) (l : Life) : (l.moveTo next).moveTo next = l.moveTo next := by
  by_cases h : l.operation.phase.mayBecome next
  · have : next.mayBecome next = false := by cases next <;> rfl
    simp [moveTo, h, mapOperation, this]
  · simp [moveTo, h]

theorem reset_reset (l : Life) : l.reset.reset = l.reset := by
  by_cases h : l.operation.phase = .queued ∨ l.operation.phase = .writing
  · simp [reset, h, mapOperation, Option.map_map, Function.comp_def]
  · simp [reset, h]

theorem listen_listen (listener : Callback) (l : Life) :
    (l.listen listener).listen listener = l.listen listener := by
  by_cases h : l.operation.status.isSome <;> simp [listen, h, mapOperation]

end Life

namespace Engine

/-- What an operation has told its callback, and what it has told its listener. -/
def heardOf (e : Engine) (id : Nat) : List Event × List Event :=
  (e.reports.heard (.operation id), e.reports.heard (.listener id))

def life? (e : Engine) (id : Nat) : Option Life :=
  (e.get? id).map fun operation =>
    { operation, heard := (e.heardOf id).1, overheard := (e.heardOf id).2 }

theorem get?_of_life? {e : Engine} {id : Nat} {l : Life} (h : e.life? id = some l) :
    e.get? id = some l.operation := by
  obtain ⟨op, hop, rfl⟩ := Option.map_eq_some_iff.1 h
  exact hop

theorem get?_eq (e : Engine) (id : Nat) : e.get? id = (e.life? id).map (·.operation) := by
  simp [life?, Function.comp_def]

theorem members_eq (e : Engine) (id : Nat) :
    e.members id = ((e.life? id).map (·.operation.members)).getD [] := by
  rw [members, get?_eq, Option.map_map]
  rfl

theorem isTerminal_eq (e : Engine) (id : Nat) :
    e.isTerminal id = ((e.life? id).map (·.isTerminal)).getD true := by
  rw [isTerminal, get?_eq, Option.map_map]
  rfl

/-! ## From one engine to another -/

/-- A change to the lives of some operations. -/
def among (ids : List Nat) (g : Life → Life) (id : Nat) (l : Life) : Life :=
  if id ∈ ids then g l else l

theorem among_of_mem {ids : List Nat} {id : Nat} (h : id ∈ ids) (g : Life → Life) :
    among ids g id = g := by
  funext l
  exact if_pos h

theorem among_of_not_mem {ids : List Nat} {id : Nat} (h : id ∉ ids) (g : Life → Life) :
    among ids g id = fun l => l := by
  funext l
  exact if_neg h

/-- From one engine to the other, the life of each operation goes on by `g`, and nothing is told
by operations that do not exist. -/
structure Becomes (e : Engine) (g : Nat → Life → Life) (e' : Engine) : Prop where
  lives : ∀ id, e'.life? id = (e.life? id).map (g id)
  silent : ∀ id, e.get? id = none → e'.heardOf id = e.heardOf id
  counter : e'.nextTag = e.nextTag

theorem get?_eq_none {e : Engine} {id : Nat} : e.get? id = none ↔ e.life? id = none := by
  simp [life?]

theorem Becomes.refl (e : Engine) : e.Becomes (fun _ l => l) e :=
  ⟨fun id => by simp, fun _ _ => rfl, rfl⟩

theorem Becomes.get?_eq_none {e e' : Engine} {g : Nat → Life → Life} (h : e.Becomes g e') {id : Nat} :
    e'.get? id = none ↔ e.get? id = none := by
  rw [Engine.get?_eq_none, h.lives id, Option.map_eq_none_iff, Engine.get?_eq_none]

theorem Becomes.trans {e e' e'' : Engine} {g g' : Nat → Life → Life} (h : e.Becomes g e')
    (h' : e'.Becomes g' e'') : e.Becomes (fun id l => g' id (g id l)) e'' where
  lives id := by
    rw [h'.lives id, h.lives id, Option.map_map]
    rfl
  silent id hnone := (h'.silent id (h.get?_eq_none.2 hnone)).trans (h.silent id hnone)
  counter := h'.counter.trans h.counter

theorem Becomes.congr {e e' : Engine} {g g' : Nat → Life → Life} (h : e.Becomes g e')
    (hg : ∀ id l, e.life? id = some l → g id l = g' id l) : e.Becomes g' e' where
  lives id := by
    rw [h.lives id]
    cases hl : e.life? id with
    | none => rfl
    | some l => simp [hg id l hl]
  silent := h.silent
  counter := h.counter

/-- What changes neither the operations nor what was heard changes no life. -/
theorem becomes_of_eq {e e' : Engine} {g : Nat → Life → Life} (h : e.Becomes g e') (e'' : Engine)
    (hops : e''.operations = e'.operations)
    (hjournal : e''.reports.journal = e'.reports.journal) (hcounter : e''.nextTag = e'.nextTag) :
    e.Becomes g e'' := by
  have hheard : ∀ id, e''.heardOf id = e'.heardOf id := fun id => by
    rw [heardOf, heardOf, Reports.heard, Reports.heard, hjournal]
    rfl
  refine ⟨fun id => ?_, fun id hnone => (hheard id).trans (h.silent id hnone),
    hcounter.trans h.counter⟩
  rw [← h.lives id, life?, life?, get?, get?, hops, hheard id]

/-- Only one operation is touched. -/
theorem becomes_among_singleton {e e' : Engine} {id : Nat} {l : Life} {g : Life → Life}
    (hl : e.life? id = some l) (hid : e'.life? id = some (g l))
    (hne : ∀ j, j ≠ id → e'.get? j = e.get? j ∧ e'.heardOf j = e.heardOf j)
    (hcounter : e'.nextTag = e.nextTag) : e.Becomes (among [id] g) e' := by
  refine ⟨fun j => ?_, fun j hj => (hne j ?_).2, hcounter⟩
  · by_cases h : j = id
    · rw [h, among_of_mem (List.mem_singleton_self id), hl, hid]
      rfl
    · rw [among_of_not_mem (by simpa using h), life?, (hne j h).1, (hne j h).2]
      exact Option.map_id'.symm
  · rintro rfl
    rw [Engine.get?_eq_none, hl] at hj
    cases hj

/-- Nothing is touched, as the one operation does not change by `g`. -/
theorem becomes_self {e : Engine} {id : Nat} {g : Life → Life}
    (h : ∀ l, e.life? id = some l → g l = l) : e.Becomes (among [id] g) e := by
  refine (Becomes.refl e).congr fun j l hl => ?_
  unfold among
  split
  · next hj =>
    rw [List.mem_singleton.1 hj] at hl
    exact (h l hl).symm
  · rfl

theorem becomes_none {e : Engine} {id : Nat} (h : e.get? id = none) (g : Life → Life) :
    e.Becomes (among [id] g) e := by
  refine becomes_self fun l hl => ?_
  rw [get?_of_life? hl] at h
  cases h

theorem becomes_among_congr {e e' : Engine} {id : Nat} {g g' : Life → Life}
    (h : e.Becomes (among [id] g) e') (hg : ∀ l, e.life? id = some l → g l = g' l) :
    e.Becomes (among [id] g') e' := by
  refine h.congr fun j l hl => ?_
  unfold among
  split
  · next hj =>
    rw [List.mem_singleton.1 hj] at hl
    exact hg l hl
  · rfl

/-! ## One operation at a time -/

theorem life?_of_get? {e : Engine} {id : Nat} {op : Operation} (h : e.get? id = some op) :
    e.life? id = some ⟨op, (e.heardOf id).1, (e.heardOf id).2⟩ := by
  rw [life?, h]
  rfl

theorem modify_of_none {e : Engine} {id : Nat} (h : e.get? id = none) (f : Operation → Operation) :
    e.modify id f = e := by
  rw [modify, List.modify_eq_self (List.getElem?_eq_none_iff.1 h)]

theorem becomes_modify (e : Engine) (id : Nat) (f : Operation → Operation) :
    e.Becomes (among [id] (·.mapOperation f)) (e.modify id f) := by
  cases hop : e.get? id with
  | none =>
    rw [modify_of_none hop]
    exact becomes_none hop _
  | some op =>
    have hget : (e.modify id f).get? id = some (f op) := by
      simp [get?, modify, show e.operations[id]? = some op from hop]
    refine becomes_among_singleton (life?_of_get? hop) (life?_of_get? hget) (fun j hj => ⟨?_, rfl⟩) rfl
    simp [get?, modify, Ne.symm hj]

theorem operation_eq {e : Engine} {id : Nat} {op : Operation} (hop : e.get? id = some op) {l : Life}
    (hl : e.life? id = some l) : l.operation = op := by
  simpa [hop, eq_comm] using get?_of_life? hl

theorem becomes_advance (e : Engine) (id : Nat) (next : Phase) :
    e.Becomes (among [id] (·.moveTo next)) (e.advance id next).1 := by
  unfold advance
  split
  · next op hop =>
    split
    · next hmay =>
      refine becomes_among_congr (becomes_modify e id _) fun l hl => ?_
      simp only [Life.moveTo, operation_eq hop hl, hmay, ↓reduceIte]
    · next hmay =>
      refine becomes_self fun l hl => ?_
      simp only [Life.moveTo, operation_eq hop hl, hmay, Bool.false_eq_true, ↓reduceIte]
  · next hnone => exact becomes_none hnone _

theorem advance_snd (e : Engine) (id : Nat) (next : Phase) :
    (e.advance id next).2 = (e.get? id).any (·.phase.mayBecome next) := by
  unfold advance
  split
  · next op hop =>
    rw [hop, Option.any_some]
    split <;> simp_all
  · next hnone => rw [hnone]; rfl

end Engine

end ShardedCache

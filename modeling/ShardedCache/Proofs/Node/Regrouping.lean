import ShardedCache.Proofs.Batch.Settlement
import ShardedCache.Proofs.Engine.Encoding
import ShardedCache.Proofs.Node.Sending

/-!
# Regrouping does not reorder

A batch takes the place of the longest run at the head of a write queue that may be packed
(`Queue.Packable`). With its members in its place the queue is what it was, and what is sent for it are the
requests of its members, each in its quiet form, and one more request (`Queue.optimize_regroups`). The
ceiling on bytes is kept for what the members would send by themselves: a quiet request differs from the
plain one in one byte (`Quieted`), and a request that has been encoded before is still that of its operation
(`Engine.Encoded`), in every state that the queues of a node bring about (`Lane.reachable_run`).
-/

namespace ShardedCache

open Wire (Frame Opcode)

/-! ## Quiet requests -/

/-- The second request is the first with the quiet form of its opcode, which is the second byte. -/
def Quieted (plain quiet : Bytes) : Prop :=
  ∃ o o' : Opcode, plain[1]? = some o.toByte ∧ o.quiet? = some o' ∧ quiet = plain.set 1 o'.toByte

theorem Quieted.length_eq {plain quiet : Bytes} (h : Quieted plain quiet) :
    quiet.length = plain.length := by
  obtain ⟨_, _, _, _, rfl⟩ := h
  exact List.length_set

theorem bigEndian_one (b : UInt8) : bigEndian 1 b.toNat = [b] := by
  simp [bigEndian]

/-- Of a request, only the second byte depends on the opcode. -/
theorem Wire.Frame.encode_request (o : Opcode) (extras key value : Bytes) (tag : UInt32)
    (cas : UInt64) : (Frame.request o extras key value tag cas).encode =
      requestMagic :: o.toByte :: (Frame.request .noOp extras key value tag cas).encode.drop 2 := by
  simp only [encode, Header.encode, request, build, bigEndian_one, List.append_assoc]
  rfl

theorem quieted_request {o o' : Opcode} (h : o.quiet? = some o') (extras key value : Bytes)
    (tag : UInt32) (cas : UInt64) : Quieted (Frame.request o extras key value tag cas).encode
      (Frame.request o' extras key value tag cas).encode := by
  refine ⟨o, o', ?_, h, ?_⟩
  · rw [Frame.encode_request]
    rfl
  · rw [Frame.encode_request, Frame.encode_request o]
    rfl

theorem Command.quieted_of_family {c : Command} {family : BatchFamily} (h : c.family? = some family)
    (tag : UInt32) : Quieted (c.request tag).encode (c.quiet tag).encode := by
  cases c with
  | get key withCas =>
    cases withCas <;> cases h
    exact quieted_request rfl _ _ _ _ _
  | store r =>
    obtain ⟨kind, key, flags, exptime, data, cas⟩ := r
    cases kind <;> cases h <;> exact quieted_request rfl _ _ _ _ _
  | _ => cases h

theorem Engine.length_encode_sentinel (tag : UInt32) : (sentinel tag).encode.length = 24 := by
  rw [Frame.encode, List.length_append, List.length_append, List.length_append,
    Wire.Header.length_encode]
  rfl

/-! ## Operations in a queue -/

namespace Engine

/-- The operations that one in a queue stands for: those of a batch, and otherwise itself. -/
def expand (e : Engine) (id : Nat) : List Nat :=
  match (e.nature? id).map Nature.work with
  | some (.batch b) => b.members
  | _ => [id]

/-- What is sent for an operation by itself. -/
def plain (e : Engine) (id : Nat) : Bytes := ((e.get? id).map e.encode).getD []

/-- The operation may go into a new batch of the family: it has not been cancelled, and no byte of its
request has been written. -/
def Joins (e : Engine) (family : BatchFamily) (id : Nat) : Prop :=
  ∃ op, e.get? id = some op ∧ op.work.family? = some family ∧ op.isCancelled = false ∧
    op.writeStarted = false

theorem fits_iff {e : Engine} {family : BatchFamily} {id : Nat} :
    Queue.fits e family id = true ↔ e.Joins family id := by
  simp [Queue.fits, Joins, Option.any_eq_true, and_comm, and_assoc]

theorem Joins.single {e : Engine} {family : BatchFamily} {id : Nat} (h : e.Joins family id) :
    ∃ op c, e.get? id = some op ∧ op.work = .single c ∧ c.family? = some family ∧
      op.phase ≠ .cancelled ∧ op.writeStarted = false := by
  obtain ⟨op, hop, hfamily, hcancelled, hstarted⟩ := h
  cases hwork : op.work with
  | single c =>
    rw [hwork] at hfamily
    exact ⟨op, c, hop, hwork, hfamily, by simpa [Operation.isCancelled] using hcancelled, hstarted⟩
  | batch b =>
    rw [hwork] at hfamily
    cases hfamily

/-- What is left of a request that has not begun to be written is what is sent for it. -/
theorem Encoded.length_plain {e : Engine} (he : e.Encoded) {family : BatchFamily} {id : Nat}
    (h : e.Joins family id) : (e.remaining id).2 = (e.plain id).length := by
  obtain ⟨op, c, hop, hwork, -, -, hstarted⟩ := h.single
  have hleft : (e.requestOf op).left = e.encode op := by
    cases hr : op.request with
    | none => simp [requestOf, hr, Request.left]
    | some r =>
      have hwritten : r.written = 0 := by simpa [Operation.writeStarted, hr] using hstarted
      rw [requestOf, hr, Option.getD_some, Request.left, hwritten, List.drop_zero,
        he id op hop c r hwork hr, encode, hwork]
  rw [remaining, unwritten, get?_prepare hop, plain, hop]
  exact congrArg List.length hleft

/-- What a batch sends for an operation is what is sent for it by itself, made quiet. -/
theorem Joins.quieted {e : Engine} {family : BatchFamily} {id : Nat} (h : e.Joins family id) :
    Quieted (e.plain id) (e.quietBytes id) := by
  obtain ⟨op, c, hop, hwork, hfamily, hphase, -⟩ := h.single
  rw [quietBytes_eq hop hwork hphase, (Command.quiet_of_family hfamily op.tag).1, plain, hop,
    Option.map_some, Option.getD_some, encode, hwork]
  exact Command.quieted_of_family hfamily op.tag

end Engine

/-! ## Runs that are packed -/

namespace Queue

variable {q : Queue} {e e' : Engine} {family : BatchFamily} {n : Nat}

/-- Operations that may be packed as one batch. -/
structure Packable (q : Queue) (e : Engine) (family : BatchFamily) (run : List Nat) : Prop where
  length_le : run.length ≤ q.settings.maxBatchKeys
  joins : ∀ id ∈ run, e.Joins family id
  bytes_le : (run.flatMap e.plain).length ≤ q.settings.maxBatchBytes

/-- A batch, the newest operation, has taken the place of a run at the head of the queue. -/
structure Formed (q : Queue) (e e' : Engine) (family : BatchFamily) (run rest : List Nat) : Prop where
  queue : q.writeQueue = run ++ rest
  two_le : 2 ≤ run.length
  packable : q.Packable e family run
  /-- Not so together with the next operation. -/
  maximal : ∀ next later, rest = next :: later → ¬ q.Packable e family (run ++ [next])
  batch : ∃ op b, e'.get? e.size = some op ∧ op.work = .batch b ∧ b.family = family ∧
    b.members = run ∧ e'.plain e.size = run.flatMap e.quietBytes ++ (Engine.sentinel op.tag).encode
  quieted : ∀ id ∈ run, Quieted (e.plain id) (e.quietBytes id)
  length_plain : (e'.plain e.size).length = (run.flatMap e.plain).length + 24

theorem Regrouped.expand_of_lt (h : Regrouped q e family n e') {id : Nat} (hid : id < e.size) :
    e'.expand id = e.expand id := by
  rw [Engine.expand, (h.same hid).1.nature, ← Engine.expand]

theorem Regrouped.expand_size (h : Regrouped q e family n e') :
    e'.expand e.size = q.writeQueue.take n := by
  obtain ⟨_, _, _, hbatch⟩ := h.get?_size
  rw [Engine.expand, Engine.nature?_of_get? hbatch]
  rfl

theorem expand_of_fits {id : Nat} (h : fits e family id) : e.expand id = [id] := by
  obtain ⟨n, c, hn, hc⟩ := isSingle_of_fits h
  rw [Engine.expand, hn, Option.map_some, hc]

/-- Members keep what they send for when they are given a listener. -/
theorem Regrouped.quietBytes_of_lt (h : Regrouped q e family n e') {id : Nat} (hid : id < e.size) :
    e'.quietBytes id = e.quietBytes id := by
  obtain ⟨op, hop⟩ := Engine.get?_of_lt_size hid
  have hget := h.get?_of_lt hid
  rw [Engine.get?_batch_of_get? family .silent (fun _ hm => h.isSingle hm) hop] at hget
  rw [Engine.quietBytes_eq_encode, Engine.quietBytes_eq_encode, Engine.quietFrame?,
    Engine.quietFrame?, hop, hget]
  split <;> rfl

theorem Regrouped.plain_size (h : Regrouped q e family n e') : ∃ op b,
    e'.get? e.size = some op ∧ op.work = .batch b ∧ b.family = family ∧
      b.members = q.writeQueue.take n ∧ e'.plain e.size =
        (q.writeQueue.take n).flatMap e.quietBytes ++ (Engine.sentinel op.tag).encode := by
  obtain ⟨tag, multiplexer, idempotent, hbatch⟩ := h.get?_size
  refine ⟨_, _, hbatch, rfl, rfl, rfl, ?_⟩
  have hquiet : (q.writeQueue.take n).flatMap e'.quietBytes =
      (q.writeQueue.take n).flatMap e.quietBytes := by
    rw [List.flatMap_def, List.flatMap_def, List.map_congr_left fun m hm =>
      h.quietBytes_of_lt (Engine.lt_size_of_isSingle (h.isSingle hm))]
  rw [Engine.plain, hbatch, ← hquiet]
  rfl

/-- The limits of a run are on what is sent for its operations. -/
theorem load_eq (he : e.Encoded) : ∀ {ids : List Nat}, (∀ id ∈ ids, e.Joins family id) →
    load e ids = (ids.flatMap e.plain).length
  | [], _ => rfl
  | id :: ids, h => by
    have hrest : load e ids = (ids.flatMap e.plain).length :=
      load_eq he fun m hm => h m (List.mem_cons_of_mem id hm)
    rw [load, he.length_plain (h id List.mem_cons_self), hrest, List.flatMap_cons, List.length_append]

theorem LongestRun.joins {s : QueueSettings} {count bytes : Nat} {ids : List Nat}
    (h : LongestRun s e family count bytes ids n) : ∀ id ∈ ids.take n, e.Joins family id :=
  fun id hid => Engine.fits_iff.1 (h.fits id hid)

theorem LongestRun.packable (he : e.Encoded) (htwo : 2 ≤ n)
    (h : LongestRun q.settings e family 0 0 q.writeQueue n) :
    q.Packable e family (q.writeQueue.take n) where
  length_le := by
    have := h.keys_le (by omega)
    rw [List.length_take]
    omega
  joins := h.joins
  bytes_le := by
    have := h.bytes_le (by omega) (by omega)
    rw [← load_eq he h.joins]
    omega

theorem LongestRun.maximal (he : e.Encoded)
    (h : LongestRun q.settings e family 0 0 q.writeQueue n) {next : Nat} {later : List Nat}
    (hnext : q.writeQueue.drop n = next :: later) :
    ¬ q.Packable e family (q.writeQueue.take n ++ [next]) := by
  intro hpackable
  have hget : q.writeQueue[n]? = some next := by
    rw [← List.head?_drop, hnext, List.head?_cons]
  have hjoins : e.Joins family next := hpackable.joins next (by simp)
  have hstops := h.stops next hget (Engine.fits_iff.2 hjoins)
  have hlength := hpackable.length_le
  have hbytes := hpackable.bytes_le
  rw [List.length_append, List.length_take, Nat.min_eq_left h.le_length, List.length_singleton]
    at hlength
  rw [List.flatMap_append, List.length_append, ← load_eq he h.joins, List.flatMap_singleton,
    ← he.length_plain hjoins] at hbytes
  omega

theorem Regrouped.formed (he : e.Encoded) (h : Regrouped q e family n e')
    (hrun : LongestRun q.settings e family 0 0 q.writeQueue n) :
    q.Formed e e' family (q.writeQueue.take n) (q.writeQueue.drop n) := by
  have hquieted : ∀ id ∈ q.writeQueue.take n, Quieted (e.plain id) (e.quietBytes id) :=
    fun id hid => (hrun.joins id hid).quieted
  refine ⟨(List.take_append_drop n q.writeQueue).symm, ?_, hrun.packable he h.two_le,
    fun _ _ => hrun.maximal he, h.plain_size, hquieted, ?_⟩
  · rw [List.length_take, Nat.min_eq_left h.le_length]
    exact h.two_le
  · obtain ⟨op, b, -, -, -, -, hplain⟩ := h.plain_size
    rw [hplain, List.length_append, Engine.length_encode_sentinel, List.length_flatMap,
      List.length_flatMap, List.map_congr_left fun id hid => (hquieted id hid).length_eq]

theorem Apart.length_lt (h : q.Apart e) (he : e.Encoded) {run rest : List Nat}
    (hq : q.writeQueue = run ++ rest) (hrun : q.Packable e family run) : run.length < 2 := by
  match run, hq, hrun with
  | [], _, _ => exact Nat.zero_lt_two
  | [_], _, _ => exact Nat.one_lt_two
  | first :: second :: more, hq, hrun =>
    have hfirst : e.Joins family first := hrun.joins first (by simp)
    have hsecond : e.Joins family second := hrun.joins second (by simp)
    have hapart := h family first second _ hq (Engine.fits_iff.2 hfirst) (Engine.fits_iff.2 hsecond)
    have hlength := hrun.length_le
    have hbytes := hrun.bytes_le
    rw [he.length_plain hfirst, he.length_plain hsecond] at hapart
    simp only [List.length_cons, List.flatMap_cons, List.length_append] at hlength hbytes
    omega

end Queue

/-! ## The states of a node -/

theorem Engine.Reachable.cancelEach {cause : String} : ∀ (ids : List Nat) {e : Engine}, e.Reachable →
    (Queue.cancelEach e ids cause).Reachable
  | [], _, h => h
  | id :: ids, _, h => (h.act (.cancel id cause)).cancelEach ids

namespace Queue

variable {q q' : Queue} {e e' : Engine}

theorem reachable_packing (hstep : Packing q e q' e') (h : e.Reachable) : e'.Reachable := by
  cases hstep with
  | drop _ _ _ => exact h
  | @regroup id _ _ _ =>
    rcases regroup_cases q e id with heq | ⟨-, heq⟩
    · rwa [heq]
    · rcases optimize_cases q e with hsame | ⟨family, n, e', hregrouped, hnew⟩
      · rwa [heq, hsame]
      · rw [heq, hnew]
        have hbatch := h.act (.batch family (q.writeQueue.take n) .silent)
        exact (hbatch.note e.size fun op => ⟨op.timedOut, some q.node, rfl⟩).aside hregrouped.operations
  | @fill id _ _ _ _ _ => exact h.act (.fill id _)
  | @handOn id _ _ _ _ _ => exact (h.act (.fill id _)).act (.finishWriting id)

theorem reachable_processing (hstep : Processing q e q' e') (h : e.Reachable) : e'.Reachable := by
  cases hstep with
  | stray _ _ => exact h
  | @pending f _ id _ _ _ _ => exact h.act (.receive id f)
  | @last f _ id _ _ _ _ => exact h.act (.receive id f)
  | strayFault _ _ => exact h
  | @fault fault _ id _ _ _ => exact h.act (.fail id _)

theorem reachable_resend (h : e.Reachable) (q : Queue) (cause : String) :
    (q.resend e cause).2.Reachable := by
  have hread : (cancelEach e q.readQueue cause).Reachable := h.cancelEach q.readQueue
  unfold resend
  dsimp only
  split
  · exact hread
  · next id rest _ =>
    split
    · exact hread
    · split
      · exact hread.act (.reset id)
      · exact hread.act (.cancel id cause)

end Queue

namespace Lane

theorem reachable_step (s : Lane) (a : Action) (h : s.engine.Reachable) :
    (s.step a).engine.Reachable := by
  cases a with
  | create command callback => exact h.act (.create command callback)
  | submit id =>
    simp only [step]
    split
    · split
      · exact h
      · exact h.act (.cancel id _)
    · exact h
  | pushFront id =>
    simp only [step]
    split <;> exact h
  | copyInput => exact h
  | pack =>
    exact Queue.pack_induction (P := fun _ e => e.Reachable) Queue.reachable_packing s.queue s.engine h
  | take n => exact h
  | receive bytes =>
    exact Queue.process_induction (P := fun _ e => e.Reachable) Queue.reachable_processing
      (s.queue.appendRead bytes) s.engine h
  | cancel id cause => exact h.act (.cancel id cause)
  | resend cause => exact Queue.reachable_resend h s.queue cause

/-- Whatever is done with a node, its write queue can be regrouped. -/
theorem reachable_run {s : Lane} (h : s.Initial) (actions : List Action) :
    (s.run actions).engine.Reachable ∧
      ∀ id ∈ (s.run actions).queue.writeQueue, id < (s.run actions).engine.size := by
  refine ⟨run_induction reachable_step actions (.start ⟨h.operations, h.journal⟩), fun id hid => ?_⟩
  exact (custody_run h actions).known id
    (Queue.mem_held_of_mem_line (List.mem_append_right _ (List.mem_append_left _ hid)))

end Lane

/-! ## Regrouping -/

namespace Queue

/-- **Regrouping keeps the operations of a queue and their order.** It makes a batch of the longest run at
the head that may be packed, and where not even two operations may be it leaves everything as it is. -/
theorem optimize_regroups (q : Queue) {e : Engine} (he : e.Reachable)
    (hq : ∀ id ∈ q.writeQueue, id < e.size) :
    (q.optimize e).1.writeQueue.flatMap (q.optimize e).2.expand = q.writeQueue.flatMap e.expand ∧
      ((q.optimize e = (q, e) ∧ ∀ family run rest, q.writeQueue = run ++ rest →
          q.Packable e family run → run.length < 2) ∨
        ∃ family run rest e', q.optimize e = ({ q with writeQueue := e.size :: rest }, e') ∧
          q.Formed e e' family run rest) := by
  rcases optimize_spec q e with ⟨heq, hapart⟩ | ⟨family, n, e', hregrouped, hrun, heq⟩
  · rw [heq]
    exact ⟨rfl, .inl ⟨rfl, fun _ _ _ hq => hapart.length_lt he.encoded hq⟩⟩
  · rw [heq]
    refine ⟨?_, .inr ⟨family, _, _, e', rfl, hregrouped.formed he.encoded hrun⟩⟩
    have hrest : (q.writeQueue.drop n).flatMap e'.expand = (q.writeQueue.drop n).flatMap e.expand := by
      rw [List.flatMap_def, List.flatMap_def, List.map_congr_left fun id hid =>
        hregrouped.expand_of_lt (hq id (List.mem_of_mem_drop hid))]
    have htaken : (q.writeQueue.take n).flatMap e.expand = q.writeQueue.take n := by
      rw [List.flatMap_def, List.map_congr_left fun id hid => expand_of_fits (hrun.fits id hid),
        ← List.flatMap_def, List.flatMap_singleton']
    calc (e.size :: q.writeQueue.drop n).flatMap e'.expand
        = q.writeQueue.take n ++ (q.writeQueue.drop n).flatMap e.expand := by
          rw [List.flatMap_cons, hregrouped.expand_size, hrest]
      _ = (q.writeQueue.take n ++ q.writeQueue.drop n).flatMap e.expand := by
          rw [List.flatMap_append, htaken]
      _ = q.writeQueue.flatMap e.expand := by rw [List.take_append_drop]

/-- A node whose batches have two members at most. -/
def pairing : Lane where
  queue := { settings := { Config.queueSettings {} with maxBatchKeys := 2 }, node := 0, inputCapacity := 8 }
  engine := {}

/-- Three gets wait to be written. -/
def threeGets : Lane :=
  pairing.run [.create (.get "a" false) .silent, .create (.get "b" false) .silent,
    .create (.get "c" false) .silent, .submit 0, .submit 1, .submit 2, .copyInput]

/-- The first two become a batch, and the third stays as it is. -/
theorem optimize_threeGets :
    let q := threeGets.queue
    let e := threeGets.engine
    e.Reachable ∧ (∀ id ∈ q.writeQueue, id < e.size) ∧ ∃ e',
      q.optimize e = ({ q with writeQueue := [3, 2] }, e') ∧ q.Formed e e' .get [0, 1] [2] := by
  intro q e
  obtain ⟨he, hknown⟩ : e.Reachable ∧ ∀ id ∈ q.writeQueue, id < e.size :=
    Lane.reachable_run (s := pairing) ⟨rfl, rfl, rfl, rfl, rfl, rfl⟩ _
  refine ⟨he, hknown, ?_⟩
  have hbefore : q.writeQueue = [0, 1, 2] := by decide +kernel
  have hafter : (q.optimize e).1.writeQueue = [3, 2] := by decide +kernel
  have hfamily : (e.get? 0).bind (·.work.family?) = some .get := by decide +kernel
  obtain ⟨-, ⟨heq, -⟩ | ⟨family, run, rest, e', heq, hformed⟩⟩ := optimize_regroups q he hknown
  · rw [heq, hbefore] at hafter
    cases hafter
  · have hqueue := hformed.queue
    rw [heq] at hafter
    cases hafter
    have hrun : run = [0, 1] := (List.append_cancel_right (hbefore.symm.trans hqueue)).symm
    obtain ⟨op, hop, hjoins, -⟩ := hformed.packable.joins 0 (hrun ▸ List.mem_cons_self)
    rw [hop, Option.bind_some, hjoins] at hfamily
    cases hfamily
    exact ⟨e', heq, hrun ▸ hformed⟩

end Queue

end ShardedCache

import ShardedCache.Proofs.Node.InFull
import ShardedCache.Proofs.Node.Once
import ShardedCache.Proofs.Node.Settling

/-!
# Dialogues with a server that answers everything

A server sends one reply for each request that has reached it in full, in order, whatever the reply
is; the requests and the replies travel in pieces of any size. A run sees finitely many replies, so an
arbitrary `reply : Nat → RawFrame` stands for a server that decides as it goes. As long as operations
are not grouped into batches, the replies that have arrived and the operations that have been handed on
stay in step (`Dialogue.Kept`): the next reply is for the operation at the head of the read queue.
-/

namespace ShardedCache

open Wire (Frame RawFrame)

/-- Whether an action is one of the node or its clients on the connection that it has. -/
def Action.isLocal : Action → Bool
  | .receive _ | .resend _ => false
  | _ => true

theorem Action.not_isResend_of_isLocal {a : Action} (h : a.isLocal = true) : a.isResend = false := by
  cases a <;> first | rfl | cases h

/-! ## Operations end by being cancelled, if no reply is read -/

namespace Engine

variable {e e' : Engine}

theorem OnlyCancels.refl (e : Engine) : e.OnlyCancels e := fun _ hid hend => .inl ⟨hid, hend⟩

theorem OnlyCancels.trans {e'' : Engine} (h : e.OnlyCancels e') (h' : e'.OnlyCancels e'')
    (hfollows : e'.Follows e'') : e.OnlyCancels e'' := fun id hid hend => by
  rcases h' id hid hend with ⟨hid, hend⟩ | hcancelled
  · exact (h id hid hend).imp_right (isCancelled_of_follows hfollows)
  · exact .inr hcancelled

/-- Nothing has come of the operations that were there, and the new ones are open. -/
theorem onlyCancels_of_same (hold : ∀ id < e.size, e.Same e' id)
    (hnew : ∀ id < e'.size, e.size ≤ id → e'.isTerminal id = false) : e.OnlyCancels e' := by
  intro id hid hend
  rcases Nat.lt_or_ge id e.size with hlt | hge
  · exact .inl ⟨hlt, (hold id hlt).terminal ▸ hend⟩
  · rw [hnew id hid hge] at hend
    cases hend

theorem onlyCancels_of_all_same (h : ∀ id, e.Same e' id) : e.OnlyCancels e' := by
  refine onlyCancels_of_same (fun id _ => h id) fun id hid hge => ?_
  obtain ⟨op, hop⟩ := get?_of_lt_size hid
  have hn := (h id).nature
  rw [nature?_of_get? hop] at hn
  exact absurd (lt_size_of_nature? hn.symm) (Nat.not_lt.2 hge)

theorem onlyCancels_cancel (he : e.Sound) (id : Nat) (cause : String) :
    e.OnlyCancels (e.cancel id cause).1 := by
  intro j hj hend
  rcases life?_cancel he id cause j with hsame | ⟨hcancelled, -⟩
  · rw [isTerminal_eq, hsame, ← isTerminal_eq] at hend
    rw [(becomes_cancel he.flat id cause).size_eq] at hj
    exact .inl ⟨hj, hend⟩
  · exact .inr hcancelled

theorem onlyCancels_create (command : Command) (callback : Callback) :
    e.OnlyCancels (e.create command callback).1 := by
  refine onlyCancels_of_same (fun id hid => same_add hid _ _ callback) fun id hid hge => ?_
  have hget := get?_add e (.single command) command.kind.isIdempotent callback id
  have hlast : id = e.size := by
    rw [create, size_add] at hid
    omega
  rw [if_pos hlast] at hget
  rw [create, isTerminal, hget]
  rfl

end Engine

namespace Queue

theorem onlyCancels_packing {q q' : Queue} {e e' : Engine} (hstep : Packing q e q' e') (he : e.Sound) :
    e.OnlyCancels e' := by
  cases hstep with
  | drop hq _ _ => exact .refl e
  | @regroup id rest hq hdue =>
    rcases regroup_cases q e id with heq | ⟨-, heq⟩
    · rw [heq]
      exact .refl e
    · rw [heq]
      rcases optimize_cases q e with heq | ⟨_, _, e', hregrouped, heq⟩ <;> rw [heq]
      · exact .refl e
      · refine Engine.onlyCancels_of_same (fun id hid => (hregrouped.same hid).1) fun id hid hge => ?_
        obtain ⟨_, _, _, hbatch⟩ := hregrouped.get?_size
        have hlast : id = e.size := by
          rw [hregrouped.size_eq] at hid
          omega
        rw [hlast, Engine.isTerminal, hbatch]
        rfl
  | fill hq _ _ _ => exact Engine.onlyCancels_of_all_same fun j => Engine.same_fill he.flat _ _ j
  | @handOn id rest hq _ _ _ =>
    have hsound := (Engine.goes_fill he id (q.settings.writeBufferSize - q.writeBuffer.length)).sound
    exact Engine.onlyCancels_of_all_same fun j =>
      (Engine.same_fill he.flat id _ j).trans (Engine.same_finishWriting hsound.flat id j)

theorem onlyCancels_pack (q : Queue) {e : Engine} (he : e.Sound) : e.OnlyCancels (q.pack e).2 := by
  refine (pack_induction (P := fun _ e' => e'.Sound ∧ e.OnlyCancels e')
    (fun hstep ⟨hsound, honly⟩ => ?_) q e ⟨he, .refl e⟩).2
  have hgoes := (goes_packing hstep hsound).1
  exact ⟨hgoes.sound, honly.trans (onlyCancels_packing hstep hsound) hgoes.follows⟩

end Queue

namespace Traffic

variable {t : Traffic} {a : Action}

theorem onlyCancels_step (h : t.Sound) (ha : a.isLocal = true) : t.engine.OnlyCancels (t.step a).engine := by
  cases a with
  | receive bytes => cases ha
  | resend cause => cases ha
  | create command callback => exact Engine.onlyCancels_create command callback
  | cancel id cause => exact Engine.onlyCancels_cancel h.custody.sound id cause
  | pack => exact t.lane.queue.onlyCancels_pack h.custody.sound
  | copyInput => exact .refl _
  | take n => exact .refl _
  | submit id =>
    simp only [step]
    rcases t.lane.step_submit id with ⟨-, hstep⟩ | ⟨cause, hstep⟩ | hstep <;> rw [hstep]
    · exact .refl _
    · exact Engine.onlyCancels_cancel h.custody.sound id cause
    · exact .refl _
  | pushFront id =>
    simp only [step]
    split
    · rcases t.lane.step_pushFront id with ⟨-, hstep⟩ | hstep <;> rw [hstep] <;> exact .refl _
    · exact .refl _

/-- What is handed on waits for its reply, and nothing is read. -/
theorem waits_step (h : t.Sound) (ha : a.isLocal = true) : ∃ new,
    (t.step a).lane.queue.readQueue = t.lane.queue.readQueue ++ new ∧
    (t.step a).handed = t.handed ++ new ∧
    (t.step a).lane.queue.readBuffer = t.lane.queue.readBuffer := by
  have hnone : ∀ {t' : Traffic}, t'.lane.queue.readQueue = t.lane.queue.readQueue →
      t'.handed = t.handed → t'.lane.queue.readBuffer = t.lane.queue.readBuffer → ∃ new,
        t'.lane.queue.readQueue = t.lane.queue.readQueue ++ new ∧ t'.handed = t.handed ++ new ∧
        t'.lane.queue.readBuffer = t.lane.queue.readBuffer := fun hread hhanded hbuffer =>
    ⟨[], by rw [hread, List.append_nil], by rw [hhanded, List.append_nil], hbuffer⟩
  cases a with
  | receive bytes => cases ha
  | resend cause => cases ha
  | create command callback => exact hnone rfl rfl rfl
  | cancel id cause => exact hnone rfl rfl rfl
  | copyInput => exact hnone rfl rfl rfl
  | take n => exact hnone rfl rfl rfl
  | pack =>
    obtain ⟨-, -, new, hread, hhanded⟩ := t.ledger_pack
    exact ⟨new, hread, hhanded, (t.lane.queue.goes_pack h.custody.sound).2.2⟩
  | submit id =>
    simp only [step]
    rcases t.lane.step_submit id with ⟨-, hstep⟩ | ⟨cause, hstep⟩ | hstep <;> rw [hstep] <;>
      exact hnone rfl rfl rfl
  | pushFront id =>
    simp only [step]
    split
    · rcases t.lane.step_pushFront id with ⟨-, hstep⟩ | hstep <;> rw [hstep] <;> exact hnone rfl rfl rfl
    · exact hnone rfl rfl rfl

/-! ## What has reached the server -/

/-- The requests that have reached the server in full. -/
def reached (t : Traffic) : List Slot := (⟨t.begun, t.taken⟩ : Transcript).whole t.engine

theorem taken_step (t : Traffic) (ha : a.isResend = false) : t.taken <+: (t.step a).taken := by
  cases a with
  | resend cause => cases ha
  | take n => exact List.prefix_append _ _
  | pushFront id =>
    simp only [step]
    split <;> exact List.prefix_rfl
  | _ => exact List.prefix_rfl

/-- The server forgets no request. -/
theorem reached_grows (h : t.Sound) (ha : a.isResend = false) : t.reached <+: (t.step a).reached := by
  refine inFull_mono ?_ (t.taken_step ha).length_le
  obtain ⟨more, hmore⟩ := (step_grows h ha).begun
  change t.begun.flatMap t.engine.slots <+: (t.step a).begun.flatMap (t.step a).engine.slots
  rw [← hmore, List.flatMap_append,
    (goes_step h a).1.follows.flatMap_slots_eq h.custody.sound fun _ => h.lt_size]
  exact List.prefix_append _ _

end Traffic

/-- Of operations that are no batches each one has one request. -/
theorem Engine.slots_prefix {e : Engine} : ∀ {ids : List Nat} {front : List Slot},
    (∀ id ∈ ids, e.IsSingle id) → front <+: ids.flatMap e.slots →
      front.length ≤ ids.length ∧
      ∀ (i : Nat) (r : Slot), front[i]? = some r → ∃ id : Nat, ids[i]? = some id ∧ e.slots id = [r]
  | ids, [], _, _ => ⟨Nat.zero_le _, fun _ _ hr => by cases hr⟩
  | [], r :: front, _, h => by cases List.prefix_nil.1 h
  | id :: ids, r :: front, hsingle, h => by
    obtain ⟨n, c, hn, hc⟩ := hsingle id List.mem_cons_self
    have hslots := slots_single hn hc
    rw [List.flatMap_cons, hslots, List.singleton_append, List.cons_prefix_cons] at h
    obtain ⟨rfl, h⟩ := h
    obtain ⟨hlength, hrest⟩ := slots_prefix (fun x hx => hsingle x (List.mem_cons_of_mem id hx)) h
    refine ⟨Nat.succ_le_succ hlength, fun i r hr => ?_⟩
    cases i with
    | zero =>
      rw [List.getElem?_cons_zero, Option.some.injEq] at hr
      exact ⟨id, rfl, hr ▸ hslots⟩
    | succ i => exact hrest i r hr

/-- Without batches the server has seen no request in full but those of operations that have been
handed on. -/
theorem Traffic.Sound.reached_prefix {t : Traffic} (h : t.Sound)
    (hsingle : ∀ b ∈ t.ledger.line, t.engine.IsSingle b) :
    t.reached <+: t.handed.flatMap t.engine.slots := by
  have hwhole : t.reached <+: t.transcript.whole t.engine :=
    inFull_mono List.prefix_rfl (List.prefix_append t.taken _).length_le
  rcases h.whole_cases with heq | ⟨b, hb, -, hall⟩
  · rwa [heq] at hwhole
  · obtain ⟨n, c, hn, hc⟩ := hsingle b (Traffic.mem_ledger_line.2 (.inr (.inl hb)))
    rw [Engine.slots_single hn hc, List.dropLast_singleton, List.append_nil] at hall
    exact hwhole.trans hall

/-! ## Dialogues -/

/-- A node and a server that sends one reply for each request that has reached it in full. -/
structure Dialogue where
  traffic : Traffic
  /-- How many bytes of the replies have arrived. -/
  arrived : Nat := 0
  fault : Option LinkFault := none

namespace Dialogue

inductive Turn where
  | act (a : Action)
  /-- The next `n` bytes of what the server has sent arrive and are processed. -/
  | deliver (n : Nat)

/-- The bytes of the first `n` replies. -/
def stream (reply : Nat → RawFrame) (n : Nat) : Bytes :=
  RawFrame.encodeAll ((List.range n).map reply)

section Replies

variable (reply : Nat → RawFrame)

/-- All that the server has sent. -/
def sent (d : Dialogue) : Bytes := stream reply d.traffic.reached.length

/-- How many replies have arrived in full, by what a reader makes of the bytes. -/
def answered (d : Dialogue) : Nat :=
  (Frame.drain Wire.responseMagic ((d.sent reply).take d.arrived)).1.length

/-- One turn, as long as there has been no fault. Nothing arrives but what the server has sent, and
the connection is not given up. -/
def step (d : Dialogue) (turn : Turn) : Dialogue :=
  if d.fault.isSome then d
  else
    match turn with
    | .act a => if a.isLocal then { d with traffic := d.traffic.step a } else d
    | .deliver n =>
      let bytes := ((d.sent reply).drop d.arrived).take n
      { traffic := d.traffic.step (.receive bytes)
        arrived := d.arrived + bytes.length
        fault := ((d.traffic.lane.queue.appendRead bytes).process d.traffic.engine).2.2 }

def run (d : Dialogue) (turns : List Turn) : Dialogue := turns.foldl (step reply) d

end Replies

def start (s : Lane) : Dialogue := { traffic := Traffic.start s }

/-! ## Replies and operations in step -/

variable {reply : Nat → RawFrame} {d : Dialogue} {k : Nat}

theorem stream_add (reply : Nat → RawFrame) (k n : Nat) :
    stream reply (k + n) = stream reply k ++ RawFrame.encodeAll ((List.range' k n).map reply) := by
  rw [stream, stream, ← RawFrame.encodeAll_append, ← List.map_append, List.range_eq_range',
    List.range_eq_range', ← List.range'_append_1, Nat.zero_add]

theorem stream_mono (reply : Nat → RawFrame) {n m : Nat} (h : n ≤ m) :
    stream reply n <+: stream reply m := by
  obtain ⟨more, rfl⟩ := Nat.exists_eq_add_of_le h
  rw [stream_add]
  exact List.prefix_append _ _

/-- The first `k` replies have been read, for the first `k` operations that have been handed on. -/
structure Kept (reply : Nat → RawFrame) (d : Dialogue) (k : Nat) : Prop where
  sound : d.traffic.Sound
  plain : d.traffic.lane.queue.settings.optimize = false
  single : ∀ b ∈ d.traffic.ledger.line, d.traffic.engine.IsSingle b
  fault : d.fault = none
  reading : d.traffic.lane.queue.readQueue = d.traffic.handed.drop k
  read_le : k ≤ d.traffic.reached.length
  arrived : d.arrived = (stream reply k ++ d.traffic.lane.queue.readBuffer).length
  arriving : stream reply k ++ d.traffic.lane.queue.readBuffer <+: d.sent reply
  idle : Frame.parse Wire.responseMagic d.traffic.lane.queue.readBuffer = .incomplete
  matched : d.traffic.engine.Matched d.traffic.handed reply k

/-- Of what arrives, `more` replies are read after the first `k`, and `rest` is left. -/
structure Reads (reply : Nat → RawFrame) (d : Dialogue) (k : Nat) (bytes : Bytes) (more : Nat)
    (rest : Bytes) : Prop where
  process : (d.traffic.lane.queue.appendRead bytes).process d.traffic.engine =
    ({ d.traffic.lane.queue with
        readQueue := d.traffic.lane.queue.readQueue.drop more, readBuffer := rest },
      d.traffic.engine.settleAll (d.traffic.handed.drop k) ((List.range' k more).map reply), none)
  arrived : stream reply k ++ d.traffic.lane.queue.readBuffer ++ bytes = stream reply (k + more) ++ rest
  read_le : k + more ≤ d.traffic.reached.length
  arriving : stream reply (k + more) ++ rest <+: d.sent reply
  idle : Frame.parse Wire.responseMagic rest = .incomplete

namespace Kept

variable (h : d.Kept reply k)

include h

theorem single_handed : ∀ id ∈ d.traffic.handed, d.traffic.engine.IsSingle id := fun id hid =>
  h.single id (Traffic.mem_ledger_line.2 (.inr (.inr hid)))

theorem reached_le : d.traffic.reached.length ≤ d.traffic.handed.length :=
  (Engine.slots_prefix h.single_handed (h.sound.reached_prefix h.single)).1

theorem le_handed : k ≤ d.traffic.handed.length := Nat.le_trans h.read_le h.reached_le

/-- A reader of what has arrived finds just the replies that have been read. -/
theorem answered_eq : d.answered reply = k := by
  have harrived : (d.sent reply).take d.arrived = stream reply k ++ d.traffic.lane.queue.readBuffer := by
    rw [h.arrived]
    exact (List.prefix_iff_eq_take.1 h.arriving).symm
  rw [answered, harrived, stream, RawFrame.drain_encodeAll h.idle]
  simp

theorem act {a : Action} (ha : a.isLocal = true) :
    Kept reply { d with traffic := d.traffic.step a } k := by
  have hresend := Action.not_isResend_of_isLocal ha
  obtain ⟨new, hread, hhanded, hbuffer⟩ := Traffic.waits_step h.sound ha
  obtain ⟨hgoes, hsettings⟩ := Traffic.goes_step h.sound a
  have hreached := (Traffic.reached_grows h.sound hresend).length_le
  refine ⟨Traffic.sound_step _ a h.sound, ?_, Traffic.isSingle_step h.sound (.inl h.plain) h.single a,
    h.fault, ?_, Nat.le_trans h.read_le hreached, ?_, ?_, ?_, ?_⟩
  · exact (congrArg QueueSettings.optimize hsettings).trans h.plain
  · rw [hread, hhanded, h.reading, List.drop_append_of_le_length h.le_handed]
  · exact hbuffer ▸ h.arrived
  · exact hbuffer ▸ h.arriving.trans (stream_mono reply hreached)
  · exact hbuffer ▸ h.idle
  · exact h.matched.goes hgoes.follows (Traffic.onlyCancels_step h.sound ha)
      (hhanded ▸ List.prefix_append _ _) h.le_handed fun _ => h.sound.lt_size_of_handed

/-- What has been sent and not been read is the replies that are due. -/
theorem unread : ∃ left, d.traffic.reached.length = k + left ∧
    d.traffic.lane.queue.readBuffer ++ (d.sent reply).drop d.arrived =
      RawFrame.encodeAll ((List.range' k left).map reply) := by
  obtain ⟨left, hleft⟩ := Nat.exists_eq_add_of_le h.read_le
  refine ⟨left, hleft, @List.append_cancel_left _ (stream reply k) _ _ ?_⟩
  rw [← stream_add, ← hleft, ← List.append_assoc, h.arrived]
  exact List.prefix_iff_eq_append.1 h.arriving

/-- What arrives is read up to the end of the last reply that is there in full. -/
theorem reads (hvalid : ∀ i, (reply i).header.status ≠ Wire.invalidArguments) (n : Nat) :
    ∃ more rest, d.Reads reply k (((d.sent reply).drop d.arrived).take n) more rest ∧
      (((d.sent reply).drop d.arrived).length ≤ n → d.traffic.reached.length ≤ k + more) := by
  let bytes := ((d.sent reply).drop d.arrived).take n
  let later := ((d.sent reply).drop d.arrived).drop n
  obtain ⟨left, hleft, hunread⟩ := h.unread
  have harriving : (d.traffic.lane.queue.readBuffer ++ bytes) ++ later =
      RawFrame.encodeAll ((List.range' k left).map reply) := by
    rw [← hunread, List.append_assoc, List.take_append_drop]
  have hroom : ((List.range' k left).map reply).length ≤ d.traffic.lane.queue.readQueue.length := by
    have hreached := h.reached_le
    rw [h.reading, List.length_drop, List.length_map, List.length_range']
    omega
  obtain ⟨more, rest, hmore, hprocess, hrest, hidle⟩ := Queue.process_replies
    (q := d.traffic.lane.queue.appendRead bytes) h.sound.custody.sound
    (fun id hid => h.single_handed id (h.sound.reading id hid))
    (fun r hr => by obtain ⟨i, -, rfl⟩ := List.mem_map.1 hr; exact hvalid i) hroom harriving
  rw [List.length_map, List.length_range'] at hmore
  obtain ⟨unsettled, rfl⟩ := Nat.exists_eq_add_of_le hmore
  have hread : (List.range' k (more + unsettled)).map reply =
      (List.range' k more).map reply ++ (List.range' (k + more) unsettled).map reply := by
    rw [← List.map_append, List.range'_append_1]
  have htaken : ((List.range' k more).map reply).length = more := by simp
  rw [hread, List.take_left' htaken] at hprocess
  rw [hread, List.drop_left' htaken] at hrest
  rw [hread, RawFrame.encodeAll_append, ← hrest, ← List.append_assoc] at harriving
  have hbytes := List.append_cancel_right harriving
  have hsent : stream reply (k + more) ++ rest ++ later = d.sent reply := by
    rw [sent, hleft, ← Nat.add_assoc, stream_add reply (k + more), List.append_assoc, hrest]
  refine ⟨more, rest, ⟨?_, ?_, by omega, ⟨later, hsent⟩, hidle⟩, fun hall => ?_⟩
  · rw [← h.reading]
    exact hprocess
  · rw [stream_add, List.append_assoc, List.append_assoc]
    exact congrArg (stream reply k ++ ·) hbytes
  · have hnone : later = [] := List.drop_eq_nil_of_le hall
    rw [hnone, List.append_nil] at hrest
    have hnil := congrArg List.length (RawFrame.eq_nil_of_incomplete (hrest ▸ hidle))
    rw [List.length_map, List.length_range', List.length_nil] at hnil
    omega

/-- What arrives goes to the operations that wait, one reply for each. -/
theorem deliver (hvalid : ∀ i, (reply i).header.status ≠ Wire.invalidArguments) (n : Nat) :
    ∃ more, Kept reply (d.step reply (.deliver n)) (k + more) ∧
      (d.step reply (.deliver n)).traffic.engine = d.traffic.engine.settleAll (d.traffic.handed.drop k)
        ((List.range' k more).map reply) ∧
      (((d.sent reply).drop d.arrived).length ≤ n → d.traffic.reached.length ≤ k + more) := by
  obtain ⟨more, rest, hreads, hall⟩ := h.reads hvalid n
  let bytes := ((d.sent reply).drop d.arrived).take n
  let t' := d.traffic.step (.receive bytes)
  have hstep : d.step reply (.deliver n) =
      { traffic := t', arrived := d.arrived + bytes.length, fault := none } := by
    rw [step, h.fault]
    exact congrArg (fun r : Queue × Engine × Option LinkFault =>
      ({ traffic := t', arrived := d.arrived + bytes.length, fault := r.2.2 } : Dialogue)) hreads.process
  have hlane : t'.lane.queue = { d.traffic.lane.queue with
      readQueue := d.traffic.lane.queue.readQueue.drop more, readBuffer := rest } :=
    congrArg Prod.fst hreads.process
  have hengine : t'.engine =
      d.traffic.engine.settleAll (d.traffic.handed.drop k) ((List.range' k more).map reply) :=
    congrArg (fun r : Queue × Engine × Option LinkFault => r.2.1) hreads.process
  have hbuffer : t'.lane.queue.readBuffer = rest := by rw [hlane]
  have hreached := (Traffic.reached_grows h.sound (a := .receive bytes) rfl).length_le
  rw [hstep]
  refine ⟨more, ⟨Traffic.sound_step d.traffic (.receive bytes) h.sound, ?_, ?_, rfl, ?_, ?_, ?_, ?_, ?_, ?_⟩,
    hengine, hall⟩
  · exact (congrArg (·.settings.optimize) hlane).trans h.plain
  · exact Traffic.isSingle_step h.sound (.inl h.plain) h.single (.receive bytes)
  · change t'.lane.queue.readQueue = d.traffic.handed.drop (k + more)
    rw [hlane, ← List.drop_drop, ← h.reading]
  · exact Nat.le_trans hreads.read_le hreached
  · change d.arrived + bytes.length = (_ ++ t'.lane.queue.readBuffer).length
    rw [hbuffer, ← hreads.arrived, @List.length_append _ _ bytes, h.arrived]
  · change _ ++ t'.lane.queue.readBuffer <+: _
    rw [hbuffer]
    exact hreads.arriving.trans (stream_mono reply hreached)
  · change Frame.parse _ t'.lane.queue.readBuffer = _
    rw [hbuffer]
    exact hreads.idle
  · change t'.engine.Matched d.traffic.handed reply (k + more)
    rw [hengine]
    exact h.matched.settleAll more h.sound.custody.sound h.single_handed
      (Nat.le_trans hreads.read_le h.reached_le)

end Kept

theorem kept_of_initial {s : Lane} (h : s.Initial) (hwrite : s.queue.writeBuffer = [])
    (hread : s.queue.readBuffer = []) (hplain : s.queue.settings.optimize = false) :
    (start s).Kept reply 0 := by
  have hnone : stream reply 0 ++ (start s).traffic.lane.queue.readBuffer = [] := hread
  refine ⟨Traffic.sound_of_initial h hwrite, hplain, Traffic.isSingle_of_initial h, rfl, h.readQueue,
    Nat.zero_le _, ?_, ?_, ?_, fun id hid => ?_, fun i hi => absurd hi (Nat.not_lt_zero i)⟩
  · rw [hnone]
    rfl
  · rw [hnone]
    exact List.nil_prefix
  · change Frame.parse _ s.queue.readBuffer = _
    rw [hread]
    exact Frame.parse_of_short Wire.responseMagic (by decide)
  · change id < s.engine.operations.length at hid
    rw [h.operations] at hid
    cases hid

theorem Kept.step (hvalid : ∀ i, (reply i).header.status ≠ Wire.invalidArguments) (h : d.Kept reply k)
    (turn : Turn) : ∃ k', (d.step reply turn).Kept reply k' := by
  cases turn with
  | act a =>
    have hstep : d.step reply (.act a) =
        if a.isLocal then { d with traffic := d.traffic.step a } else d := if_neg (by simp [h.fault])
    rw [hstep]
    split
    · next ha => exact ⟨k, h.act ha⟩
    · exact ⟨k, h⟩
  | deliver n =>
    obtain ⟨more, hkept, -⟩ := h.deliver hvalid n
    exact ⟨_, hkept⟩

theorem kept_run (hvalid : ∀ i, (reply i).header.status ≠ Wire.invalidArguments) :
    ∀ (turns : List Turn) {d : Dialogue} {k : Nat}, d.Kept reply k → ∃ k', (d.run reply turns).Kept reply k'
  | [], _, k, h => ⟨k, h⟩
  | turn :: turns, _, _, h => by
    obtain ⟨k, h⟩ := h.step hvalid turn
    exact kept_run hvalid turns h

/-! ## Every reply is for its own request -/

/-- Requests, replies and operations are in step. -/
structure InStep (reply : Nat → RawFrame) (d : Dialogue) : Prop where
  fault : d.fault = none
  /-- What the server reads is the requests that have reached it. -/
  legible : Transcript.Legible ⟨d.traffic.begun, d.traffic.taken⟩ d.traffic.engine
  reached : ∀ (i : Nat) r, d.traffic.reached[i]? = some r → ∃ id n c, d.traffic.handed[i]? = some id ∧
    d.traffic.engine.nature? id = some n ∧ n.work = .single c ∧ r = ⟨some id, c.request n.tag⟩
  distinct : d.traffic.handed.Nodup
  bounds : d.answered reply ≤ d.traffic.reached.length ∧
    d.traffic.reached.length ≤ d.traffic.handed.length
  /-- The next reply is for the next operation. -/
  reading : d.traffic.lane.queue.readQueue = d.traffic.handed.drop (d.answered reply)
  told : ∀ i < d.answered reply, ∀ id, d.traffic.handed[i]? = some id →
    d.traffic.engine.isTerminal id = true ∧
      (d.traffic.engine.isCancelled id = true ∨ d.traffic.engine.Concludes id (reply i))
  untold : ∀ id < d.traffic.engine.size, d.traffic.engine.isTerminal id = true →
    d.traffic.engine.isCancelled id = true ∨
      ∃ i < d.answered reply, d.traffic.handed[i]? = some id

theorem Kept.inStep (h : d.Kept reply k) : d.InStep reply := by
  have hnodup : d.traffic.handed.Nodup := by
    have hline : d.traffic.ledger.line.Nodup := (List.nodup_append.1 h.sound.ledger_custody.nodup).1
    exact (List.nodup_append.1 (List.nodup_append.1 hline).2.1).2.1
  have hknown : ∀ {i id}, d.traffic.handed[i]? = some id → id < d.traffic.engine.size := fun hid =>
    h.sound.lt_size_of_handed (List.mem_of_getElem? hid)
  refine ⟨h.fault, ?_, fun i r hr => ?_, hnodup, ?_, ?_, fun i hi id hid => ?_, fun id hid hend => ?_⟩
  · exact Transcript.legible h.sound.custody.sound.flat
      ((List.prefix_append _ _).trans h.sound.sent_prefix)
  · obtain ⟨-, hslots⟩ := Engine.slots_prefix h.single_handed (h.sound.reached_prefix h.single)
    obtain ⟨id, hid, hslot⟩ := hslots i r hr
    obtain ⟨n, c, hn, hc⟩ := h.single_handed id (List.mem_of_getElem? hid)
    rw [Engine.slots_single hn hc, List.singleton_inj] at hslot
    exact ⟨id, n, c, hid, hn, hc, hslot.symm⟩
  · rw [h.answered_eq]
    exact ⟨h.read_le, h.reached_le⟩
  · rw [h.answered_eq]
    exact h.reading
  · rw [h.answered_eq] at hi
    have hend := h.matched.settled i hi id hid
    refine ⟨hend, (h.matched.ended id (hknown hid) hend).imp_right fun ⟨j, hj, hidx, hheard⟩ => ?_⟩
    have hij : i = j := by
      have hlt := Nat.lt_of_lt_of_le hi h.le_handed
      exact (List.getElem?_inj hlt hnodup).1 (hid.trans hidx.symm)
    exact hij ▸ hheard
  · rw [h.answered_eq]
    exact (h.matched.ended id hid hend).imp_right fun ⟨i, hi, hidx, _⟩ => ⟨i, hi, hidx⟩

/-- **Without batches every reply is for its own request.** Whatever a server replies, as long as it
replies once to each whole request, in order, and never rejects its arguments: there is no fault;
the reply to the `i`th whole request on the wire is handed or charged to the operation that the request is
of, which ends with what the reply comes to unless it has been cancelled; and nothing else ends an
operation but being cancelled. -/
theorem replies_matched (s : Lane) (h : s.Initial) (hwrite : s.queue.writeBuffer = [])
    (hread : s.queue.readBuffer = []) (hplain : s.queue.settings.optimize = false)
    (reply : Nat → RawFrame) (hvalid : ∀ i, (reply i).header.status ≠ Wire.invalidArguments)
    (turns : List Turn) :
    let d := (start s).run reply turns
    d.InStep reply ∧ ∀ n,
      let d' := d.step reply (.deliver n)
      ∃ more, d'.answered reply = d.answered reply + more ∧
        d'.traffic.handed = d.traffic.handed ∧
        d'.traffic.engine = d.traffic.engine.settleAll (d.traffic.handed.drop (d.answered reply))
          ((List.range' (d.answered reply) more).map reply) ∧
        (((d.sent reply).drop d.arrived).length ≤ n → d.traffic.reached.length ≤ d'.answered reply) := by
  intro d
  obtain ⟨k, hkept⟩ : ∃ k, d.Kept reply k := kept_run hvalid turns (kept_of_initial h hwrite hread hplain)
  refine ⟨hkept.inStep, fun n => ?_⟩
  intro d'
  obtain ⟨more, hkept', hengine, hall⟩ := hkept.deliver hvalid n
  have hhanded : d'.traffic.handed = d.traffic.handed := by
    have hstep : d' = _ := if_neg (by simp [hkept.fault])
    rw [hstep]
    rfl
  rw [show d'.answered reply = k + more from hkept'.answered_eq, hkept.answered_eq]
  exact ⟨more, rfl, hhanded, hengine, hall⟩

/-- Of three gets the second is cancelled when five bytes of its request are written. The first reply
is no response, the second has a wrong tag, and the third is a hit that arrives in two pieces. -/
theorem replies_matched_of_bad_reply :
    let s : Lane :=
      { queue := { settings := ⟨64, 30, 10, false, 10, 1000⟩, node := 0, inputCapacity := 10 }, engine := {} }
    let reply : Nat → RawFrame
      | 0 => ⟨⟨0x82, 0x0c, 0, 0, 0, 0, 0, 1, 0⟩, [], rfl, by decide⟩
      | 1 => ⟨⟨0x81, 0x0c, 0, 0, 0, 0, 0, 77, 0⟩, [], rfl, by decide⟩
      | _ => ⟨⟨0x81, 0x0c, 1, 4, 0, 0, 6, 3, 9⟩, [0, 0, 0, 0, 99, 118], rfl, by decide⟩
    let d := (start s).run reply [.act (.create (.get "a" false) .silent),
      .act (.create (.get "b" false) .silent), .act (.create (.get "c" false) .silent), .act (.submit 0),
      .act (.submit 1), .act (.submit 2), .act .copyInput, .act .pack, .act (.cancel 1 "gone"),
      .act (.take 30), .act .pack, .deliver 10, .act (.take 30), .act .pack, .act (.take 30),
      .deliver 50, .deliver 50]
    s.Initial ∧ s.queue.writeBuffer = [] ∧ s.queue.readBuffer = [] ∧
      s.queue.settings.optimize = false ∧ (∀ i, (reply i).header.status ≠ Wire.invalidArguments) ∧
      d.InStep reply ∧ d.answered reply = 3 ∧ d.traffic.engine.isCancelled 1 = true ∧
      d.traffic.engine.Concludes 0 (reply 0) ∧ d.traffic.engine.Concludes 2 (reply 2) := by
  intro s reply d
  have h : s.Initial := ⟨rfl, rfl, rfl, rfl, rfl, rfl⟩
  have hvalid : ∀ i, (reply i).header.status ≠ Wire.invalidArguments := fun i => by
    have hstatus : (reply i).header.status = Wire.noError := by rcases i with _ | _ | i <;> rfl
    rw [hstatus]
    decide
  have hrun : (d.answered reply, d.traffic.handed, [0, 1, 2].map d.traffic.engine.isCancelled) =
      (3, [0, 1, 2], [false, true, false]) := by decide +kernel
  simp only [Prod.mk.injEq, List.map_cons, List.map_nil, List.cons.injEq, and_true] at hrun
  obtain ⟨hanswered, hhanded, hfirst, hsecond, hthird⟩ := hrun
  obtain ⟨hstep, -⟩ := replies_matched s h rfl rfl rfl reply hvalid
    [.act (.create (.get "a" false) .silent),
      .act (.create (.get "b" false) .silent), .act (.create (.get "c" false) .silent), .act (.submit 0),
      .act (.submit 1), .act (.submit 2), .act .copyInput, .act .pack, .act (.cancel 1 "gone"),
      .act (.take 30), .act .pack, .deliver 10, .act (.take 30), .act .pack, .act (.take 30),
      .deliver 50, .deliver 50]
  have htold : ∀ i < 3, ∀ id, [0, 1, 2][i]? = some id → d.traffic.engine.isCancelled id = false →
      d.traffic.engine.Concludes id (reply i) := fun i hi id hid hopen => by
    rw [← hhanded] at hid
    refine (hstep.told i (hanswered ▸ hi) id hid).2.resolve_left fun hcancelled => ?_
    rw [hopen] at hcancelled
    cases hcancelled
  exact ⟨h, rfl, rfl, rfl, hvalid, hstep, hanswered, hsecond, htold 0 (by decide) 0 rfl hfirst,
    htold 2 (by decide) 2 rfl hthird⟩

end Dialogue

end ShardedCache

import ShardedCache.Proofs.Cluster.Elsewhere
import ShardedCache.Proofs.Cluster.Facets
import ShardedCache.Proofs.Cluster.Refilling
import ShardedCache.Proofs.Node.Gating

/-!
# What is written before a login

A connection that has to log in first puts its login in front of everything queued and takes no
submissions in until that has succeeded. But what an earlier connection has left in the write queue is
not held back: it is written right behind the login (`History.copied_before_login`), so that only a
connection with no such backlog writes nothing but its login.
-/

namespace ShardedCache

open Cluster (Leads)

/-! ## The connection of a node with credentials -/

namespace Cluster

def credentials? (c : Cluster) (node : Nat) : Option Credentials := (c.node? node).bind (·.credentials)

/-- What a node has left to write, but for what has lapsed. -/
def backlog (c : Cluster) (node : Nat) : List Nat :=
  (((c.queue? node).map (·.writeQueue)).getD []).filter (!c.engine.lapsed ·)

/-- The queues of a node hold nothing back but what is to be held back. -/
def Gated (credentials : Credentials) (login : Option Nat) (backlog : List Nat) (node : Nat)
    (c : Cluster) : Prop :=
  ∃ q, c.queue? node = some q ∧ q.Gated credentials login backlog c.engine

variable {since : Outline} {node : Nat} {c c' : Cluster} {credentials : Credentials}
  {login : Option Nat} {backlog : List Nat}

theorem credentials?_eq (c : Cluster) (node : Nat) :
    c.credentials? node = (c.facet? (·.credentials) node).join := by
  rw [credentials?, facet?]
  cases c.node? node <;> rfl

theorem queue?_of_credentials? (h : c.credentials? node = some credentials) :
    ∃ q, c.queue? node = some q := by
  obtain ⟨n, hn, -⟩ := Option.bind_eq_some_iff.1 h
  exact ⟨n.queue, by rw [queue?, hn]; rfl⟩

theorem Apart.credentials? (h : c.Apart node c') (hc : c.credentials? node = some credentials) :
    c'.credentials? node = some credentials := by
  obtain ⟨n, hn, hcredentials⟩ := Option.bind_eq_some_iff.1 hc
  obtain ⟨n', hn', hsame, -⟩ := h n hn
  rw [Cluster.credentials?, hn', Option.bind_some, hsame]
  exact hcredentials

/-- What happens elsewhere does not concern the queues of the node. -/
theorem Gated.apart (h : c.Gated credentials login backlog node) (hled : Leads since c c')
    (hapart : c.Apart node c') : c'.Gated credentials login backlog node := by
  obtain ⟨q, hq, hgated⟩ := h
  obtain ⟨n, hn, rfl⟩ := Option.map_eq_some_iff.1 hq
  obtain ⟨n', hn', -, hqueue⟩ := hapart n hn
  refine ⟨n'.queue, by rw [queue?, hn']; rfl, hgated.moves hled.moves ?_⟩
  rcases hqueue with hsame | hempty
  · rw [hsame]
    exact List.Subset.refl _
  · rw [hempty]
    exact List.nil_subset _

/-- What is copied for a node whose queues are gated is not held back, and they stay gated. -/
theorem Gated.pack (h : c.Gated credentials login backlog node) :
    (c.pack node).Gated credentials login backlog node ∧
      ∀ p ∈ c.copies node, (c.pack node).engine.Ahead login backlog p.owner := by
  obtain ⟨q, hq, hgated⟩ := h
  have hengine : (c.pack node).engine = (q.pack c.engine).2 := by
    rw [Cluster.pack, engine_withQueue hq]
  have hqueue : (c.pack node).queue? node = some (q.pack c.engine).1 := by
    rw [Cluster.pack, queue?_withQueue, if_pos rfl, hq]
    rfl
  refine ⟨⟨_, hqueue, ?_⟩, ?_⟩
  · rw [hengine]
    exact Queue.pack_induction Queue.Gated.packing q c.engine hgated
  · rw [hengine, copies_of_queue? hq]
    exact hgated.copies

end Cluster

namespace Connection

variable {c c' : Cluster} {node nd : Nat} {auth auth' : Option Nat}

theorem credentials?_opening (c : Cluster) (node attempt : Nat) :
    (opening c node attempt).credentials? nd = c.credentials? nd := by
  rw [Cluster.credentials?_eq, Cluster.credentials?_eq, facet?_opening]
  simp only [ite_self]
  rfl

theorem queue?_opening (c : Cluster) (node attempt nd : Nat) :
    (opening c node attempt).queue? nd = c.queue? nd :=
  (Cluster.queue?_modifyNode (countRetry c node attempt) node
    (f := fun n => { n with health := n.health.reset }) (fun _ => rfl) nd).trans
      (queue?_countRetry c node attempt nd)

/-- Nothing that happens to a connection changes the credentials of any node. -/
theorem credentials?_step (c : Cluster) (node : Nat) (state : Connection) (event : LinkEvent) :
    (step c node state event).1.credentials? nd = c.credentials? nd := by
  rw [Cluster.credentials?_eq, Cluster.credentials?_eq, facet?_step fun _ _ _ => rfl]
  simp only [ite_self]
  exact congrArg Option.join (ite_self _)

/-! ### Before the write buffer is refilled -/

/-- A connection that is opened puts a new login in front of what is left to be written. -/
theorem ready?_connected {credentials : Credentials} {q : Queue}
    (hcredentials : c.credentials? node = some credentials) (hq : c.queue? node = some q)
    (attempt : Nat) :
    ∃ c' id q', ready? c node (down attempt) .connected = some (c', some id) ∧
      c'.queue? node = some q' ∧ q'.writeQueue = id :: q.writeQueue ∧
      c'.engine.IsLogin credentials id := by
  have hready : ready? c node (down attempt) .connected =
      some (authenticate (opening c node attempt) node) := rfl
  have hcredentials' : ((opening c node attempt).node? node).bind (·.credentials) = some credentials :=
    (credentials?_opening c node attempt).trans hcredentials
  have hq' : (opening c node attempt).queue? node = some q :=
    (queue?_opening c node attempt node).trans hq
  generalize opening c node attempt = c₀ at hready hcredentials' hq'
  rw [hready, authenticate, hcredentials']
  let made : Cluster := Cluster.assign { c₀ with engine := (c₀.engine.create
    (.saslPlain credentials.username credentials.password) .silent).1 } c₀.engine.size node
  have hmade : made.queue? node = some q := hq'
  refine ⟨_, _, q.pushFront c₀.engine.size, rfl, ?_, rfl, ?_⟩
  · change (made.pushFront node c₀.engine.size).queue? node = _
    rw [Cluster.pushFront, Cluster.queue?_withQueue, if_pos rfl, hmade]
    rfl
  · change (made.pushFront node c₀.engine.size).engine.IsLogin credentials c₀.engine.size
    rw [Cluster.pushFront, Cluster.engine_withQueue hmade]
    obtain ⟨n, hn, hwork⟩ := c₀.engine.isLogin_create credentials .silent
    exact ⟨n, (Cluster.keeps_assign _ _ node _).trans hn, hwork⟩

/-- A login is over once it has succeeded; if it has failed, the connection is dropped. -/
theorem judge_spec {c₁ : Cluster} {waiting : List Nat}
    (hq : ∃ q, c₁.queue? node = some q ∧ q.writeQueue = waiting)
    (h : judge c₁ node auth = some (c', auth')) :
    (∃ q', c'.queue? node = some q' ∧ q'.writeQueue = waiting) ∧
      (auth' = auth ∨ auth' = none ∧ ∃ id, auth = some id ∧ c'.engine.succeeded id = true) := by
  unfold judge at h
  split at h
  · cases h
    exact ⟨hq, .inl rfl⟩
  · next id =>
    split at h
    · cases h
      exact ⟨hq, .inl rfl⟩
    · split at h
      · next hsuccess =>
        cases h
        refine ⟨?_, .inr ⟨rfl, id, rfl, hsuccess⟩⟩
        have hqueue := Cluster.queue?_modifyNode c₁ node
          (f := ({ · with authenticated := true })) (fun _ => rfl) node
        rwa [hqueue]
      · cases h

/-- While the connection is open, nothing is added to the write queue before the submissions are taken
in; and they are taken in only once the login has succeeded. -/
theorem ready?_up {event : LinkEvent} {q : Queue} (hq : c.queue? node = some q)
    (h : ready? c node (up auth) event = some (c', auth')) :
    (∃ q', c'.queue? node = some q' ∧ q'.writeQueue = q.writeQueue) ∧
      (auth' = auth ∨ auth' = none ∧ ∃ id, auth = some id ∧ c'.engine.succeeded id = true) := by
  cases event with
  | woken =>
    cases h
    exact ⟨⟨q, hq, rfl⟩, .inl rfl⟩
  | sent n =>
    cases h
    refine ⟨⟨(q.takeWritten n).1, ?_, rfl⟩, .inl rfl⟩
    rw [Cluster.takeWritten, Cluster.queue?_withQueue, if_pos rfl, hq]
    rfl
  | received bytes =>
    rw [ready?] at h
    have hread : (c.appendRead node bytes).queue? node = some (q.appendRead bytes) := by
      rw [Cluster.appendRead, Cluster.queue?_withQueue, if_pos rfl, hq]
      rfl
    have hprocessed : ∃ q', ((c.appendRead node bytes).process node).1.queue? node = some q' ∧
        q'.writeQueue = q.writeQueue := by
      refine ⟨((q.appendRead bytes).process (c.appendRead node bytes).engine).1, ?_, ?_⟩
      · rw [Cluster.process, Cluster.queue?_withQueue, if_pos rfl, hread]
        rfl
      · exact Queue.writeQueue_process (q.appendRead bytes) _
    split at h
    · cases h
    · next c₁ heq =>
      rw [heq] at hprocessed
      exact judge_spec hprocessed h
  | _ => cases h

/-- When the write buffer is not refilled, nothing happens or the connection ends. -/
theorem step_of_not_ready {state : Connection} {event : LinkEvent}
    (h : ready? c node state event = none) :
    step c node state event = (c, state) ∨ ∀ auth, (step c node state event).2 ≠ up auth := by
  cases state with
  | down attempt =>
    cases event with
    | connected => cases h
    | connectFailed => exact .inr fun _ heq => by cases heq
    | shutDown => exact .inr fun _ heq => by cases heq
    | _ => exact .inl rfl
  | up auth =>
    cases event with
    | woken => cases h
    | sent n => cases h
    | received bytes =>
      obtain ⟨c₁, hdropped⟩ := step_of_refused h
      rw [hdropped]
      exact .inr fun _ heq => by cases heq
    | lost => exact .inr fun _ heq => by cases heq
    | shutDown => exact .inr fun _ heq => by cases heq
    | _ => exact .inl rfl
  | stopped => cases event <;> exact .inl rfl

end Connection

/-! ## Runs -/

/-- The connection of a node, with what is to be known of the last one that was opened. -/
structure History where
  cluster : Cluster
  state : Connection
  /-- The login that it began with. -/
  login : Option Nat := none
  /-- What was left to be written when it was opened. -/
  backlog : List Nat := []
  /-- What has been copied into the write buffer on it. -/
  copied : List Piece := []

namespace Connection

/-- The login that has not been answered yet. -/
def login? : Connection → Option Nat
  | up auth => auth
  | _ => none

end Connection

namespace History

open Connection

/-- The login has succeeded. -/
def LoggedIn (s : History) : Prop :=
  ∃ id, s.login = some id ∧ s.cluster.engine.succeeded id = true

def after (node : Nat) (s : History) (event : LinkEvent) : History :=
  let (cluster, state) := step s.cluster node s.state event
  let copied := Connection.copies s.cluster node s.state event
  if s.state.opens event then
    { cluster, state, login := state.login?, backlog := s.cluster.backlog node, copied }
  else { s with cluster, state, copied := s.copied ++ copied }

/-- What may happen to a node with these credentials, its connection down at first: events of its
connection, and whatever else. -/
inductive Run (node : Nat) (credentials : Credentials) : History → Prop where
  | start {c : Cluster} (hreach : c.Reachable) (hnode : c.credentials? node = some credentials)
    (attempt : Nat) : Run node credentials { cluster := c, state := down attempt }
  | event {s : History} (h : Run node credentials s) (event : LinkEvent) :
    Run node credentials (s.after node event)
  | aside {s : History} (h : Run node credentials s) {c : Cluster} (hstep : s.cluster.Aside node c) :
    Run node credentials { s with cluster := c }

variable {node : Nat} {credentials : Credentials} {s : History}

/-- What every run keeps. -/
structure Gated (node : Nat) (credentials : Credentials) (s : History) : Prop where
  regular : s.cluster.Regular ({} : Reports).outline
  known : s.cluster.credentials? node = some credentials
  isLogin : ∀ id, s.login = some id → s.cluster.engine.IsLogin credentials id
  pending : ∀ id, s.state = up (some id) → s.login = some id ∧
    s.cluster.Gated credentials s.login s.backlog node
  opened : s.state = up none → s.LoggedIn
  copied : ¬s.LoggedIn → ∀ p ∈ s.copied, s.cluster.engine.Ahead s.login s.backlog p.owner

theorem gated_start {c : Cluster} (hreach : c.Reachable)
    (hnode : c.credentials? node = some credentials) (attempt : Nat) :
    Gated node credentials { cluster := c, state := down attempt } where
  regular := (hreach.leads Cluster.regular_empty).regular
  known := hnode
  isLogin _ hid := by cases hid
  pending _ hid := by cases hid
  opened hup := by cases hup
  copied _ := List.forall_mem_nil _

/-- A login that has succeeded stays so. -/
theorem LoggedIn.leads {since : Outline} {s' : History} (h : s.LoggedIn)
    (hled : Leads since s.cluster s'.cluster) (hlogin : s'.login = s.login) : s'.LoggedIn := by
  obtain ⟨id, hid, hsuccess⟩ := h
  exact ⟨id, hlogin.trans hid,
    Engine.succeeded_goes hsuccess hled.start.proper.orderly.sound hled.goes⟩

/-- What has been copied was not held back, and that remains true. -/
theorem Gated.copied_leads {since : Outline} {s' : History} (h : s.Gated node credentials)
    (hpending : ¬s'.LoggedIn) (hled : Leads since s.cluster s'.cluster) (hlogin : s'.login = s.login) :
    ∀ p ∈ s.copied, s'.cluster.engine.Ahead s.login s.backlog p.owner := by
  intro p hp
  have hbefore : ¬s.LoggedIn := fun hin => hpending (hin.leads hled hlogin)
  exact (h.copied hbefore p hp).goes hled.goes

theorem Gated.aside (h : s.Gated node credentials) {c : Cluster} (hstep : s.cluster.Aside node c) :
    Gated node credentials { s with cluster := c } := by
  have hled : Leads ({} : Reports).outline s.cluster c :=
    ((Cluster.step_iff node).2 (.inl hstep)).leads h.regular
  have hapart := hstep.apart
  refine ⟨hled.regular, hapart.credentials? h.known, fun id hid => ?_, fun id hid => ?_,
    fun hup => ?_, fun hpending => h.copied_leads hpending hled rfl⟩
  · exact (h.isLogin id hid).goes hled.goes
  · obtain ⟨hlogin, hgated⟩ := h.pending id hid
    exact ⟨hlogin, hgated.apart hled hapart⟩
  · exact LoggedIn.leads (s := s) (h.opened hup) hled rfl

/-- A connection is opened: its login comes first, and then what is left to be written. -/
theorem Gated.connected (h : s.Gated node credentials) {attempt : Nat} (hdown : s.state = down attempt) :
    (s.after node .connected).Gated node credentials := by
  obtain ⟨q, hq⟩ := Cluster.queue?_of_credentials? h.known
  obtain ⟨c', id, q', hready, hq', hwriting, hlogin⟩ := ready?_connected h.known hq attempt
  have hready' : ready? s.cluster node s.state .connected = some (c', some id) := hdown ▸ hready
  have hled := leads_ready h.regular hready'
  have hstep : step s.cluster node s.state .connected = (c'.pack node, up (some id)) :=
    step_of_ready hready'
  have hcopies : Connection.copies s.cluster node s.state .connected = c'.copies node := by
    rw [Connection.copies, hready']
    rfl
  have hgated : c'.Gated credentials (some id) (s.cluster.backlog node) node := by
    refine ⟨q', hq', hled.regular.proper, fun j hj => Option.some.inj hj ▸ hlogin, fun x hx => ?_⟩
    rw [hwriting] at hx
    rcases List.mem_cons.1 hx with rfl | hx
    · exact .inr (.inl rfl)
    · cases hlapsed : s.cluster.engine.lapsed x with
      | true => exact .inl (hled.moves.lapsed hlapsed)
      | false =>
        refine .inr (.inr (.inl ?_))
        rw [Cluster.backlog, hq]
        exact List.mem_filter.2 ⟨hx, by rw [hlapsed]; rfl⟩
  obtain ⟨⟨q₂, hq₂, hpacked⟩, hahead⟩ := hgated.pack
  have hafter : s.after node .connected =
      { cluster := c'.pack node, state := up (some id), login := some id,
        backlog := s.cluster.backlog node, copied := c'.copies node } := by
    rw [after, hstep, hcopies, hdown]
    rfl
  have hregular := (Cluster.leads_step h.regular node s.state .connected).regular
  have hknown := (credentials?_step s.cluster node s.state .connected).trans h.known
  rw [hstep] at hregular hknown
  rw [hafter]
  refine ⟨hregular, hknown, hpacked.isLogin, fun j hj => ?_, fun hup => ?_, fun _ => hahead⟩
  · cases hj
    exact ⟨rfl, q₂, hq₂, hpacked⟩
  · cases hup

section Event

variable {event : LinkEvent}

theorem after_of_not_opens (h : s.state.opens event = false) :
    s.after node event =
      { s with
        cluster := (step s.cluster node s.state event).1
        state := (step s.cluster node s.state event).2
        copied := s.copied ++ Connection.copies s.cluster node s.state event } := by
  simp [after, h]

/-- An event that ends the connection or comes to nothing. -/
theorem Gated.idle (h : s.Gated node credentials) (hopen : s.state.opens event = false)
    (hready : ready? s.cluster node s.state event = none) :
    (s.after node event).Gated node credentials := by
  have hcopies : Connection.copies s.cluster node s.state event = [] := by
    rw [Connection.copies, hready]
  rw [after_of_not_opens hopen, hcopies, List.append_nil]
  have hled := Cluster.leads_step h.regular node s.state event
  rcases step_of_not_ready hready with hsame | hended
  · rw [hsame]
    exact h
  · exact ⟨hled.regular, (credentials?_step s.cluster node s.state event).trans h.known,
      fun id hid => (h.isLogin id hid).goes hled.goes, fun id hid => absurd hid (hended _),
      fun hup => absurd hup (hended _), fun hpending => h.copied_leads hpending hled rfl⟩

/-- The connection is open, and the write buffer is refilled. -/
theorem Gated.refilled (h : s.Gated node credentials) {auth auth' : Option Nat} {c' : Cluster}
    (hup : s.state = up auth) (hready : ready? s.cluster node s.state event = some (c', auth')) :
    (s.after node event).Gated node credentials := by
  have hopen : s.state.opens event = false := by
    rw [hup]
    rfl
  obtain ⟨q, hq⟩ := Cluster.queue?_of_credentials? h.known
  obtain ⟨⟨q', hq', hwriting⟩, hauth⟩ := ready?_up hq (hup ▸ hready)
  have hled := leads_ready h.regular hready
  have hstep : step s.cluster node s.state event = ((takeIn c' node auth').pack node, up auth') :=
    step_of_ready hready
  have hstepped := Cluster.leads_step h.regular node s.state event
  have hknown := (credentials?_step s.cluster node s.state event).trans h.known
  have hrest : Leads _ c' ((takeIn c' node auth').pack node) :=
    (leads_takeIn hled.regular node auth').trans
      (Cluster.leads_pack (leads_takeIn hled.regular node auth').regular node)
  rw [after_of_not_opens hopen]
  rw [hstep] at hstepped hknown ⊢
  have hisLogin := fun id hid => (h.isLogin id hid).goes hstepped.goes
  cases auth' with
  | some id =>
    have hauth' : s.state = up (some id) := by
      rcases hauth with hsame | ⟨hnone, -⟩
      · rw [hup, hsame]
      · cases hnone
    obtain ⟨hlogin, q₀, hq₀, hgated⟩ := h.pending id hauth'
    cases hq.symm.trans hq₀
    have hgated' : c'.Gated credentials s.login s.backlog node := by
      refine ⟨q', hq', hgated.moves hled.moves ?_⟩
      rw [hwriting]
      exact List.Subset.refl _
    obtain ⟨hpacked, hahead⟩ := hgated'.pack
    have hcopies : Connection.copies s.cluster node s.state event = c'.copies node := by
      rw [Connection.copies, hready]
      rfl
    refine ⟨hstepped.regular, hknown, hisLogin, fun j hj => ?_, fun hnone => ?_,
      fun hpending p hp => ?_⟩
    · cases hj
      exact ⟨hlogin, hpacked⟩
    · cases hnone
    · rcases List.mem_append.1 hp with hp | hp
      · exact h.copied_leads hpending hstepped rfl p hp
      · rw [hcopies] at hp
        exact hahead p hp
  | none =>
    have hin : LoggedIn { s with
        cluster := (takeIn c' node none).pack node, state := up none
        copied := s.copied ++ Connection.copies s.cluster node s.state event } := by
      rcases hauth with hsame | ⟨-, id, hid, hsuccess⟩
      · exact LoggedIn.leads (s := s) (h.opened (hup.trans (congrArg up hsame.symm))) hstepped rfl
      · obtain ⟨hlogin, -⟩ := h.pending id (hup.trans (congrArg up hid))
        exact ⟨id, hlogin,
          Engine.succeeded_goes hsuccess hled.regular.proper.orderly.sound hrest.goes⟩
    exact ⟨hstepped.regular, hknown, hisLogin, fun j hj => (by cases hj), fun _ => hin,
      fun hpending => absurd hin hpending⟩

end Event

/-- Whatever happens to the connection. -/
theorem Gated.event (h : s.Gated node credentials) (event : LinkEvent) :
    (s.after node event).Gated node credentials := by
  cases hready : ready? s.cluster node s.state event with
  | none =>
    refine h.idle ?_ hready
    cases hstate : s.state with
    | down attempt =>
      cases event with
      | connected =>
        rw [hstate] at hready
        cases hready
      | _ => rfl
    | _ => rfl
  | some ready =>
    cases hstate : s.state with
    | down attempt =>
      cases event with
      | connected => exact h.connected hstate
      | _ =>
        rw [hstate] at hready
        cases hready
    | up auth => exact h.refilled hstate hready
    | stopped =>
      rw [hstate] at hready
      cases event <;> cases hready

theorem Run.gated (h : Run node credentials s) : s.Gated node credentials := by
  induction h with
  | start hreach hnode attempt => exact gated_start hreach hnode attempt
  | event _ event ih => exact ih.event event
  | aside _ hstep ih => exact ih.aside hstep

/-- **Until its login has succeeded, a connection writes that and what earlier connections have left to
be written,** the latter alone or in batches; submissions are not taken in. So if nothing has been left,
just the login is written. -/
theorem copied_before_login (h : Run node credentials s) :
    (∀ id, s.login = some id → s.cluster.engine.IsLogin credentials id) ∧
    (s.state = up none → s.LoggedIn) ∧
    (¬s.LoggedIn →
      (∀ p ∈ s.copied, s.cluster.engine.Ahead s.login s.backlog p.owner) ∧
      (s.backlog = [] → ∀ p ∈ s.copied, s.login = some p.owner)) := by
  have hgated := h.gated
  refine ⟨hgated.isLogin, hgated.opened, fun hpending => ⟨hgated.copied hpending, fun hnone p hp => ?_⟩⟩
  rcases hgated.copied hpending p hp with hlogin | hkept | ⟨hne, hmembers⟩
  · exact hlogin
  · rw [hnone] at hkept
    cases hkept
  · obtain ⟨m, hm⟩ := List.exists_mem_of_ne_nil _ hne
    have hkept := hmembers m hm
    rw [hnone] at hkept
    cases hkept

/-! ### A backlog that is not held back -/

/-- A client of one node with credentials, whose write buffer has room for two gets. -/
def guarded : Cluster × Client :=
  Client.ofConfig { writeBufferSize := 60, optimize := false, auth := some ⟨"u", "p"⟩ } {}

/-- The server accepts the first login. -/
def accepted : Bytes :=
  [0x81, 0x21, 0, 0, 0, 0, 0, 0, 0, 0, 0, 0, 0, 0, 0, 1, 0, 0, 0, 0, 0, 0, 0, 0]

/-- After the first login three keys are asked for. -/
def asked : History :=
  let s := ((({ cluster := guarded.1, state := down 0 } : History).after 0 .connected).after 0
    (.sent 100)).after 0 (.received accepted)
  { s with cluster := (guarded.2.serve (.getBulk ["a", "b", "c"] .bytes) s.cluster).1 }

/-- The connection is lost while the third get is being written, and a second one is opened. -/
def reconnected : History := ((asked.after 0 .woken).after 0 .lost).after 0 .connected

theorem run_reconnected : Run 0 ⟨"u", "p"⟩ reconnected := by
  obtain ⟨hreach, -⟩ : guarded.1.Reachable ∧ guarded.2.Placed guarded.1 :=
    Future.connected_ofConfig (by simp [Config.flaw?, Config.sizes, String.contains])
  have hstart := Run.start hreach (show guarded.1.credentials? 0 = some ⟨"u", "p"⟩ by decide +kernel) 0
  have hlogin := ((hstart.event .connected).event (.sent 100)).event (.received accepted)
  have hplaced : guarded.2.Placed (((({ cluster := guarded.1, state := down 0 } : History).after 0
      .connected).after 0 (.sent 100)).after 0 (.received accepted)).cluster := by
    have hnodes : guarded.2.nodes = [0] := by decide +kernel
    refine ⟨by rw [hnodes]; exact List.cons_ne_nil _ _, fun node hnode => ?_⟩
    rw [hnodes] at hnode
    rw [List.mem_singleton.1 hnode]
    decide +kernel
  have hasked := hlogin.aside (.call hplaced (.getBulk ["a", "b", "c"] .bytes))
  exact ((hasked.event .woken).event .lost).event .connected

theorem reconnected_eq : reconnected.login = some 4 ∧ reconnected.backlog = [3] ∧
    reconnected.copied.map (·.owner) = [4, 3] ∧
    reconnected.cluster.engine.succeeded 4 = false := by decide +kernel

theorem not_loggedIn_reconnected : ¬reconnected.LoggedIn := by
  obtain ⟨hlogin, -, -, hfailed⟩ := reconnected_eq
  rintro ⟨id, hid, hsuccess⟩
  cases hlogin.symm.trans hid
  rw [hfailed] at hsuccess
  cases hsuccess

/-- The login of the second connection and the get that the first one has left are all that is written
before the login has succeeded. -/
theorem copied_before_second_login : Run 0 ⟨"u", "p"⟩ reconnected ∧ ¬reconnected.LoggedIn ∧
    reconnected.cluster.engine.IsLogin ⟨"u", "p"⟩ 4 ∧
    ∀ p ∈ reconnected.copied, reconnected.cluster.engine.Ahead (some 4) [3] p.owner := by
  obtain ⟨hlogin, hbacklog, -, -⟩ := reconnected_eq
  obtain ⟨hisLogin, -, hpending⟩ := copied_before_login run_reconnected
  have hahead := (hpending not_loggedIn_reconnected).1
  rw [hlogin, hbacklog] at hahead
  exact ⟨run_reconnected, not_loggedIn_reconnected, hisLogin 4 hlogin, hahead⟩

/-- Not every connection keeps to its login until that has succeeded. -/
theorem get_before_second_login : ¬∀ (node : Nat) (credentials : Credentials) (s : History),
    Run node credentials s → ¬s.LoggedIn → ∀ p ∈ s.copied, s.login = some p.owner := by
  intro h
  obtain ⟨hlogin, -, howners, -⟩ := reconnected_eq
  have hthree : 3 ∈ reconnected.copied.map (·.owner) := by
    rw [howners]
    decide
  obtain ⟨p, hp, howner⟩ := List.mem_map.1 hthree
  have heq := h 0 ⟨"u", "p"⟩ reconnected run_reconnected not_loggedIn_reconnected p hp
  rw [hlogin, howner] at heq
  cases heq

end History

end ShardedCache

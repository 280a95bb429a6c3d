import ShardedCache.Proofs.Client.Agreement

/-!
# What happens elsewhere

Only the connection of a node adds to what the node is to write. Whatever else happens to the cluster,
be it calls, waits, cancellations or events of other connections, leaves the write queue of the node as
it is or, when the node is shut down, empties it (`Cluster.Aside.apart`).
-/

namespace ShardedCache

open SortedGet (Answer RangeQuery)

namespace Cluster

/-- The node has the same credentials, and its write queue is as before or has been emptied. -/
def Apart (node : Nat) (c c' : Cluster) : Prop :=
  ∀ n, c.node? node = some n → ∃ n', c'.node? node = some n' ∧ n'.credentials = n.credentials ∧
    (n'.queue.writeQueue = n.queue.writeQueue ∨ n'.queue.writeQueue = [])

variable {node : Nat} {c c' c'' : Cluster}

theorem Apart.trans (h : c.Apart node c') (h' : c'.Apart node c'') : c.Apart node c'' := by
  intro n hn
  obtain ⟨n', hn', hcredentials, hqueue⟩ := h n hn
  obtain ⟨n'', hn'', hcredentials', hqueue'⟩ := h' n' hn'
  refine ⟨n'', hn'', hcredentials'.trans hcredentials, ?_⟩
  rcases hqueue' with hsame | hempty
  · exact hqueue.imp hsame.trans hsame.trans
  · exact .inr hempty

theorem apart_of_nodes (h : c'.nodes = c.nodes) : c.Apart node c' := by
  intro n hn
  refine ⟨n, ?_, rfl, .inl rfl⟩
  rw [node?, h]
  exact hn

theorem Apart.refl (node : Nat) (c : Cluster) : c.Apart node c := apart_of_nodes rfl

/-- Something is changed about a node other than its queues and its credentials. -/
theorem apart_modifyNode (c : Cluster) (nd : Nat) {f : Node → Node}
    (hf : ∀ n, (f n).credentials = n.credentials ∧ (f n).queue = n.queue) :
    c.Apart node (c.modifyNode nd f) := by
  intro n hn
  have hnode : (c.modifyNode nd f).node? node = if nd = node then some (f n) else some n := by
    simp only [node?, modifyNode, List.getElem?_modify] at hn ⊢
    rw [hn]
    split <;> rfl
  rw [hnode]
  split
  · exact ⟨f n, rfl, (hf n).1, .inl (by rw [(hf n).2])⟩
  · exact ⟨n, rfl, rfl, .inl rfl⟩

/-- The queues of a node are changed. -/
theorem apart_set {nd : Nat} {n : Node} (hn : c.node? nd = some n) (e : Engine) {q : Queue}
    (hq : nd = node → q.writeQueue = n.queue.writeQueue ∨ q.writeQueue = []) :
    c.Apart node { c with engine := e, nodes := c.nodes.set nd { n with queue := q } } := by
  intro n' hn'
  obtain ⟨hlt, -⟩ := List.getElem?_eq_some_iff.1 hn
  by_cases hnd : nd = node
  · subst hnd
    cases hn.symm.trans hn'
    exact ⟨{ n with queue := q }, List.getElem?_set_self hlt, rfl, hq rfl⟩
  · exact ⟨n', (List.getElem?_set_ne hnd).trans hn', rfl, .inl rfl⟩

theorem apart_withQueue {α : Type} (c : Cluster) (nd : Nat) (default : α)
    {f : Queue → Engine → Queue × Engine × α}
    (hf : nd = node → ∀ q e, (f q e).1.writeQueue = q.writeQueue ∨ (f q e).1.writeQueue = []) :
    c.Apart node (c.withQueue nd default f).1 := by
  unfold withQueue
  cases hn : c.node? nd with
  | none => exact .refl node c
  | some n => exact apart_set hn _ fun hnd => hf hnd n.queue c.engine

theorem apart_foldl {α : Type} {f : Cluster → α → Cluster} (hf : ∀ c a, Apart node c (f c a)) :
    ∀ (as : List α) (c : Cluster), c.Apart node (as.foldl f c)
  | [], c => .refl node c
  | a :: as, c => (hf c a).trans (apart_foldl hf as (f c a))

/-! ## Submitting and waiting -/

theorem apart_enqueue (c : Cluster) (operation nd : Nat) :
    c.Apart node (c.enqueue operation nd).1 := by
  unfold enqueue
  split
  · exact .refl node c
  · next n hn =>
    split
    · exact apart_of_nodes rfl
    · next q hsubmit =>
      have hq := Queue.submit_eq hsubmit
      exact apart_set hn c.engine fun _ => .inl (by rw [hq])

theorem apart_settleDeferred (c : Cluster) (d : Deferred) : c.Apart node (c.settleDeferred d) := by
  unfold settleDeferred
  dsimp only
  split
  · exact (apart_enqueue c d.operation d.node).trans (apart_of_nodes rfl)
  · split <;> exact apart_of_nodes rfl

theorem apart_settle (c : Cluster) : c.Apart node c.settle := by
  have hcounted : ∀ (due : List Alarm) (c : Cluster),
      c.Apart node (due.foldl (fun c a => c.mapReports (·.countDown a.latch)) c) :=
    apart_foldl fun _ _ => apart_of_nodes rfl
  have hstarted : c.Apart node { c with alarms := c.alarms.filter (c.now < ·.due) } :=
    apart_of_nodes rfl
  have hcleared : ∀ c : Cluster, c.Apart node { c with deferred := [] } := fun _ => apart_of_nodes rfl
  exact ((hstarted.trans (hcounted _ _)).trans (hcleared _)).trans
    (apart_foldl apart_settleDeferred _ _)

theorem apart_passTo (c : Cluster) (moment : Nat) : c.Apart node (c.passTo moment) := by
  have hpassed : c.Apart node { c with now := max c.now moment } := apart_of_nodes rfl
  exact hpassed.trans (apart_settle _)

theorem apart_waitThrough (ready : Cluster → Bool) (deadline : Nat) :
    ∀ (moments : List Nat) (c : Cluster), c.Apart node (waitThrough ready deadline moments c).1
  | [], c => apart_of_nodes rfl
  | moment :: later, c => by
    unfold waitThrough
    dsimp only
    split
    · exact apart_passTo c moment
    · exact (apart_passTo c moment).trans (apart_waitThrough ready deadline later _)

theorem apart_waitFor (c : Cluster) (ready : Cluster → Bool) (timeout : Nat) :
    c.Apart node (c.waitFor ready timeout).1 := by
  unfold waitFor
  split
  · exact .refl node c
  · exact apart_waitThrough ready _ _ c

theorem apart_submit (c : Cluster) (operation nd : Nat) : c.Apart node (c.submit operation nd).1 := by
  have hassign : c.Apart node (c.assign operation nd) := apart_of_nodes rfl
  refine hassign.trans ?_
  unfold submit
  dsimp only
  split
  · exact apart_enqueue _ operation nd
  · have hwait : Apart node _ _ := apart_waitFor (c.assign operation nd) (·.isAuthenticated nd)
      ((((c.assign operation nd).node? nd).map (·.authWait)).getD 0)
    split
    · next c' heq =>
      rw [heq] at hwait
      exact hwait.trans (apart_enqueue c' operation nd)
    · next c' heq =>
      rw [heq] at hwait
      exact hwait.trans (apart_of_nodes rfl)

/-! ## Waiting for operations -/

theorem apart_chargeSuccess (c : Cluster) (operations : List Nat) :
    c.Apart node (c.chargeSuccess operations) := by
  unfold chargeSuccess
  refine apart_foldl (fun c nd => ?_) _ c
  exact apart_modifyNode c nd fun _ => ⟨rfl, rfl⟩

theorem apart_chargeTimeout (c : Cluster) (operations : List Nat) :
    c.Apart node (c.chargeTimeout operations) := by
  unfold chargeTimeout
  refine Apart.trans ?_ (apart_foldl (fun c nd => ?_) _ _)
  · exact apart_of_nodes rfl
  · have hcharged : c.Apart node (c.modifyNode nd fun n => { n with health := n.health.recordTimeout }) :=
      apart_modifyNode c nd fun _ => ⟨rfl, rfl⟩
    exact hcharged.trans (apart_of_nodes rfl)

theorem apart_waitLatch (c : Cluster) (latch timeout : Nat) :
    c.Apart node (c.waitLatch latch timeout).1 := apart_waitFor c _ timeout

theorem apart_await (c : Cluster) (latch : Nat) (operations : List Nat) (timeout : Nat) :
    c.Apart node (c.await latch operations timeout).1 := by
  have hwaited : Apart node _ _ := apart_waitLatch c latch timeout
  unfold await
  split
  · next c' heq =>
    rw [heq] at hwaited
    exact hwaited.trans (apart_chargeSuccess c' operations)
  · next c' heq =>
    rw [heq] at hwaited
    dsimp only
    split
    · have hgrace : Apart node _ _ := apart_waitLatch c' latch completionGrace
      split
      · next c'' heq' =>
        rw [heq'] at hgrace
        exact (hwaited.trans hgrace).trans (apart_chargeSuccess c'' operations)
      · next c'' heq' =>
        rw [heq'] at hgrace
        exact (hwaited.trans hgrace).trans (apart_chargeTimeout c'' operations)
    · exact hwaited.trans (apart_chargeTimeout c' operations)

theorem apart_settleAll (c : Cluster) (latch : Nat) (operations : List Nat) (timeout : Nat) :
    c.Apart node (c.settleAll latch operations timeout).1 := by
  rw [settleAll_fst]
  exact apart_await c latch operations timeout

theorem apart_get {α : Type} (f : OperationFuture α) (c : Cluster) (timeout : Nat) :
    c.Apart node (f.get c timeout).1 := by
  have hsettled : Apart node _ _ := apart_settleAll c (f.latch c) f.operations timeout
  unfold OperationFuture.get
  split <;> rename_i heq <;> rw [heq] at hsettled <;> exact hsettled

/-- To wait for a future is to wait for its operations; what is read afterwards makes no difference. -/
theorem apart_futureGet (f : Future) (c : Cluster) (timeout : Nat) :
    c.Apart node (f.get c timeout).1 := by
  have hsettled : Apart node _ _ := apart_settleAll c (f.latch c) f.operations timeout
  cases f with
  | shared f => exact apart_get f c timeout
  | bulk f =>
    change c.Apart node (c.settleAll f.latch f.operations timeout).1 at hsettled
    change c.Apart node (f.get c timeout).1
    unfold BulkFuture.get
    split
    · next heq => rwa [heq] at hsettled
    · next heq =>
      rw [heq] at hsettled
      split
      · exact hsettled
      · split <;> exact hsettled
  | piped f =>
    change c.Apart node (c.settleAll f.latch f.operations timeout).1 at hsettled
    change c.Apart node (f.get c timeout).1
    unfold PipedFuture.get
    split <;> rename_i heq <;> rw [heq] at hsettled <;> exact hsettled
  | sorted f =>
    change c.Apart node (c.settleAll f.latch f.operations timeout).1 at hsettled
    change c.Apart node (f.get c timeout).1
    unfold SortedGetFuture.get
    split
    · next heq => rwa [heq] at hsettled
    · next c₁ _ heq =>
      rw [heq] at hsettled
      have hconcluded : c.Apart node (f.conclude c₁).1 := hsettled.trans (apart_of_nodes rfl)
      split
      · exact hsettled
      · split
        · next heq' => rwa [heq'] at hconcluded
        · next heq' =>
          rw [heq'] at hconcluded
          split <;> exact hconcluded

theorem apart_getSome {α : Type} (f : BulkFuture α) (c : Cluster) (timeout : Nat) :
    c.Apart node (f.getSome c timeout).1 := by
  have hwaited : Apart node _ _ := apart_waitLatch c f.latch timeout
  unfold BulkFuture.getSome
  split
  · exact .refl node c
  · split
    · next c' heq =>
      rw [heq] at hwaited
      exact hwaited.trans (apart_chargeSuccess c' f.operations)
    · next c' heq =>
      rw [heq] at hwaited
      exact hwaited.trans (apart_chargeTimeout c' f.operations)

theorem apart_verdict {α : Type} (f : SortedGetFuture α) (c : Cluster) :
    c.Apart node (f.verdict c).1 := by
  unfold SortedGetFuture.verdict
  split <;> exact apart_of_nodes rfl

/-! ## Nodes and their connections -/

theorem apart_addNode (c : Cluster) (name : String) (config : Config) :
    c.Apart node (c.addNode name config).1 := by
  intro n hn
  obtain ⟨hlt, -⟩ := List.getElem?_eq_some_iff.1 hn
  exact ⟨n, (List.getElem?_append_left hlt).trans hn, rfl, .inl rfl⟩

theorem apart_destroy (c : Cluster) (nd : Nat) (cause : String) :
    c.Apart node (c.destroy nd cause) := apart_withQueue c nd () fun _ _ _ => .inr rfl

theorem apart_shutDown (client : Client) (c : Cluster) : c.Apart node (client.shutDown c) :=
  apart_foldl (fun c nd => apart_destroy c nd "node shut down") client.nodes c

section Link

open Connection

theorem apart_countRetry (c : Cluster) (nd attempt : Nat) :
    c.Apart node (countRetry c nd attempt) := by
  unfold countRetry
  split <;> exact apart_of_nodes rfl

theorem apart_close (c : Cluster) (nd : Nat) : c.Apart node (close c nd) := by
  have hcounted : c.Apart node (c.mapMetrics (·.recordDisconnected)) := apart_of_nodes rfl
  refine hcounted.trans (apart_modifyNode _ nd fun n => ?_)
  split <;> exact ⟨rfl, rfl⟩

theorem apart_judge {nd : Nat} {auth auth' : Option Nat} (h : judge c nd auth = some (c', auth')) :
    c.Apart node c' := by
  unfold judge at h
  split at h
  · cases h
    exact .refl node c
  · split at h
    · cases h
      exact .refl node c
    · split at h
      · cases h
        exact apart_modifyNode c nd fun _ => ⟨rfl, rfl⟩
      · cases h

variable {other : Nat} (hne : other ≠ node)

include hne

/-- What a connection does to the queues of its node does nothing to those of another. -/
theorem apart_queue {α : Type} (c : Cluster) (default : α) (f : Queue → Engine → Queue × Engine × α) :
    c.Apart node (c.withQueue other default f).1 := apart_withQueue c other default fun h => absurd h hne

theorem apart_refill (c : Cluster) (auth : Option Nat) : c.Apart node (refill c other auth) := by
  unfold refill
  dsimp only
  split
  · exact (apart_queue hne c 0 _).trans (apart_queue hne _ () _)
  · exact apart_queue hne c () _

theorem apart_authenticate (c : Cluster) : c.Apart node (authenticate c other).1 := by
  unfold authenticate
  split
  · exact .refl node c
  · next credentials _ =>
    have hmade : c.Apart node (Cluster.assign { c with engine := (c.engine.create
        (.saslPlain credentials.username credentials.password) .silent).1 } c.engine.size other) :=
      apart_of_nodes rfl
    exact hmade.trans (apart_queue hne _ () _)

theorem apart_drop (c : Cluster) : c.Apart node (drop c other).1 :=
  (apart_close c other).trans (apart_queue hne _ () _)

/-- Whatever happens to the connection of another node. -/
theorem apart_link (c : Cluster) (state : Connection) (event : LinkEvent) :
    c.Apart node (step c other state event).1 := by
  unfold step
  split
  · next attempt =>
    have hreset : c.Apart node ((countRetry c other attempt).modifyNode other
        fun n => { n with health := n.health.reset }) :=
      (apart_countRetry c other attempt).trans (apart_modifyNode _ other fun _ => ⟨rfl, rfl⟩)
    have hcounted : c.Apart node (((countRetry c other attempt).modifyNode other
        fun n => { n with health := n.health.reset }).mapMetrics (·.recordConnected)) :=
      hreset.trans (apart_of_nodes rfl)
    exact (hcounted.trans (apart_authenticate hne _)).trans (apart_refill hne _ _)
  · exact apart_countRetry c other _
  · exact apart_refill hne c _
  · exact (apart_queue hne c [] _).trans (apart_refill hne _ _)
  · next auth bytes =>
    have hread : c.Apart node (c.appendRead other bytes) := apart_queue hne c () _
    have hprocessed : c.Apart node ((c.appendRead other bytes).process other).1 :=
      hread.trans (apart_queue hne _ none _)
    split
    · next c' _ heq =>
      rw [heq] at hprocessed
      exact hprocessed.trans (apart_drop hne c')
    · next c' heq =>
      rw [heq] at hprocessed
      split
      · next c'' _ hjudge =>
        exact (hprocessed.trans (apart_judge hjudge)).trans (apart_refill hne c'' _)
      · exact hprocessed.trans (apart_drop hne c')
  · exact apart_drop hne c
  · exact (apart_close c other).trans (apart_destroy _ other _)
  · exact apart_destroy c other _
  · exact .refl node c

end Link

end Cluster

/-! ## Calls -/

namespace Call

variable {α β : Type} {node : Nat}

/-- The call leaves the write queue of the node alone, whether it goes through or fails. -/
def Apart (node : Nat) (x : Call α) : Prop := ∀ c : Cluster, c.Apart node (x c).1

theorem apart_pure (a : α) : Apart node (pure a : Call α) := fun c => .refl node c

theorem Apart.bind {x : Call α} {f : α → Call β} (hx : Apart node x) (hf : ∀ a, Apart node (f a)) :
    Apart node (x >>= f) := by
  intro c
  rcases bind_fst x f c with ⟨error, -, heq⟩ | ⟨a, -, heq⟩
  · rw [heq]
    exact hx c
  · rw [heq]
    exact (hx c).trans (hf a _)

theorem apart_check (result : Except CacheError Unit) : Apart node (check result) :=
  fun c => .refl node c

theorem apart_change {f : Cluster → Cluster × α} (hf : ∀ c, (f c).1.nodes = c.nodes) :
    Apart node (change f) := fun c => Cluster.apart_of_nodes (hf c)

theorem apart_forM (result : β → Except CacheError Unit) (bs : List β) :
    Apart node (bs.forM fun b => check (result b)) := by
  induction bs with
  | nil => exact apart_pure _
  | cons b bs ih => exact (apart_check (result b)).bind fun _ => ih

theorem apart_submitAfter (queued : List Nat) (operation nd : Nat) :
    Apart node (submitAfter queued operation nd) := by
  intro c
  have hsubmitted : Cluster.Apart node _ _ := c.apart_submit operation nd
  unfold submitAfter
  split
  · next heq => rwa [heq] at hsubmitted
  · next heq =>
    rw [heq] at hsubmitted
    exact hsubmitted.trans (Cluster.apart_of_nodes rfl)

/-- An operation is made and handed to a node. -/
theorem apart_hand (command : Command) (callback : Callback) (queued : List Nat) (nd : Nat)
    {rest : Nat → Call α} (hrest : ∀ op, Apart node (rest op)) :
    Apart node (Call.operation command callback >>= fun op =>
      Call.submitAfter queued op nd >>= fun _ => rest op) :=
  (apart_change fun _ => rfl).bind fun op => (apart_submitAfter queued op nd).bind fun _ => hrest op

/-- The same with a completion of its own. -/
theorem apart_join (latch : Nat) (command : Command) (queued : List Nat) (nd : Nat)
    {rest : Nat → Nat → Call α} (hrest : ∀ completion op, Apart node (rest completion op)) :
    Apart node (Call.completion latch >>= fun completion =>
      Call.operation command (.completion completion) >>= fun op =>
        Call.submitAfter queued op nd >>= fun _ => rest completion op) :=
  (apart_change fun _ => rfl).bind fun completion => apart_hand command _ queued nd (hrest completion)

end Call

namespace Client

open Call (Apart)

variable {α : Type} {node : Nat}

theorem apart_connect (config : Config) : Apart node (connect config) := by
  refine (Call.apart_check _).bind fun _ c => ?_
  have hadded : ∀ (servers : List String) (made : Cluster × List Nat),
      made.1.Apart node (servers.foldl (fun made server =>
        ((made.1.addNode server config).1, made.2 ++ [(made.1.addNode server config).2])) made).1 := by
    intro servers
    induction servers with
    | nil => exact fun made => .refl node made.1
    | cons server servers ih =>
      exact fun made => (Cluster.apart_addNode made.1 server config).trans
        (ih ((made.1.addNode server config).1, made.2 ++ [(made.1.addNode server config).2]))
  exact hadded config.servers (c, [])

theorem apart_single (client : Client) (key : String) (command : Command)
    (decode : Completion → Except CacheError α) : Apart node (client.single key command decode) := by
  unfold single
  simp only [Call.submit_eq_submitAfter]
  refine (Call.apart_check _).bind fun _ => ?_
  refine (Call.apart_change fun _ => rfl).bind fun latch => ?_
  exact Call.apart_join latch command [] _ fun _ _ => Call.apart_pure _

theorem apart_flushEach (delay : UInt32) (callback : Callback) : ∀ (nodes queued : List Nat),
    Apart node (flushEach delay callback queued nodes)
  | [], _ => Call.apart_pure _
  | nd :: nodes, _ => Call.apart_hand _ callback _ nd fun _ => apart_flushEach delay callback nodes _

theorem apart_flush (client : Client) (delay : UInt32) : Apart node (client.flush delay) := by
  unfold flush
  refine (Call.apart_change fun _ => rfl).bind fun latch => ?_
  refine (Call.apart_change fun _ => rfl).bind fun completion => ?_
  refine (Call.apart_change fun _ => rfl).bind fun multiplexer => ?_
  exact (apart_flushEach delay _ client.nodes []).bind fun _ => Call.apart_pure _

theorem apart_askVersions (client : Client) : ∀ (nodes : List Nat) (asked : List VersionQuery),
    Apart node (client.askVersions asked nodes)
  | [], _ => Call.apart_pure _
  | nd :: nodes, _ => (Call.apart_change fun _ => rfl).bind fun latch =>
    Call.apart_join latch .version _ nd fun _ _ => apart_askVersions client nodes _

theorem apart_awaitVersions (asked : Nat) : ∀ (queries : List VersionQuery) (found : KeyMap String),
    Apart node (awaitVersions asked queries found)
  | [], _ => Call.apart_pure _
  | query :: queries, found => by
    intro c
    have hgot : Cluster.Apart node _ _ :=
      Cluster.apart_get query.future c (query.future.timeout - (c.now - asked))
    unfold awaitVersions
    dsimp only
    split
    · next heq => rwa [heq] at hgot
    · next c' _ version heq =>
      rw [heq] at hgot
      exact hgot.trans (apart_awaitVersions c'.now queries _ c')

theorem apart_versions (client : Client) : Apart node client.versions :=
  (apart_askVersions client client.nodes []).bind fun queries c =>
    apart_awaitVersions c.now queries [] c

theorem apart_getEach (client : Client) (latch : Nat) : ∀ (keys : List String)
    (entries : List BulkEntry), Apart node (client.getEach latch entries keys)
  | [], _ => Call.apart_pure _
  | _ :: keys, _ => Call.apart_join latch _ _ _ fun _ _ => apart_getEach client latch keys _

theorem apart_getBulk (client : Client) (keys : List String) (t : Transcoder α) :
    Apart node (client.getBulk keys t) := by
  unfold getBulk
  refine (Call.apart_forM _ _).bind fun _ => ?_
  refine (Call.apart_change fun _ => rfl).bind fun latch => ?_
  exact (apart_getEach client latch _ []).bind fun _ => Call.apart_pure _

theorem apart_setEach (client : Client) (exptime : UInt32) (latch : Nat) :
    ∀ (items : List (String × StoredValue)) (piped : List (Nat × Nat)),
      Apart node (client.setEach exptime latch piped items)
  | [], _ => Call.apart_pure _
  | _ :: items, _ =>
    Call.apart_join latch _ _ _ fun _ _ => apart_setEach client exptime latch items _

theorem apart_setBulk (client : Client) (items : List (String × StoredValue)) (exptime : UInt32) :
    Apart node (client.setBulk items exptime) := by
  unfold setBulk
  refine (Call.apart_forM _ _).bind fun _ => ?_
  refine (Call.apart_change fun _ => rfl).bind fun latch => ?_
  exact (apart_setEach client exptime latch items []).bind fun _ => Call.apart_pure _

theorem apart_askShards (query : List String → RangeQuery) (answer latch : Nat) :
    ∀ (shards : List ShardKeys) (queued : List Nat),
      Apart node (askShards query answer latch queued shards)
  | [], _ => Call.apart_pure _
  | shard :: shards, _ => Call.apart_hand _ _ _ shard.node fun _ =>
    apart_askShards query answer latch shards _

theorem apart_fanOut (client : Client) (keys : List String) (query : List String → RangeQuery)
    (answer : Answer StoredValue) (policy : String) (t : Transcoder α) :
    Apart node (client.fanOut keys query answer policy t) := by
  intro c
  have hobserved : c.Apart node
      (c.mapMetrics (·.observeShards policy (client.groupByNode c keys).length)) :=
    Cluster.apart_of_nodes rfl
  refine hobserved.trans ?_
  refine ((Call.apart_change fun _ => rfl).bind fun latch => ?_ : Apart node _) _
  refine (Call.apart_change fun _ => rfl).bind fun id => ?_
  exact (apart_askShards query id latch _ []).bind fun _ => Call.apart_pure _

theorem apart_sortedGet (client : Client) (keys : List String) (range : KeyRange) (count : UInt64)
    (unique : Bool) (t : Transcoder α) :
    Apart node (client.sortedGet keys range count unique t) := by
  unfold sortedGet
  split
  · exact fun c => .refl node c
  · exact apart_fanOut client keys _ _ _ t

theorem apart_sortedGetPage (client : Client) (keys : List String) (range : KeyRange)
    (offset count : UInt64) (unique : Bool) (t : Transcoder α) :
    Apart node (client.sortedGetPage keys range offset count unique t) := by
  unfold sortedGetPage
  split
  · exact fun c => .refl node c
  · split
    · exact fun c => .refl node c
    · exact apart_fanOut client keys _ _ _ t

theorem apart_serve (client : Client) (demand : Demand) (c : Cluster) :
    c.Apart node (client.serve demand c).1 := by
  cases demand with
  | get key t => exact apart_single client key _ _ c
  | gets key t => exact apart_single client key _ _ c
  | store kind key exptime value => exact apart_single client key _ _ c
  | compareAndSwap key cas exptime value => exact apart_single client key _ _ c
  | delete key => exact apart_single client key _ _ c
  | count direction key amount initial => exact apart_single client key _ _ c
  | flush delay => exact apart_flush client delay c
  | getBulk keys t => exact apart_getBulk client keys t c
  | setBulk items exptime => exact apart_setBulk client items exptime c
  | sortedGet keys range count unique t =>
    exact apart_sortedGet client keys range count unique t c
  | sortedGetPage keys range offset count unique t =>
    exact apart_sortedGetPage client keys range offset count unique t c

end Client

/-! ## Steps -/

namespace Cluster

/-- What may happen to a cluster besides the events of the connection of a node. -/
inductive Aside (node : Nat) (c : Cluster) : Cluster → Prop where
  | connect (config : Config) : Aside node c (Client.connect config c).1
  | call {client : Client} (hplaced : client.Placed c) (demand : Client.Demand) :
    Aside node c (client.serve demand c).1
  | versions {client : Client} (hplaced : client.Placed c) : Aside node c (client.versions c).1
  | link {other : Nat} (hne : other ≠ node) (state : Connection) (event : LinkEvent) :
    Aside node c (Connection.step c other state event).1
  | cancel (operation : Nat) (cause : String) : Aside node c (c.cancel operation cause)
  | cancelFuture (operations : List Nat) : Aside node c (c.cancelFuture operations).1
  | get (f : Future) (timeout : Nat) : Aside node c (f.get c timeout).1
  | getSome {α : Type} (f : BulkFuture α) (timeout : Nat) : Aside node c (f.getSome c timeout).1
  | verdict {α : Type} (f : SortedGetFuture α) : Aside node c (f.verdict c).1
  | shutDown (client : Client) : Aside node c (client.shutDown c)
  | pass (moment : Nat) : Aside node c (c.passTo moment)

variable {node : Nat} {c c' : Cluster}

/-- There is nothing else that may happen. -/
theorem step_iff (node : Nat) :
    c.Step c' ↔ c.Aside node c' ∨ ∃ state event, c' = (Connection.step c node state event).1 := by
  constructor
  · intro hstep
    cases hstep with
    | connect config => exact .inl (.connect config)
    | call hplaced demand => exact .inl (.call hplaced demand)
    | versions hplaced => exact .inl (.versions hplaced)
    | link other state event =>
      by_cases hother : other = node
      · subst hother
        exact .inr ⟨state, event, rfl⟩
      · exact .inl (.link hother state event)
    | cancel operation cause => exact .inl (.cancel operation cause)
    | cancelFuture operations => exact .inl (.cancelFuture operations)
    | get f timeout => exact .inl (.get f timeout)
    | getSome f timeout => exact .inl (.getSome f timeout)
    | verdict f => exact .inl (.verdict f)
    | shutDown client => exact .inl (.shutDown client)
    | pass moment => exact .inl (.pass moment)
  · rintro (haside | ⟨state, event, rfl⟩)
    · cases haside with
      | connect config => exact .connect config
      | call hplaced demand => exact .call hplaced demand
      | versions hplaced => exact .versions hplaced
      | link hne state event => exact .link _ state event
      | cancel operation cause => exact .cancel operation cause
      | cancelFuture operations => exact .cancelFuture operations
      | get f timeout => exact .get f timeout
      | getSome f timeout => exact .getSome f timeout
      | verdict f => exact .verdict f
      | shutDown client => exact .shutDown client
      | pass moment => exact .pass moment
    · exact .link node state event

/-- **Whatever happens elsewhere adds nothing to what a node is to write.** -/
theorem Aside.apart (h : c.Aside node c') : c.Apart node c' := by
  cases h with
  | connect config => exact Client.apart_connect config c
  | call hplaced demand => exact Client.apart_serve _ demand c
  | versions hplaced => exact Client.apart_versions _ c
  | link hne state event => exact apart_link hne c state event
  | cancel operation cause => exact apart_of_nodes rfl
  | cancelFuture operations => exact apart_of_nodes rfl
  | get f timeout => exact apart_futureGet f c timeout
  | getSome f timeout => exact apart_getSome f c timeout
  | verdict f => exact apart_verdict f c
  | shutDown client => exact apart_shutDown client c
  | pass moment => exact apart_passTo c moment

end Cluster

end ShardedCache

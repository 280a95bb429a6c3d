import ShardedCache.Client.SortedGet
import ShardedCache.Proofs.Engine.Evolving
import ShardedCache.Proofs.Engine.Making
import ShardedCache.Proofs.SortedGet.QueryCodec

/-!
# What a sorted multi-get asks of the shards

Handing an operation to a node, however long that takes and whatever comes of it, makes no operations
and leaves the commands of those there are (`Cluster.Keeps`). So the operations that a sorted
multi-get makes are range queries, one for each group of keys (`Client.made_fanOut`). What has been
validated by then bounds the count and the lengths of the keys, but neither the order keys nor the
number of keys: a shard reads what it is asked just under the conditions on those
(`Client.shards_read_queries`).
-/

namespace ShardedCache

open SortedGet (Answer RangeQuery)

/-! ## Handing operations to nodes -/

namespace Engine

variable {e e' : Engine}

theorem Evolves.nature?_eq {blame : Nat → Option ProtocolError} (h : e.Evolves blame e') (id : Nat) :
    e'.nature? id = e.nature? id := by
  cases hop : e.get? id with
  | none =>
    rw [nature?, nature?, hop, h.none hop]
  | some op =>
    obtain ⟨l', hl', hlife⟩ := h.lives (life?_of_get? hop)
    rw [nature?_of_get? hop, nature?_of_get? (get?_of_life? hl'), hlife.nature]

theorem nature?_cancel (e : Engine) (id : Nat) (cause : String) (j : Nat) :
    (e.cancel id cause).1.nature? j = e.nature? j :=
  (evolves_cancelTo (id + 1) e id cause).nature?_eq j

theorem cancelAll_fst (e : Engine) (ids : List Nat) (cause : String) :
    (e.cancelAll ids cause).1 = e.each ids fun e id => (e.cancel id cause).1 := by
  have hfold : ∀ (ids : List Nat) (e : Engine) (unsent : Bool),
      (ids.foldl (fun (x : Engine × Bool) id =>
        ((x.1.cancel id cause).1, x.2 || (x.1.cancel id cause).2)) (e, unsent)).1 =
        e.each ids fun e id => (e.cancel id cause).1 := by
    intro ids
    induction ids with
    | nil =>
      intro e unsent
      rfl
    | cons id ids ih =>
      intro e unsent
      exact ih _ _
  exact hfold ids e false

theorem nature?_cancelAll (e : Engine) (ids : List Nat) (cause : String) (j : Nat) :
    (e.cancelAll ids cause).1.nature? j = e.nature? j := by
  rw [cancelAll_fst]
  exact (evolves_each (fun e m => evolves_cancelTo (m + 1) e m cause) ids e).nature?_eq j

end Engine

namespace Cluster

/-- There are the same operations as before, for the same commands. -/
def Keeps (c c' : Cluster) : Prop := ∀ id, c'.engine.nature? id = c.engine.nature? id

variable {c c' c'' : Cluster}

theorem Keeps.refl (c : Cluster) : c.Keeps c := fun _ => rfl

theorem Keeps.trans (h : c.Keeps c') (h' : c'.Keeps c'') : c.Keeps c'' := fun id =>
  (h' id).trans (h id)

theorem keeps_assign (c : Cluster) (operation node : Nat) : c.Keeps (c.assign operation node) :=
  (Engine.becomes_modify c.engine operation _).nature?_eq
    (Engine.keepsNature_among (by intro l; rfl) _)

theorem keeps_cancel (c : Cluster) (operation : Nat) (cause : String) :
    c.Keeps (c.cancel operation cause) := Engine.nature?_cancel c.engine operation cause

theorem keeps_enqueue (c : Cluster) (operation node : Nat) : c.Keeps (c.enqueue operation node).1 := by
  unfold enqueue
  split
  · exact Keeps.refl c
  · split
    · exact keeps_cancel c operation _
    · exact Keeps.refl c

theorem keeps_settleDeferred (c : Cluster) (d : Deferred) : c.Keeps (c.settleDeferred d) := by
  unfold settleDeferred
  dsimp only
  split
  · exact keeps_enqueue c d.operation d.node
  · split
    · exact keeps_cancel c d.operation _
    · exact Keeps.refl c

theorem keeps_foldl {α : Type} {f : Cluster → α → Cluster} (hf : ∀ c a, Keeps c (f c a)) :
    ∀ (as : List α) (c : Cluster), c.Keeps (as.foldl f c)
  | [], c => Keeps.refl c
  | a :: as, c => (hf c a).trans (keeps_foldl hf as (f c a))

theorem keeps_settle (c : Cluster) : c.Keeps c.settle := by
  unfold settle
  refine Keeps.trans ?_ (keeps_foldl keeps_settleDeferred _ _)
  exact keeps_foldl (f := fun c (a : Alarm) => c.mapReports (·.countDown a.latch))
    (fun _ _ _ => rfl) _ { c with alarms := c.alarms.filter (c.now < ·.due) }

theorem keeps_waitThrough (ready : Cluster → Bool) (deadline : Nat) :
    ∀ (moments : List Nat) (c : Cluster), c.Keeps (waitThrough ready deadline moments c).1
  | [], c => Keeps.refl c
  | moment :: later, c => by
    have hpass : c.Keeps (c.passTo moment) := keeps_settle { c with now := max c.now moment }
    unfold waitThrough
    dsimp only
    split
    · exact hpass
    · exact hpass.trans (keeps_waitThrough ready deadline later _)

theorem keeps_waitFor (c : Cluster) (ready : Cluster → Bool) (timeout : Nat) :
    c.Keeps (c.waitFor ready timeout).1 := by
  unfold waitFor
  split
  · exact Keeps.refl c
  · exact keeps_waitThrough ready _ _ c

theorem keeps_submit (c : Cluster) (operation node : Nat) : c.Keeps (c.submit operation node).1 := by
  refine (keeps_assign c operation node).trans ?_
  unfold submit
  dsimp only
  split
  · exact keeps_enqueue _ operation node
  · have hwait := keeps_waitFor (c.assign operation node) (·.isAuthenticated node)
      ((((c.assign operation node).node? node).map (·.authWait)).getD 0)
    split
    · next c' heq =>
      rw [heq] at hwait
      exact hwait.trans (keeps_enqueue c' operation node)
    · next c' heq =>
      rw [heq] at hwait
      exact hwait.trans (keeps_cancel c' operation _)

end Cluster

namespace Call

variable {α β : Type}

theorem keeps_submitAfter (queued : List Nat) (operation node : Nat) (c : Cluster) :
    c.Keeps (submitAfter queued operation node c).1 := by
  have hsubmit := c.keeps_submit operation node
  unfold submitAfter
  split
  · next c' _ heq =>
    rw [heq] at hsubmit
    exact hsubmit
  · next c' _ heq =>
    rw [heq] at hsubmit
    exact hsubmit.trans (Engine.nature?_cancelAll c'.engine queued "fan-out aborted")

/-- A step of a call whose first part has failed or has succeeded. -/
theorem bind_fst (x : Call α) (f : α → Call β) (c : Cluster) :
    (∃ error, x c = ((x c).1, .error error) ∧ (x >>= f) c = ((x c).1, .error error)) ∨
    ∃ a, x c = ((x c).1, .ok a) ∧ (x >>= f) c = f a (x c).1 := by
  change (∃ error, _ ∧ Call.bind x f c = _) ∨ ∃ a, _ ∧ Call.bind x f c = _
  unfold Call.bind
  rcases h : x c with ⟨c', error | a⟩
  · exact .inl ⟨error, rfl, rfl⟩
  · exact .inr ⟨a, rfl, rfl⟩

theorem map_fst (x : Call α) (f : α → β) (c : Cluster) : ((x >>= fun a => pure (f a)) c).1 = (x c).1 := by
  rcases bind_fst x (fun a => pure (f a)) c with ⟨error, -, heq⟩ | ⟨a, -, heq⟩
  · rw [heq]
  · rw [heq]
    rfl

end Call

/-! ## Validation -/

theorem keyFlaw?_eq_none {key : String} :
    keyFlaw? key = none ↔ key ≠ "" ∧ key.utf8ByteSize ≤ maxKeyLength := by
  unfold keyFlaw?
  split
  · next hempty => simp [String.isEmpty_iff.1 hempty]
  · next hsome =>
    have hne : key ≠ "" := fun heq => hsome (String.isEmpty_iff.2 heq)
    split
    · next hlong => simp [hlong]
    · next hshort => simp [hne, Nat.le_of_not_lt hshort]

/-- The keys can be used, and none of them occurs twice or among those seen before. -/
theorem keysFlaw?_eq_none {seen keys : List String} :
    keysFlaw? seen keys = none ↔
      (∀ key ∈ keys, keyFlaw? key = none) ∧ keys.Nodup ∧ ∀ key ∈ keys, key ∉ seen := by
  induction keys generalizing seen with
  | nil => simp [keysFlaw?]
  | cons first keys ih =>
    rw [keysFlaw?, List.forall_mem_cons, List.nodup_cons, List.forall_mem_cons]
    cases hfirst : keyFlaw? first with
    | some flaw => simp
    | none =>
      by_cases hseen : first ∈ seen
      · simp [hseen]
      · have hbehind : (∀ key ∈ keys, key ∉ first :: seen) ↔
            first ∉ keys ∧ ∀ key ∈ keys, key ∉ seen := by
          simp only [List.mem_cons, not_or, forall_and]
          exact and_congr_left' ⟨fun h hmem => h first hmem rfl, fun h key hkey heq => h (heq ▸ hkey)⟩
        simp only [List.contains_eq_mem, hseen, decide_false, Bool.false_eq_true, if_false, ih, hbehind,
          not_false_eq_true, true_and]
        exact and_congr_right fun _ => and_left_comm.trans and_assoc.symm

/-- A key that can be used is short. -/
theorem isShort_of_keyFlaw? {key : String} (h : keyFlaw? key = none) : SortedGet.IsShort key := by
  have hsize : (Text.Utf8.encode key).length = key.utf8ByteSize := rfl
  have hlimit : key.utf8ByteSize ≤ 250 := (keyFlaw?_eq_none.1 h).2
  rw [SortedGet.IsShort, hsize]
  omega

/-- What has been validated bounds the count and the lengths of the keys. -/
theorem of_sortedGetFlaw? {keys : List String} {offset count : UInt64}
    (h : sortedGetFlaw? keys offset count = none) :
    (offset + count).toUInt32.toNat = (offset + count).toNat ∧
      ∀ key ∈ keys, SortedGet.IsShort key := by
  have hreach := SortedGet.reach?_eq_some_iff.1 (reach?_of_valid h)
  obtain ⟨-, -, hwithin, hkeys⟩ := sortedGetFlaw?_eq_none.1 h
  have hlimit : maxSortedGetCount.toNat = 1000 := rfl
  refine ⟨?_, fun key hkey => isShort_of_keyFlaw? ((keysFlaw?_eq_none.1 hkeys).1 key hkey)⟩
  rw [UInt64.toNat_toUInt32]
  omega

/-! ## Sharing keys out -/

theorem ShardKeys.mem_add {name : String} {node : Nat} {key : String} :
    ∀ {groups : List ShardKeys} {group : ShardKeys}, group ∈ ShardKeys.add name node key groups →
      ∀ k ∈ group.keys, k = key ∨ ∃ g ∈ groups, k ∈ g.keys
  | [], group, hgroup, k, hk => by
    rw [ShardKeys.add, List.mem_singleton] at hgroup
    rw [hgroup] at hk
    exact .inl (List.mem_singleton.1 hk)
  | g :: groups, group, hgroup, k, hk => by
    unfold ShardKeys.add at hgroup
    split at hgroup
    · rcases List.mem_cons.1 hgroup with rfl | hgroup
      · rcases List.mem_append.1 hk with hk | hk
        · exact .inr ⟨g, List.mem_cons_self, hk⟩
        · exact .inl (List.mem_singleton.1 hk)
      · exact .inr ⟨group, List.mem_cons_of_mem g hgroup, hk⟩
    · rcases List.mem_cons.1 hgroup with rfl | hgroup
      · exact .inr ⟨group, List.mem_cons_self, hk⟩
      · rcases mem_add hgroup k hk with heq | ⟨g', hg', hk'⟩
        · exact .inl heq
        · exact .inr ⟨g', List.mem_cons_of_mem g hg', hk'⟩

namespace Client

variable {α : Type}

/-- Whatever is asked of a shard has been asked for. -/
theorem mem_of_mem_groupByNode (client : Client) (c : Cluster) (keys : List String) :
    ∀ shard ∈ client.groupByNode c keys, ∀ key ∈ shard.keys, key ∈ keys := by
  have hfold : ∀ (more : List String) (groups : List ShardKeys),
      (∀ group ∈ groups, ∀ key ∈ group.keys, key ∈ keys) → (∀ key ∈ more, key ∈ keys) →
      ∀ shard ∈ more.foldl (fun groups key => ShardKeys.add
        (((c.node? (client.nodeOf key)).map (·.name)).getD "") (client.nodeOf key) key groups) groups,
        ∀ key ∈ shard.keys, key ∈ keys := by
    intro more
    induction more with
    | nil =>
      intro groups hgroups _
      exact hgroups
    | cons first more ih =>
      intro groups hgroups hmore
      refine ih _ (fun group hgroup key hkey => ?_) fun key hkey => hmore key (List.mem_cons_of_mem _ hkey)
      rcases ShardKeys.mem_add hgroup key hkey with rfl | ⟨g, hg, hkey⟩
      · exact hmore key List.mem_cons_self
      · exact hgroups g hg key hkey
  exact hfold keys [] (List.forall_mem_nil _) fun _ h => h

/-- The operations that are new are range queries for the shards. -/
theorem made_askShards (query : List String → RangeQuery) (answer latch : Nat) :
    ∀ (shards : List ShardKeys) (queued : List Nat) (c : Cluster) {id : Nat} {n : Nature},
      (askShards query answer latch queued shards c).1.engine.nature? id = some n →
      c.engine.nature? id = some n ∨
        ∃ shard ∈ shards, n.work = .single (.sortRange (query shard.keys))
  | [], _, _, _, _, hn => .inl hn
  | shard :: shards, queued, c, id, n, hn => by
    let command := Command.sortRange (query shard.keys)
    let callback := Callback.shard shard.keys answer latch
    let made : Cluster := { c with engine := (c.engine.create command callback).1 }
    have hsubmit := Call.keeps_submitAfter queued c.engine.size shard.node made
    have hmade : made.engine.nature? id = some n →
        c.engine.nature? id = some n ∨
          ∃ shard' ∈ shard :: shards, n.work = .single (.sortRange (query shard'.keys)) := by
      intro hn
      change (c.engine.create command callback).1.nature? id = some n at hn
      rw [Engine.nature?, Engine.create, Engine.get?_add] at hn
      split at hn
      · cases hn
        exact .inr ⟨shard, List.mem_cons_self, rfl⟩
      · exact .inl hn
    change ((Call.submitAfter queued c.engine.size shard.node >>= fun _ =>
      askShards query answer latch (queued ++ [c.engine.size]) shards) made).1.engine.nature? id =
        some n at hn
    rcases Call.bind_fst (Call.submitAfter queued c.engine.size shard.node)
      (fun _ => askShards query answer latch (queued ++ [c.engine.size]) shards) made with
      ⟨error, -, heq⟩ | ⟨_, -, heq⟩
    · rw [heq, hsubmit id] at hn
      exact hmade hn
    · rw [heq] at hn
      rcases made_askShards query answer latch shards _ _ hn with hold | ⟨shard', hmem, hwork⟩
      · exact hmade ((hsubmit id).symm.trans hold)
      · exact .inr ⟨shard', List.mem_cons_of_mem shard hmem, hwork⟩

theorem made_fanOut (client : Client) (keys : List String) (query : List String → RangeQuery)
    (answer : Answer StoredValue) (policy : String) (t : Transcoder α) (c : Cluster) {id : Nat}
    {op : Operation} (hnew : c.engine.get? id = none)
    (hop : (client.fanOut keys query answer policy t c).1.engine.get? id = some op) :
    ∃ shard ∈ client.groupByNode c keys, op.work = .single (.sortRange (query shard.keys)) := by
  let shards := client.groupByNode c keys
  let latched := (c.mapMetrics (·.observeShards policy shards.length)).mapReports
    fun r => (r.addLatch shards.length).1
  let before := latched.mapReports fun r => (r.addAnswer answer).1
  have hmade : (client.fanOut keys query answer policy t c).1 =
      (askShards query latched.engine.reports.answers.length c.engine.reports.latches.length [] shards
        before).1 := Call.map_fst _ _ before
  rw [hmade] at hop
  have hnone : c.engine.nature? id ≠ some op.nature := by
    rw [Engine.nature?, hnew]
    exact fun h => by cases h
  rcases made_askShards query _ _ shards [] before (Engine.nature?_of_get? hop) with hold | hquery
  · exact absurd hold hnone
  · exact hquery

/-! ## What shards read -/

/-- What is asked by a call that turns the cluster `c` into `c'`: all operations that it makes are range
queries for groups of the keys, with the range, the reach and the mode of the call, and a shard reads
the request of each as it is meant just if the two order keys are of one kind and all lengths can be
said. -/
def Asks (client : Client) (c c' : Cluster) (keys : List String) (range : KeyRange) (reach : UInt64)
    (unique : Bool) : Prop :=
  ∀ id op, c.engine.get? id = none → c'.engine.get? id = some op →
    ∃ shard ∈ client.groupByNode c keys, ∃ q : RangeQuery, op.work = .single (.sortRange q) ∧
      q.keys = shard.keys ∧ q.range = range ∧ q.count.toNat = reach.toNat ∧ q.unique = unique ∧
      let request := (Command.sortRange q).request op.tag
      (RangeQuery.ofRequest request.extras request.value = .ok q ↔
        range.stop.kind = range.start.kind ∧ range.start.IsShort ∧ range.stop.IsShort ∧
          shard.keys.length < 2 ^ 32)

theorem asks_of_made {client : Client} {c c' : Cluster} {keys : List String} {range : KeyRange}
    {reach : UInt64} {unique : Bool} (hreach : reach.toUInt32.toNat = reach.toNat)
    (hkeys : ∀ key ∈ keys, SortedGet.IsShort key)
    (hmade : ∀ {id op}, c.engine.get? id = none → c'.engine.get? id = some op →
      ∃ shard ∈ client.groupByNode c keys, op.work = .single (.sortRange
        { keys := shard.keys, range, count := reach.toUInt32, unique })) :
    client.Asks c c' keys range reach unique := by
  intro id op hnew hop
  obtain ⟨shard, hshard, hwork⟩ := hmade hnew hop
  refine ⟨shard, hshard, _, hwork, rfl, rfl, hreach, rfl, RangeQuery.ofRequest_self.trans ?_⟩
  constructor
  · intro h
    exact ⟨h.kind, h.start, h.stop, h.count⟩
  · rintro ⟨hkind, hstart, hstop, hcount⟩
    exact ⟨hkind, hstart, hstop, hcount, fun key hkey =>
      hkeys key (client.mem_of_mem_groupByNode c keys shard hshard key hkey)⟩

/-- **A shard reads the query that was meant, if the two order keys are of one kind and short.** What a
sorted multi-get validates is not enough for that: of the conditions under which a shard reads what it
is asked, it leaves those on the order keys and on the number of keys to the caller. -/
theorem shards_read_queries (client : Client) (c : Cluster) (keys : List String) (range : KeyRange)
    (offset count : UInt64) (unique : Bool) (t : Transcoder α) :
    client.Asks c (client.sortedGet keys range count unique t c).1 keys range count unique ∧
    client.Asks c (client.sortedGetPage keys range offset count unique t c).1 keys range
      (offset + count) unique := by
  have hrefused : ∀ (reach : UInt64) (c' : Cluster), c'.engine = c.engine →
      client.Asks c c' keys range reach unique := by
    intro reach c' heq id op hnew hop
    rw [heq, hnew] at hop
    cases hop
  constructor
  · rw [sortedGet]
    cases hvalid : sortedGetFlaw? keys 0 count with
    | some flaw => exact hrefused count c rfl
    | none =>
      obtain ⟨hreach, hkeys⟩ := of_sortedGetFlaw? hvalid
      rw [UInt64.zero_add] at hreach
      exact asks_of_made hreach hkeys fun hnew hop => made_fanOut client keys _ _ _ t c hnew hop
  · cases hvalid : sortedGetFlaw? keys offset count with
    | some flaw =>
      rw [sortedGetPage, hvalid]
      exact hrefused (offset + count) c rfl
    | none =>
      obtain ⟨hreach, hkeys⟩ := of_sortedGetFlaw? hvalid
      rw [client.sortedGetPage_of_valid hvalid]
      exact asks_of_made hreach hkeys fun hnew hop => made_fanOut client keys _ _ _ t c hnew hop

/-- A client of one node, and its cluster. -/
def oneNode : Cluster × Client := ofConfig {} {}

/-- From the empty byte string upwards, to five. -/
def mixedRange : KeyRange := ⟨.bytes [], .number 5⟩

theorem shards_read_queries_of_numbers :
    ∃ op, (oneNode.2.sortedGet ["a"] ⟨.number 9, .number 5⟩ 10 false .bytes oneNode.1).1.engine.get? 0 =
        some op ∧
      ∃ q : RangeQuery, op.work = .single (.sortRange q) ∧ q.range = ⟨.number 9, .number 5⟩ ∧
        RangeQuery.ofRequest ((Command.sortRange q).request op.tag).extras
          ((Command.sortRange q).request op.tag).value = .ok q := by
  have hasks := (shards_read_queries oneNode.2 oneNode.1 ["a"] ⟨.number 9, .number 5⟩ 0 10 false
    Transcoder.bytes).1
  have hmade : ((oneNode.2.sortedGet ["a"] ⟨.number 9, .number 5⟩ 10 false .bytes
      oneNode.1).1.engine.get? 0).isSome := by decide +kernel
  obtain ⟨op, hop⟩ := Option.isSome_iff_exists.1 hmade
  obtain ⟨shard, hshard, q, hwork, -, hrange, -, -, hread⟩ := hasks 0 op (by decide) hop
  refine ⟨op, hop, q, hwork, hrange, hread.2 ⟨rfl, trivial, trivial, ?_⟩⟩
  have hgroups : oneNode.2.groupByNode oneNode.1 ["a"] = [⟨"127.0.0.1:11211", 0, ["a"]⟩] := by
    decide +kernel
  rw [hgroups, List.mem_singleton] at hshard
  rw [hshard]
  decide

/-- The client scans downwards and the shard upwards: it takes the number for the bytes that spell
it. -/
theorem misread_of_mixed_range :
    ∃ op q q', (oneNode.2.sortedGet ["a"] mixedRange 10 false .bytes oneNode.1).1.engine.get? 0 = some op ∧
      op.work = .single (.sortRange q) ∧ q.range = mixedRange ∧ mixedRange.isReverse = true ∧
      RangeQuery.ofRequest ((Command.sortRange q).request op.tag).extras
        ((Command.sortRange q).request op.tag).value = .ok q' ∧
      q'.range = ⟨.bytes [], .bytes [0, 0, 0, 0, 0, 0, 0, 5]⟩ ∧ q'.range.isReverse = false := by
  let q : RangeQuery := { keys := ["a"], range := mixedRange, count := 10, unique := false }
  have hwork : ((oneNode.2.sortedGet ["a"] mixedRange 10 false .bytes oneNode.1).1.engine.get? 0).map
      (·.work) = some (.single (.sortRange q)) := by decide +kernel
  obtain ⟨op, hop, hwork⟩ := Option.map_eq_some_iff.1 hwork
  have hread := RangeQuery.ofRequest_of_mixed (q := q) rfl (by decide) (by decide) (by decide)
  exact ⟨op, q, _, hop, hwork, rfl, by decide, hread, by decide, by decide⟩

end Client

end ShardedCache

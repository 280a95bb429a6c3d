import Mathlib.Data.List.Nodup
import ShardedCache.Proofs.Client.Asking
import ShardedCache.Proofs.SortedGet.Arrival

/-!
# Every key is asked of one shard

A sorted multi-get goes through its keys and adds each to the group of its node, or starts one
(`ShardKeys.add`). What has come of that after any number of keys can be said at once: there is a group
for each node that some key belongs to, in the order in which the nodes first occur, and it has just the
keys of that node, in their order (`Client.groupByNode_eq`). So the groups make up the keys, each shard
is asked for the keys of its group, and if none of them finds anything, what is missed is what was asked
for (`Client.groupByNode_asks_once`).
-/

namespace ShardedCache

open Wire (Status)
open SortedGet (Answer RangeQuery ShardEvent ShardReport)

/-! ## One more key -/

namespace ShardKeys

/-- Whatever the groups are, they have one key more. -/
theorem perm_add (name : String) (node : Nat) (key : String) : ∀ groups : List ShardKeys,
    ((add name node key groups).flatMap (·.keys)).Perm (key :: groups.flatMap (·.keys))
  | [] => List.Perm.refl _
  | group :: groups => by
    unfold add
    split
    · rw [List.flatMap_cons, List.flatMap_cons, List.append_assoc]
      exact List.perm_middle
    · rw [List.flatMap_cons, List.flatMap_cons]
      exact ((perm_add name node key groups).append_left _).trans List.perm_middle

/-- The group of a node, with what it has by now. -/
def ofNode (name : Nat → String) (keysOf : Nat → List String) (node : Nat) : ShardKeys :=
  { name := name node, node, keys := keysOf node }

variable {name : Nat → String} {keysOf : Nat → List String} {node : Nat}

/-- A key of a node that has a group goes to the end of that, and to no other. -/
theorem add_of_mem (key : String) : ∀ {nodes : List Nat}, nodes.Nodup → node ∈ nodes →
    (∀ n ∈ nodes, name n = name node → n = node) →
    add (name node) node key (nodes.map (ofNode name keysOf)) =
      nodes.map (ofNode name fun n => keysOf n ++ if n = node then [key] else [])
  | first :: nodes, hnodup, hmem, hname => by
    obtain ⟨hnot, hnodup'⟩ := List.nodup_cons.1 hnodup
    rw [List.map_cons, List.map_cons, add]
    by_cases hfirst : first = node
    · subst hfirst
      have hsame : (ofNode name keysOf first).name = name first := rfl
      rw [if_pos hsame]
      congr 1
      · simp [ofNode]
      · refine List.map_congr_left fun n hn => ?_
        have hne : n ≠ first := fun heq => hnot (heq ▸ hn)
        simp [ofNode, hne]
    · have hmem' : node ∈ nodes := (List.mem_cons.1 hmem).resolve_left (Ne.symm hfirst)
      have hother : (ofNode name keysOf first).name ≠ name node := fun heq =>
        hfirst (hname first List.mem_cons_self heq)
      rw [if_neg hother, add_of_mem key hnodup' hmem' fun n hn => hname n (List.mem_cons_of_mem first hn)]
      simp [ofNode, hfirst]

/-- A key of a node that has no group starts one. -/
theorem add_of_not_mem (key : String) : ∀ {nodes : List Nat}, (∀ n ∈ nodes, name n ≠ name node) →
    add (name node) node key (nodes.map (ofNode name keysOf)) =
      nodes.map (ofNode name keysOf) ++ [{ name := name node, node, keys := [key] }]
  | [], _ => rfl
  | first :: nodes, hname => by
    have hother : (ofNode name keysOf first).name ≠ name node := hname first List.mem_cons_self
    rw [List.map_cons, add, if_neg hother,
      add_of_not_mem key fun n hn => hname n (List.mem_cons_of_mem first hn)]
    rfl

end ShardKeys

/-! ## All keys -/

/-- The name under which the keys of a node are grouped. -/
def Cluster.nameOf (c : Cluster) (node : Nat) : String := ((c.node? node).map (·.name)).getD ""

/-- What comes first is there first. -/
theorem ShardKeys.pairwise_eraseDups (nodes : List Nat) :
    nodes.eraseDups.Pairwise fun a b => nodes.idxOf a < nodes.idxOf b := by
  induction nodes using List.reverseRecOn with
  | nil => exact List.Pairwise.nil
  | append_singleton nodes x ih =>
    have hold : ∀ {a}, a ∈ nodes.eraseDups → (nodes ++ [x]).idxOf a = nodes.idxOf a := fun ha => by
      rw [List.idxOf_append, if_pos (List.mem_eraseDups.1 ha)]
    have hkept : nodes.eraseDups.Pairwise fun a b =>
        (nodes ++ [x]).idxOf a < (nodes ++ [x]).idxOf b :=
      ih.imp_of_mem fun ha hb hlt => by rwa [hold ha, hold hb]
    rw [List.eraseDups_append]
    by_cases hx : x ∈ nodes
    · simpa [List.removeAll, hx] using hkept
    · have hnew : ([x].removeAll nodes).eraseDups = [x] := by
        simp [List.removeAll, hx, List.eraseDups_cons]
      rw [hnew]
      refine List.pairwise_append.2 ⟨hkept, List.pairwise_singleton _ _, fun a ha b hb => ?_⟩
      rw [List.mem_singleton.1 hb, hold ha, List.idxOf_append, if_neg hx]
      exact Nat.lt_add_left _ (List.idxOf_lt_length_of_mem (List.mem_eraseDups.1 ha))

theorem ShardKeys.nodup_eraseDups (nodes : List Nat) : nodes.eraseDups.Nodup := by
  refine (pairwise_eraseDups nodes).imp ?_
  intro a b hlt heq
  exact Nat.ne_of_lt hlt (by rw [heq])

namespace Client

variable {α : Type} (client : Client) (c : Cluster)

theorem groupByNode_concat (keys : List String) (key : String) :
    client.groupByNode c (keys ++ [key]) =
      ShardKeys.add (c.nameOf (client.nodeOf key)) (client.nodeOf key) key (client.groupByNode c keys) :=
  List.foldl_append

theorem perm_groupByNode (keys : List String) :
    ((client.groupByNode c keys).flatMap (·.keys)).Perm keys := by
  induction keys using List.reverseRecOn with
  | nil => exact List.Perm.refl _
  | append_singleton keys key ih =>
    rw [groupByNode_concat]
    exact (ShardKeys.perm_add _ _ _ _).trans ((ih.cons key).trans (List.perm_append_singleton key keys).symm)

variable {client c} (hsome : client.nodes ≠ [])

include hsome

theorem getElem?_nodeOf (key : String) :
    client.nodes[Locator.index client.nodes.length key]? = some (client.nodeOf key) := by
  have hlt : Locator.index client.nodes.length key < client.nodes.length :=
    Nat.mod_lt _ (List.length_pos_iff.2 hsome)
  rw [nodeOf, List.getD_eq_getElem?_getD, List.getElem?_eq_getElem hlt]
  rfl

variable (hnames : (client.nodes.map c.nameOf).Nodup)

include hnames

/-- There is a group for each node that a key belongs to, in order of their first keys, and it has
all the keys that belong to the node. -/
theorem groupByNode_eq (keys : List String) :
    client.groupByNode c keys = (keys.map client.nodeOf).eraseDups.map
      (ShardKeys.ofNode c.nameOf fun node => keys.filter (client.nodeOf · = node)) := by
  have hmem : ∀ key, client.nodeOf key ∈ client.nodes := fun key =>
    List.mem_of_getElem? (getElem?_nodeOf hsome key)
  induction keys using List.reverseRecOn with
  | nil => rfl
  | append_singleton keys key ih =>
    have hknown : ∀ n ∈ (keys.map client.nodeOf).eraseDups, n ∈ client.nodes := fun n hn => by
      obtain ⟨k, -, rfl⟩ := List.mem_map.1 (List.mem_eraseDups.1 hn)
      exact hmem k
    have hname : ∀ n ∈ (keys.map client.nodeOf).eraseDups,
        c.nameOf n = c.nameOf (client.nodeOf key) → n = client.nodeOf key := fun n hn heq =>
      List.inj_on_of_nodup_map hnames (hknown n hn) (hmem key) heq
    have hfilter : ∀ n, (keys ++ [key]).filter (client.nodeOf · = n) =
        keys.filter (client.nodeOf · = n) ++ if n = client.nodeOf key then [key] else [] := fun n => by
      by_cases hn : n = client.nodeOf key
      · simp [hn]
      · simp [hn, Ne.symm hn]
    rw [groupByNode_concat, ih, List.map_append, List.map_singleton, List.eraseDups_append]
    by_cases hold : client.nodeOf key ∈ keys.map client.nodeOf
    · have hnodup := ShardKeys.nodup_eraseDups (keys.map client.nodeOf)
      have hnone : [client.nodeOf key].removeAll (keys.map client.nodeOf) = [] := by
        rw [List.removeAll, List.filter_cons_of_neg (by simpa using hold), List.filter_nil]
      rw [ShardKeys.add_of_mem key hnodup (List.mem_eraseDups.2 hold) hname, hnone, List.eraseDups_nil,
        List.append_nil]
      exact List.map_congr_left fun n _ => by rw [ShardKeys.ofNode, ShardKeys.ofNode, hfilter]
    · have hnew : ∀ n ∈ (keys.map client.nodeOf).eraseDups, n ≠ client.nodeOf key := fun n hn heq =>
        hold (heq ▸ List.mem_eraseDups.1 hn)
      have hnone : keys.filter (client.nodeOf · = client.nodeOf key) = [] :=
        List.filter_eq_nil_iff.2 fun k hk => by
          simpa using fun heq : client.nodeOf k = client.nodeOf key => hold (heq ▸ List.mem_map_of_mem hk)
      have hsame : (keys.map client.nodeOf).eraseDups.map
            (ShardKeys.ofNode c.nameOf fun n => (keys ++ [key]).filter (client.nodeOf · = n)) =
          (keys.map client.nodeOf).eraseDups.map
            (ShardKeys.ofNode c.nameOf fun n => keys.filter (client.nodeOf · = n)) :=
        List.map_congr_left fun n hn => by simp [ShardKeys.ofNode, hfilter, hnew n hn]
      have hone : ([client.nodeOf key].removeAll (keys.map client.nodeOf)).eraseDups =
          [client.nodeOf key] := by
        rw [List.removeAll, List.filter_cons_of_pos (by simpa using hold)]
        rfl
      rw [ShardKeys.add_of_not_mem key fun n hn heq => hnew n hn (hname n hn heq), hone, List.map_append,
        hsame, List.map_singleton, ShardKeys.ofNode, hfilter, hnone, if_pos rfl, List.nil_append]

end Client

/-! ## Sharing keys out -/

/-- The groups share the keys out over the nodes of a client. -/
structure Client.SharesOut (client : Client) (keys : List String) (groups : List ShardKeys) : Prop where
  nodup_nodes : (groups.map (·.node)).Nodup
  ne_nil : ∀ group ∈ groups, group.keys ≠ []
  /-- Every key is in the group of its node. -/
  exists_group : ∀ key ∈ keys, ∃ group ∈ groups, key ∈ group.keys ∧
    client.nodes[Locator.index client.nodes.length key]? = some group.node
  /-- A group has all keys of its node and no others, in their order. -/
  keys_eq : ∀ group ∈ groups, group.keys =
    keys.filter fun key => client.nodes[Locator.index client.nodes.length key]? = some group.node
  /-- The group whose first key comes first is first. -/
  pairwise : groups.Pairwise fun group group' =>
    keys.findIdx (· ∈ group.keys) < keys.findIdx (· ∈ group'.keys)
  perm : (groups.flatMap (·.keys)).Perm keys

theorem Client.sharesOut_groupByNode {client : Client} {c : Cluster} (hsome : client.nodes ≠ [])
    (hnames : (client.nodes.map c.nameOf).Nodup) (keys : List String) :
    client.SharesOut keys (client.groupByNode c keys) := by
  let group : Nat → ShardKeys :=
    ShardKeys.ofNode c.nameOf fun node => keys.filter (client.nodeOf · = node)
  have hgroups : client.groupByNode c keys = (keys.map client.nodeOf).eraseDups.map group :=
    groupByNode_eq hsome hnames keys
  have hmem : ∀ {key}, key ∈ keys → group (client.nodeOf key) ∈ client.groupByNode c keys := fun hkey =>
    hgroups ▸ List.mem_map_of_mem (List.mem_eraseDups.2 (List.mem_map_of_mem hkey))
  have hof : ∀ {g}, g ∈ client.groupByNode c keys → ∃ key ∈ keys, group (client.nodeOf key) = g :=
    fun hg => by
      obtain ⟨node, hnode, rfl⟩ := List.mem_map.1 (hgroups ▸ hg)
      obtain ⟨key, hkey, rfl⟩ := List.mem_map.1 (List.mem_eraseDups.1 hnode)
      exact ⟨key, hkey, rfl⟩
  have hown : ∀ {key}, key ∈ keys → key ∈ (group (client.nodeOf key)).keys := fun hkey =>
    List.mem_filter.2 ⟨hkey, decide_eq_true rfl⟩
  refine ⟨?_, fun g hg => ?_, fun key hkey => ?_, fun g hg => ?_, ?_, client.perm_groupByNode c keys⟩
  · have hnodes : (client.groupByNode c keys).map (·.node) = (keys.map client.nodeOf).eraseDups := by
      rw [hgroups, List.map_map]
      exact List.map_id _
    rw [hnodes]
    exact ShardKeys.nodup_eraseDups _
  · obtain ⟨key, hkey, rfl⟩ := hof hg
    exact List.ne_nil_of_mem (hown hkey)
  · exact ⟨_, hmem hkey, hown hkey, getElem?_nodeOf hsome key⟩
  · obtain ⟨key, -, rfl⟩ := hof hg
    refine List.filter_congr fun k _ => ?_
    rw [getElem?_nodeOf hsome]
    exact decide_eq_decide.2 Option.some_inj.symm
  · have hfirst : ∀ node, keys.findIdx (· ∈ (group node).keys) = (keys.map client.nodeOf).idxOf node := by
      intro node
      have hsame : keys.map (fun key => decide (key ∈ (group node).keys)) =
          keys.map ((· == node) ∘ client.nodeOf) := List.map_congr_left fun key hkey => by
        have hiff : key ∈ (group node).keys ↔ client.nodeOf key = node := by
          simp [group, ShardKeys.ofNode, hkey]
        rw [Function.comp_apply, decide_eq_decide.2 hiff]
        rfl
      have hbool := congrArg (List.findIdx id) hsame
      rwa [List.findIdx_map, List.findIdx_map, Function.id_comp, Function.id_comp, ← List.findIdx_map]
        at hbool
    rw [hgroups, List.pairwise_map]
    refine (ShardKeys.pairwise_eraseDups (keys.map client.nodeOf)).imp ?_
    intro node node' hlt
    rwa [hfirst, hfirst]

/-! ## Asking each group -/

theorem Engine.nature?_create (e : Engine) (command : Command) (callback : Callback) (id : Nat) :
    (e.create command callback).1.nature? id =
      if id = e.size then some
        { tag := e.freshTag.2, work := .single command, idempotent := command.kind.isIdempotent, callback }
      else e.nature? id := by
  change ((e.add (.single command) command.kind.isIdempotent callback).1.get? id).map _ = _
  rw [get?_add]
  split
  · rfl
  · rfl

/-- The operation asks for the keys of the group, and reports to the answer under the latch. -/
def Cluster.AsksGroup (c : Cluster) (answer latch operation : Nat) (group : ShardKeys) : Prop :=
  ∃ n q, c.engine.nature? operation = some n ∧ n.work = .single (.sortRange q) ∧ q.keys = group.keys ∧
    n.callback = .shard group.keys answer latch

namespace Client

variable {α : Type}

/-- What there is stays as it is while the groups are asked for. -/
theorem keeps_askShards (query : List String → RangeQuery) (answer latch : Nat) :
    ∀ (shards : List ShardKeys) (queued : List Nat) (c : Cluster) {id : Nat} {n : Nature},
      c.engine.nature? id = some n →
      (askShards query answer latch queued shards c).1.engine.nature? id = some n
  | [], _, _, _, _, hn => hn
  | shard :: shards, queued, c, id, n, hn => by
    let made : Cluster := { c with engine :=
      (c.engine.create (.sortRange (query shard.keys)) (.shard shard.keys answer latch)).1 }
    have hmade : made.engine.nature? id = some n := by
      rw [Engine.nature?_create, if_neg (Nat.ne_of_lt (Engine.lt_size_of_nature? hn)), hn]
    have hsubmit := (Call.keeps_submitAfter queued c.engine.size shard.node made id).trans hmade
    change ((Call.submitAfter queued c.engine.size shard.node >>= fun _ =>
      askShards query answer latch (queued ++ [c.engine.size]) shards) made).1.engine.nature? id = some n
    rcases Call.bind_fst (Call.submitAfter queued c.engine.size shard.node)
      (fun _ => askShards query answer latch (queued ++ [c.engine.size]) shards) made with
      ⟨error, -, heq⟩ | ⟨_, -, heq⟩
    · rw [heq]
      exact hsubmit
    · rw [heq]
      exact keeps_askShards query answer latch shards _ _ hsubmit

/-- Each group has been asked for by one operation, when all of them have. -/
theorem asked_askShards {query : List String → RangeQuery} (hquery : ∀ keys, (query keys).keys = keys)
    (answer latch : Nat) :
    ∀ (shards : List ShardKeys) (queued : List Nat) (c : Cluster) {operations : List Nat},
      (askShards query answer latch queued shards c).2 = .ok operations →
      ∃ fresh, operations = queued ++ fresh ∧ List.Forall₂
        ((askShards query answer latch queued shards c).1.AsksGroup answer latch) fresh shards
  | [], queued, _, operations, hok => ⟨[], by
      cases hok
      exact (List.append_nil queued).symm, .nil⟩
  | shard :: shards, queued, c, operations, hok => by
    let made : Cluster := { c with engine :=
      (c.engine.create (.sortRange (query shard.keys)) (.shard shard.keys answer latch)).1 }
    let rest := askShards query answer latch (queued ++ [c.engine.size]) shards
    have hstep : askShards query answer latch queued (shard :: shards) c =
        (Call.submitAfter queued c.engine.size shard.node >>= fun _ => rest) made := rfl
    rw [hstep] at hok ⊢
    rcases Call.bind_fst (Call.submitAfter queued c.engine.size shard.node) (fun _ => rest) made with
      ⟨error, -, heq⟩ | ⟨_, -, heq⟩
    · rw [heq] at hok
      cases hok
    · rw [heq] at hok ⊢
      obtain ⟨fresh, rfl, hfresh⟩ := asked_askShards hquery answer latch shards _ _ hok
      have hmade := (c.engine.nature?_create (.sortRange (query shard.keys))
        (.shard shard.keys answer latch) c.engine.size).trans (if_pos rfl)
      have hkept := keeps_askShards query answer latch shards (queued ++ [c.engine.size]) _
        ((Call.keeps_submitAfter queued c.engine.size shard.node made c.engine.size).trans hmade)
      exact ⟨c.engine.size :: fresh, by rw [List.append_assoc, List.singleton_append],
        .cons ⟨_, _, hkept, rfl, hquery shard.keys, rfl⟩ hfresh⟩

theorem asked_fanOut (client : Client) {keys : List String} {query : List String → RangeQuery}
    (hquery : ∀ keys, (query keys).keys = keys) {answer : Answer StoredValue} {policy : String}
    {t : Transcoder α} {c : Cluster} {f : SortedGetFuture α}
    (hok : (client.fanOut keys query answer policy t c).2 = .ok f) :
    List.Forall₂ ((client.fanOut keys query answer policy t c).1.AsksGroup f.answer f.latch) f.operations
      (client.groupByNode c keys) := by
  let shards := client.groupByNode c keys
  let latched := (c.mapMetrics (·.observeShards policy shards.length)).mapReports
    fun r => (r.addLatch shards.length).1
  let before := latched.mapReports fun r => (r.addAnswer answer).1
  let ask := askShards query latched.engine.reports.answers.length c.engine.reports.latches.length []
    shards
  have hstep : client.fanOut keys query answer policy t c =
      (ask >>= fun operations => pure
        { operations, answer := latched.engine.reports.answers.length
          latch := c.engine.reports.latches.length, timeout := client.config.opTimeout
          transcoder := t }) before := rfl
  rw [hstep] at hok ⊢
  rcases Call.bind_fst ask _ before with ⟨error, -, heq⟩ | ⟨operations, hask, heq⟩
  · rw [heq] at hok
    cases hok
  · rw [heq] at hok ⊢
    obtain ⟨fresh, hfresh, hasked⟩ := asked_askShards hquery _ _ shards [] before (congrArg Prod.snd hask)
    cases hok
    change operations = fresh at hfresh
    rw [hfresh]
    exact hasked

end Client

/-! ## Where nothing is found -/

namespace SortedGet

namespace ShardEvent

/-- The event says nothing, or that the shard has none of its keys. -/
def IsVain (e : ShardEvent) : Prop := e.event = .finished ∨ ∃ s, e.event = .status s ∧ s.code = .notFound

end ShardEvent

namespace Answer

variable {a : Answer StoredValue} {e : ShardEvent} {events : List ShardEvent}

theorem hear_of_isVain (hopen : a.failure = none) (he : e.IsVain) :
    (a.hear e).failure = none ∧ (a.hear e).missed = a.missed ++ e.missed := by
  rcases he with hevent | ⟨s, hevent, hcode⟩
  · simp [hear, hevent, ShardEvent.missed, hopen]
  · simp [hear, hevent, hcode, ShardEvent.missed, addMissed, isFailed, hopen]

theorem hearAll_of_isVain (hopen : a.failure = none) (hevents : ∀ e ∈ events, e.IsVain) :
    (a.hearAll events).failure = none ∧
      (a.hearAll events).missed = a.missed ++ events.flatMap ShardEvent.missed := by
  induction events generalizing a with
  | nil => exact ⟨hopen, (List.append_nil _).symm⟩
  | cons e events ih =>
    obtain ⟨hopen', hmissed⟩ := hear_of_isVain hopen (hevents e List.mem_cons_self)
    obtain ⟨hlast, hall⟩ := ih hopen' fun e he => hevents e (List.mem_cons_of_mem _ he)
    refine ⟨hlast, hall.trans ?_⟩
    rw [hmissed, List.append_assoc, List.flatMap_cons]

/-- Concluding an answer sorts what is missed. -/
theorem perm_missedKeys_conclude (a : Answer StoredValue) :
    a.conclude.1.missedKeys.Perm a.missedKeys := by
  unfold conclude
  split
  · exact .refl _
  · exact .refl _
  · have hfinish : a.finishMerge.refineTrimmed.missed = a.missed := by
      rw [refineTrimmed_eq]
      unfold finishMerge
      split
      · rfl
      · rfl
    dsimp only
    rw [hfinish]
    exact (List.mergeSort_perm _ _).map _

end Answer

/-- The shard has reported that it has none of the keys of the group. -/
def ShardReport.FoundNone (p : ShardReport) (group : ShardKeys) : Prop :=
  p.keys = group.keys ∧ ∃ s, p.outcome = .ended s ∧ s.code = .notFound

theorem ShardReport.FoundNone.events {p : ShardReport} {group : ShardKeys} (h : p.FoundNone group) :
    (∀ e ∈ p.events, e.IsVain) ∧ (p.events.flatMap ShardEvent.missed).map (·.1) = group.keys := by
  obtain ⟨hkeys, s, houtcome, hcode⟩ := h
  unfold ShardReport.events
  rw [houtcome]
  constructor
  · intro e he
    rcases List.mem_map.1 he with ⟨event, hevent, rfl⟩
    rcases List.mem_pair.1 hevent with rfl | rfl
    · exact .inr ⟨s, rfl, hcode⟩
    · exact .inl rfl
  · simp [ShardEvent.missed, hcode, hkeys, List.map_map, Function.comp_def]

theorem missed_of_foundNone {reports : List ShardReport} {groups : List ShardKeys}
    (h : List.Forall₂ ShardReport.FoundNone reports groups) :
    (∀ e ∈ reports.flatMap (·.events), e.IsVain) ∧
      ((reports.flatMap (·.events)).flatMap ShardEvent.missed).map (·.1) = groups.flatMap (·.keys) := by
  induction h with
  | nil => exact ⟨List.forall_mem_nil _, rfl⟩
  | cons hfirst _ ih =>
    obtain ⟨hvain, hmissed⟩ := hfirst.events
    simp only [List.flatMap_cons, List.flatMap_append, List.map_append, hmissed, ih.2, and_true]
    exact List.forall_mem_append.2 ⟨hvain, ih.1⟩

end SortedGet

/-- All keys are missed where no shard has found any of its keys. -/
theorem Reports.missed_of_foundNone (r : Reports) {id : Nat} {a : Answer StoredValue}
    {groups : List ShardKeys} {reports : List ShardReport} {events : List ShardEvent}
    (hanswer : r.answers[id]? = some a) (hopen : a.failure = none) (hnew : a.missed = [])
    (hreports : List.Forall₂ ShardReport.FoundNone reports groups)
    (hevents : events.Perm (reports.flatMap (·.events))) :
    ∃ b, (r.tellShards id events).answers[id]? = some b ∧
      b.missedKeys.Perm (groups.flatMap (·.keys)) ∧
      b.conclude.1.missedKeys.Perm (groups.flatMap (·.keys)) := by
  obtain ⟨hvain, hmissed⟩ := SortedGet.missed_of_foundNone hreports
  have hall := (SortedGet.Answer.hearAll_of_isVain hopen fun e he => hvain e (hevents.mem_iff.1 he)).2
  have hperm : (a.hearAll events).missedKeys.Perm (groups.flatMap (·.keys)) := by
    rw [SortedGet.Answer.missedKeys, hall, hnew, List.nil_append, ← hmissed]
    exact (hevents.flatMap_right _).map _
  refine ⟨a.hearAll events, ?_, hperm, (SortedGet.Answer.perm_missedKeys_conclude _).trans hperm⟩
  rw [answer_tellShards, hanswer]
  rfl

/-! ## Every key is asked for once -/

namespace Client

/-- **A sorted multi-get asks for every key once, at the shard of the key.** The groups share the keys
out over the nodes, a call that succeeds has made one operation for each group, and if no shard finds
anything, in whatever order they say so, the keys that are missed are the ones that were asked for. -/
theorem groupByNode_asks_once {α : Type} {client : Client} {c : Cluster} (hsome : client.nodes ≠ [])
    (hnames : (client.nodes.map c.nameOf).Nodup) (keys : List String) (t : Transcoder α) :
    client.SharesOut keys (client.groupByNode c keys) ∧
    (∀ range offset count unique f,
      ((client.sortedGet keys range count unique t c).2 = .ok f →
        List.Forall₂ ((client.sortedGet keys range count unique t c).1.AsksGroup f.answer f.latch)
          f.operations (client.groupByNode c keys)) ∧
      ((client.sortedGetPage keys range offset count unique t c).2 = .ok f →
        List.Forall₂
          ((client.sortedGetPage keys range offset count unique t c).1.AsksGroup f.answer f.latch)
          f.operations (client.groupByNode c keys))) ∧
    ∀ (r : Reports) (id : Nat) (a : Answer StoredValue) (reports : List ShardReport)
      (events : List ShardEvent), r.answers[id]? = some a → a.failure = none → a.missed = [] →
      List.Forall₂ ShardReport.FoundNone reports (client.groupByNode c keys) →
      events.Perm (reports.flatMap (·.events)) →
      ∃ b, (r.tellShards id events).answers[id]? = some b ∧ b.missedKeys.Perm keys ∧
        b.conclude.1.missedKeys.Perm keys := by
  have hshared := sharesOut_groupByNode hsome hnames keys
  refine ⟨hshared, fun range offset count unique f => ⟨?_, ?_⟩, ?_⟩
  · rw [sortedGet]
    cases sortedGetFlaw? keys 0 count with
    | some flaw => exact fun hok => by cases hok
    | none => exact client.asked_fanOut fun _ => rfl
  · cases hvalid : sortedGetFlaw? keys offset count with
    | some flaw =>
      rw [sortedGetPage, hvalid]
      exact fun hok => by cases hok
    | none =>
      rw [client.sortedGetPage_of_valid hvalid]
      exact client.asked_fanOut fun _ => rfl
  · intro r id a reports events hanswer hopen hnew hreports hevents
    obtain ⟨b, hb, hmissed, hconcluded⟩ := r.missed_of_foundNone hanswer hopen hnew hreports hevents
    exact ⟨b, hb, hmissed.trans hshared.perm, hconcluded.trans hshared.perm⟩

/-- A client of two nodes, and its cluster. -/
def twoNodes : Cluster × Client := ofConfig { servers := ["h1:1", "h2:2"] } {}

/-- Of four keys, two belong to each node; the second node is the first to have one. Neither finds
anything, and the second one says so before the first one has finished. -/
theorem groupByNode_asks_once_of_two_nodes :
    let groups := twoNodes.2.groupByNode twoNodes.1 ["b", "a", "c", "d"]
    let none : Status := ⟨.notFound, "NOT_FOUND"⟩
    let events : List ShardEvent := [⟨.operation 0, ["b", "d"], 0, .status none⟩,
      ⟨.operation 1, ["a", "c"], 0, .status none⟩, ⟨.operation 1, ["a", "c"], 0, .finished⟩,
      ⟨.operation 0, ["b", "d"], 0, .finished⟩]
    groups = [⟨"h2:2", 1, ["b", "d"]⟩, ⟨"h1:1", 0, ["a", "c"]⟩] ∧
    twoNodes.2.SharesOut ["b", "a", "c", "d"] groups ∧
    (∃ f : SortedGetFuture (List UInt8), f.operations = [0, 1] ∧ List.Forall₂
      ((twoNodes.2.sortedGet ["b", "a", "c", "d"] ⟨.number 0, .number 9⟩ 10 false .bytes
        twoNodes.1).1.AsksGroup f.answer f.latch) f.operations groups) ∧
    ∃ b, (Reports.tellShards { answers := [.current 10 false false] } 0 events).answers[0]? = some b ∧
      b.conclude.1.missedKeys.Perm ["b", "a", "c", "d"] := by
  intro groups none events
  have hgroups : groups = [⟨"h2:2", 1, ["b", "d"]⟩, ⟨"h1:1", 0, ["a", "c"]⟩] := by decide +kernel
  have hsome : twoNodes.2.nodes ≠ [] := by decide
  have hnames : (twoNodes.2.nodes.map twoNodes.1.nameOf).Nodup := by decide
  obtain ⟨hshared, hasked, hmissed⟩ :=
    groupByNode_asks_once hsome hnames ["b", "a", "c", "d"] Transcoder.bytes
  refine ⟨hgroups, hshared, ?_, ?_⟩
  · have hoperations : ((twoNodes.2.sortedGet ["b", "a", "c", "d"] ⟨.number 0, .number 9⟩ 10 false .bytes
        twoNodes.1).2.toOption.map (·.operations)) = some [0, 1] := by decide +kernel
    cases hok : (twoNodes.2.sortedGet ["b", "a", "c", "d"] ⟨.number 0, .number 9⟩ 10 false .bytes
        twoNodes.1).2 with
    | error error =>
      rw [hok] at hoperations
      cases hoperations
    | ok f =>
      rw [hok] at hoperations
      exact ⟨f, Option.some.inj hoperations, (hasked ⟨.number 0, .number 9⟩ 0 10 false f).1 hok⟩
  · obtain ⟨b, hb, -, hperm⟩ := hmissed { answers := [.current 10 false false] } 0
      (.current 10 false false)
      [⟨.operation 0, ["b", "d"], 0, .ended none⟩, ⟨.operation 1, ["a", "c"], 0, .ended none⟩] events
      rfl rfl rfl (by
        change List.Forall₂ _ _ groups
        rw [hgroups]
        exact .cons ⟨rfl, none, rfl, rfl⟩ (.cons ⟨rfl, none, rfl, rfl⟩ .nil))
      ((List.perm_append_singleton _ [_, _]).cons _)
    exact ⟨b, hb, hperm⟩

end Client

end ShardedCache

import ShardedCache.Client.FanOut
import ShardedCache.Proofs.Client.Issuing
import ShardedCache.Proofs.Future.Reading

/-!
# What each call returns

Every future has operations and a latch that waits for them. As the loops of a call go over its nodes,
keys, items or shards, the latch that was made before waits for the operations that have been made so
far; it was made for as many as there will be, so that in the end it waits for all (`Future.Underway`).
-/

namespace ShardedCache

open Cluster (Leads)
open Call (Yields)
open SortedGet (Answer RangeQuery)

/-- What a future reads from is there, and its latch waits for its operations. Reading can fail for
some reasons only. -/
structure Future.Underway (c : Cluster) (reasons : CacheError → Prop) (f : Future) : Prop where
  rests : f.Rests c
  engaged : c.Engaged (f.latch c) f.operations
  reads : ∀ {error}, f.Refuses error → reasons error

theorem Future.Underway.mono {c : Cluster} {reasons reasons' : CacheError → Prop} {f : Future}
    (h : f.Underway c reasons) (himp : ∀ {error}, reasons error → reasons' error) :
    f.Underway c reasons' := { h with reads := fun herror => himp (h.reads herror) }

/-! ## Nodes of a client -/

theorem length_concat_add {β γ : Type} (done : List β) (b : β) (a : γ) (rest : List γ) :
    (done ++ [b]).length + rest.length = done.length + (a :: rest).length := by
  simp only [List.length_append, List.length_cons, List.length_nil]
  omega

namespace Client

/-- The client has nodes, and they are there. -/
structure Placed (client : Client) (c : Cluster) : Prop where
  nonempty : client.nodes ≠ []
  there : ∀ node ∈ client.nodes, (c.queue? node).isSome

variable {α : Type} {since : Outline} {c c' : Cluster} {client : Client}

theorem Placed.leads (h : client.Placed c) (hled : Leads since c c') : client.Placed c' :=
  ⟨h.nonempty, fun node hnode => hled.there (h.there node hnode)⟩

theorem Placed.nodeOf_mem (h : client.Placed c) (key : String) : client.nodeOf key ∈ client.nodes := by
  have hlt : Locator.index client.nodes.length key < client.nodes.length :=
    Nat.mod_lt _ (List.length_pos_iff.2 h.nonempty)
  rw [nodeOf, List.getD_eq_getElem?_getD, List.getElem?_eq_getElem hlt]
  exact List.getElem_mem hlt

theorem Placed.nodeOf (h : client.Placed c) (key : String) :
    (c.queue? (client.nodeOf key)).isSome := h.there _ (h.nodeOf_mem key)

theorem leads_addNodes (config : Config) : ∀ (servers : List String) (made : Cluster × List Nat),
    made.1.Regular since → (∀ node ∈ made.2, (made.1.queue? node).isSome) →
      let all := servers.foldl (fun made server =>
        ((made.1.addNode server config).1, made.2 ++ [(made.1.addNode server config).2])) made
      Leads since made.1 all.1 ∧ all.2.length = made.2.length + servers.length ∧
        ∀ node ∈ all.2, (all.1.queue? node).isSome
  | [], _, h, hmade => ⟨h.leads_refl, rfl, hmade⟩
  | server :: servers, made, h, hmade => by
    have hadded := Cluster.leads_addNode h server config
    obtain ⟨hrest, hlength, hthere⟩ := leads_addNodes config servers
      ((made.1.addNode server config).1, made.2 ++ [(made.1.addNode server config).2]) hadded.regular
      fun node hnode => by
        rcases List.mem_append.1 hnode with hnode | hnode
        · exact hadded.there (hmade node hnode)
        · rw [List.mem_singleton.1 hnode]
          exact made.1.queue?_addNode_self server config
    exact ⟨hadded.trans hrest, hlength.trans (length_concat_add _ _ _ _), hthere⟩

theorem servers_ne_nil {config : Config} (h : config.validate = .ok ()) : config.servers ≠ [] := by
  intro hnil
  rw [Config.validate, Config.flaw?, if_pos (by rw [hnil]; rfl)] at h
  cases h

/-- A client that has been connected has nodes. -/
theorem yields_connect (config : Config) (h : c.Regular since) :
    Yields since c (connect config) fun client c' => client.Placed c' := by
  refine Yields.bind (Q := fun _ _ => config.validate = .ok ()) ⟨h.leads_refl, fun hok => hok⟩
    fun {_ c₁} hled hvalid => ?_
  obtain ⟨hmade, hlength, hthere⟩ := leads_addNodes config config.servers (c₁, []) hled.regular
    fun _ hnode => by cases hnode
  refine ⟨hmade, fun hclient => ?_⟩
  cases hclient
  refine ⟨fun hnil => servers_ne_nil hvalid ?_, hthere⟩
  rw [List.length_nil, Nat.zero_add] at hlength
  exact List.length_eq_zero_iff.1 (hlength.symm.trans (congrArg List.length hnil))

/-- Each group of keys is that of a node of one of them. -/
theorem node_mem_groupByNode (client : Client) (c : Cluster) (keys : List String) :
    ∀ shard ∈ client.groupByNode c keys, ∃ key, shard.node = client.nodeOf key := by
  have hadd : ∀ (name : String) (key : String) (groups : List ShardKeys),
      (∀ group ∈ groups, ∃ key, group.node = client.nodeOf key) →
        ∀ group ∈ ShardKeys.add name (client.nodeOf key) key groups,
          ∃ key, group.node = client.nodeOf key := by
    intro name key groups
    induction groups with
    | nil =>
      intro _ group hgroup
      cases List.mem_singleton.1 hgroup
      exact ⟨key, rfl⟩
    | cons first groups ih =>
      intro hgroups group hgroup
      obtain ⟨hfirst, hrest⟩ := List.forall_mem_cons.1 hgroups
      unfold ShardKeys.add at hgroup
      split at hgroup
      · rcases List.mem_cons.1 hgroup with rfl | hgroup
        · exact hfirst
        · exact hrest group hgroup
      · rcases List.mem_cons.1 hgroup with rfl | hgroup
        · exact hfirst
        · exact ih hrest group hgroup
  have hfold : ∀ (more : List String) (groups : List ShardKeys),
      (∀ group ∈ groups, ∃ key, group.node = client.nodeOf key) →
        ∀ shard ∈ more.foldl (fun groups key => ShardKeys.add
          (((c.node? (client.nodeOf key)).map (·.name)).getD "") (client.nodeOf key) key groups) groups,
          ∃ key, shard.node = client.nodeOf key := by
    intro more
    induction more with
    | nil => exact fun _ hgroups => hgroups
    | cons key more ih => exact fun groups hgroups => ih _ (hadd _ key groups hgroups)
  exact hfold keys [] (List.forall_mem_nil _)

/-! ## One operation -/

theorem yields_single (h : c.Regular since) (hplaced : client.Placed c) (key : String)
    (command : Command) (decode : Completion → Except CacheError α) :
    Yields since c (client.single key command decode) fun f c' =>
      (Future.shared f).Underway c' fun error => ∃ completion, decode completion = .error error := by
  unfold single
  simp only [Call.submit_eq_submitAfter]
  refine (Call.yields_check h _).bind fun {_ _} hled _ => ?_
  refine (Call.yields_latch hled.regular 1).bind fun {latch c₁} hled₁ ⟨hissued, hsince⟩ => ?_
  have hnode := ((hplaced.leads hled).leads hled₁).nodeOf key
  refine Call.yields_join hled₁.regular hissued hsince hnode []
    fun {completion op c₂} hled₂ hissued hknown hlatch _ _ => ?_
  refine Call.yields_pure hled₂.regular ⟨hknown, ⟨.direct, ?_⟩, fun herror => herror⟩
  have heq : (c₂.engine.reports.completion completion).latch = latch :=
    (c₂.engine.reports.latch_completion completion).trans (Option.some.inj hlatch)
  change c₂.Issued .direct (c₂.engine.reports.completion completion).latch 1 [op]
  rw [heq]
  exact hissued

/-! ## One operation for each node -/

theorem yields_flushEach (delay : UInt32) {callback : Callback} {w : Wiring} {latch n : Nat}
    (hsince : w.After latch since) : ∀ (nodes queued : List Nat) {c : Cluster}, c.Regular since →
      c.Issued w latch n queued → callback.Known c.engine.reports.outline →
      w.Joins c.engine.reports.outline latch callback → (∀ node ∈ nodes, (c.queue? node).isSome) →
      Yields since c (flushEach delay callback queued nodes) fun ops c' =>
        c'.Issued w latch n ops ∧ ops.length = queued.length + nodes.length
  | [], queued, c, h, hissued, _, _, _ => Call.yields_pure h ⟨hissued, rfl⟩
  | node :: nodes, queued, c, h, hissued, hknown, hjoins, hnodes => by
    obtain ⟨hnode, hrest⟩ := List.forall_mem_cons.1 hnodes
    refine Call.yields_hand h hissued hsince hknown hjoins hnode queued
      fun {op c'} hled hissued' _ => ?_
    have hgrows := hled.moves.grows
    refine (yields_flushEach delay hsince nodes (queued ++ [op]) hled.regular hissued'
      (hknown.grows hgrows) (hjoins.grows hknown hgrows) fun nd hnd => hled.there (hrest nd hnd)).mono
      fun {ops c''} _ ⟨hall, hlength⟩ =>
        ⟨hall, hlength.trans (length_concat_add _ _ _ _)⟩

theorem yields_flush (h : c.Regular since) (hplaced : client.Placed c) (delay : UInt32) :
    Yields since c (client.flush delay) fun f c' => (Future.shared f).Underway c' fun _ => False := by
  unfold flush
  refine (Call.yields_latch h 1).bind fun {latch c₁} hled₁ ⟨hissued, hsince⟩ => ?_
  refine (Call.yields_completion hled₁.regular hissued).bind
    fun {completion c₂} hled₂ ⟨hissued, hknown, hlatch, _⟩ => ?_
  have hpos : 0 < client.nodes.length := List.length_pos_iff.2 hplaced.nonempty
  refine (Call.yields_multiplexer hled₂.regular hissued hpos hsince).bind
    fun {m c₃} hled₃ ⟨hissued, hsince⟩ => ?_
  have hknown₃ := hknown.grows hled₃.moves.grows
  have hlatch₃ := (hknown.latch?_eq hled₃.moves.grows).trans hlatch
  have hknownAll : (Callback.multiplex m (.completion completion)).Known c₃.engine.reports.outline :=
    ⟨hissued.awaits.within.multiplexer m rfl, hknown₃⟩
  refine (yields_flushEach delay hsince client.nodes [] hled₃.regular hissued hknownAll
    ⟨_, rfl, hlatch₃⟩ (((hplaced.leads hled₁).leads hled₂).leads hled₃).there).bind
    fun {ops c₄} hled₄ ⟨hissued, hlength⟩ => ?_
  refine Call.yields_pure hled₄.regular ⟨hknown₃.grows hled₄.moves.grows, ⟨.gathered m, ?_⟩,
    fun ⟨_, hdecode⟩ => by cases hdecode⟩
  have heq : (c₄.engine.reports.completion completion).latch = latch :=
    (c₄.engine.reports.latch_completion completion).trans
      (Option.some.inj ((hknown₃.latch?_eq hled₄.moves.grows).trans hlatch₃))
  change c₄.Issued _ (c₄.engine.reports.completion completion).latch ops.length ops
  rw [heq, hlength, List.length_nil, Nat.zero_add]
  exact hissued

theorem leads_askVersions (client : Client) : ∀ (nodes : List Nat) (asked : List VersionQuery)
    {c : Cluster}, c.Regular since → (∀ node ∈ nodes, (c.queue? node).isSome) →
      Yields since c (client.askVersions asked nodes) fun _ _ => True
  | [], asked, c, h, _ => Call.yields_pure h trivial
  | node :: nodes, asked, c, h, hnodes => by
    refine (Call.yields_latch h 1).bind fun {latch c₁} hled₁ ⟨hissued, hsince⟩ => ?_
    have hnodes₁ := fun nd hnd => hled₁.there (hnodes nd hnd)
    obtain ⟨hnode, hrest⟩ := List.forall_mem_cons.1 hnodes₁
    refine Call.yields_join hled₁.regular hissued hsince hnode _
      fun {completion op c₂} hled₂ _ _ _ _ _ => ?_
    exact leads_askVersions client nodes _ hled₂.regular fun nd hnd => hled₂.there (hrest nd hnd)

theorem leads_get (h : c.Regular since) (f : OperationFuture α) (timeout : Nat) :
    Leads since c (f.get c timeout).1 := by
  have hsettled := Cluster.leads_settleAll h (f.latch c) f.operations timeout
  unfold OperationFuture.get
  split <;>
  · next heq =>
    rw [heq] at hsettled
    exact hsettled

theorem leads_awaitVersions (asked : Nat) : ∀ (queries : List VersionQuery) (found : KeyMap String)
    {c : Cluster}, c.Regular since → Leads since c (awaitVersions asked queries found c).1
  | [], found, c, h => h.leads_refl
  | query :: queries, found, c, h => by
    have hgot := leads_get h query.future (query.future.timeout - (c.now - asked))
    unfold awaitVersions
    dsimp only
    split
    · next heq =>
      rw [heq] at hgot
      exact hgot
    · next c' _ version heq =>
      rw [heq] at hgot
      exact hgot.trans (leads_awaitVersions c'.now queries _ hgot.regular)

theorem leads_versions (h : c.Regular since) (hplaced : client.Placed c) :
    Leads since c (client.versions c).1 := by
  refine ((leads_askVersions client client.nodes [] h hplaced.there).bind
    (R := fun _ _ => True) fun {queries c'} hled _ => ?_).leads
  exact ⟨leads_awaitVersions c'.now queries [] hled.regular, fun _ => trivial⟩

/-! ## One operation for each key or item -/

/-- Each of the entries' operations gets the key of its entry and reports to the completion of its
entry, which is there and has no other entry. -/
structure Entered (e : Engine) (entries : List BulkEntry) : Prop where
  carries : ∀ entry ∈ entries,
    e.Carries entry.operation (.get entry.key false) (.completion entry.completion)
  known : ∀ entry ∈ entries, entry.completion < e.reports.outline.completions.length
  completions : (entries.map (·.completion)).Nodup

theorem Entered.concat {entries : List BulkEntry} (h : Entered c.engine entries)
    (hled : Leads since c c') (key : String) {op completion : Nat}
    (hcarries : c'.engine.Carries op (.get key false) (.completion completion))
    (hknown : completion < c'.engine.reports.outline.completions.length)
    (hnew : c.engine.reports.outline.completions.length ≤ completion) :
    Entered c'.engine (entries ++ [{ key, operation := op, completion }]) := by
  refine ⟨fun entry hentry => ?_, fun entry hentry => ?_, ?_⟩
  · rcases List.mem_append.1 hentry with hentry | hentry
    · exact (h.carries entry hentry).goes hled.goes
    · rw [List.mem_singleton.1 hentry]
      exact hcarries
  · rcases List.mem_append.1 hentry with hentry | hentry
    · exact Nat.lt_of_lt_of_le (h.known entry hentry) hled.moves.grows.completions.length_le
    · rw [List.mem_singleton.1 hentry]
      exact hknown
  · rw [List.map_append]
    refine List.nodup_append.2 ⟨h.completions, List.nodup_singleton _, ?_⟩
    rintro k hk _ hlast rfl
    obtain ⟨entry, hentry, rfl⟩ := List.mem_map.1 hk
    have hlt := h.known entry hentry
    rw [List.map_cons, List.map_nil, List.mem_singleton] at hlast
    dsimp only at hlast
    omega

theorem yields_getEach {latch n : Nat} (hsince : Wiring.direct.After latch since) :
    ∀ (keys : List String) (entries : List BulkEntry) {c : Cluster}, c.Regular since →
      client.Placed c → c.Issued .direct latch n (entries.map (·.operation)) →
      Entered c.engine entries →
      Yields since c (client.getEach latch entries keys) fun entries' c' =>
        c'.Issued .direct latch n (entries'.map (·.operation)) ∧ Entered c'.engine entries' ∧
          entries'.map (·.key) = entries.map (·.key) ++ keys
  | [], entries, c, h, _, hissued, hentered =>
    Call.yields_pure h ⟨hissued, hentered, (List.append_nil _).symm⟩
  | key :: keys, entries, c, h, hplaced, hissued, hentered => by
    refine Call.yields_join h hissued hsince (hplaced.nodeOf key) _
      fun {completion op c'} hled hissued' hknown _ hcarries hnew => ?_
    have hmap : entries.map (·.operation) ++ [op] =
        (entries ++ [({ key, operation := op, completion } : BulkEntry)]).map (·.operation) := by simp
    rw [hmap] at hissued'
    refine (yields_getEach hsince keys _ hled.regular (hplaced.leads hled) hissued'
      (hentered.concat hled key hcarries hknown hnew)).mono
      fun {entries' c''} _ ⟨hall, hentered', hkeys⟩ => ⟨hall, hentered', ?_⟩
    rw [hkeys]
    simp

theorem nodup_eraseDups {α : Type} [BEq α] [LawfulBEq α] : ∀ l : List α, l.eraseDups.Nodup
  | [] => List.nodup_nil
  | a :: l => by
    have hshorter := List.length_filter_le (fun b => !b == a) l
    rw [List.eraseDups_cons]
    refine List.nodup_cons.2 ⟨fun hmem => ?_, nodup_eraseDups _⟩
    simp [List.mem_eraseDups] at hmem
  termination_by l => l.length

/-- The future of a bulk get: one operation for each key, all joined to one latch, and nothing read
yet. -/
theorem yields_entered (h : c.Regular since) (hplaced : client.Placed c) (keys : List String)
    (t : Transcoder α) :
    Yields since c (client.getBulk keys t) fun f c' =>
      (c'.Issued .direct f.latch f.operations.length f.operations ∧ Entered c'.engine f.entries) ∧
      f.keys = keys.eraseDups ∧ f.transcoder = t ∧ f.decoded = [] ∧ f.timedOut = false ∧
        f.final = none := by
  unfold getBulk
  refine (Call.yields_forM _ keys.eraseDups h).bind fun {_ c₁} hled₁ _ => ?_
  refine (Call.yields_latch hled₁.regular keys.eraseDups.length).bind
    fun {latch c₂} hled₂ ⟨hissued, hsince⟩ => ?_
  have hnone : Entered c₂.engine [] :=
    ⟨List.forall_mem_nil _, List.forall_mem_nil _, List.nodup_nil⟩
  refine (yields_getEach hsince keys.eraseDups [] hled₂.regular ((hplaced.leads hled₁).leads hled₂)
    hissued hnone).bind fun {entries c₃} hled₃ ⟨hissued, hentered, hkeys⟩ => ?_
  refine Call.yields_pure hled₃.regular ⟨⟨?_, hentered⟩, hkeys, rfl, rfl, rfl, rfl⟩
  · have hlength : entries.length = keys.eraseDups.length := by
      rw [← List.length_map (·.key), hkeys, List.map_nil, List.nil_append]
    change c₃.Issued .direct latch (entries.map (·.operation)).length (entries.map (·.operation))
    rw [List.length_map, hlength]
    exact hissued

theorem yields_getBulk (h : c.Regular since) (hplaced : client.Placed c) (keys : List String)
    (t : Transcoder α) :
    Yields since c (client.getBulk keys t) fun f c' => (Future.bulk f).Underway c' t.Refuses :=
  (yields_entered h hplaced keys t).mono fun {_ _} _ ⟨⟨hissued, _⟩, _, htranscoder, _⟩ =>
    ⟨trivial, ⟨.direct, hissued⟩, fun herror => htranscoder ▸ herror⟩

theorem yields_setEach (exptime : UInt32) {latch n : Nat} (hsince : Wiring.direct.After latch since) :
    ∀ (items : List (String × StoredValue)) (piped : List (Nat × Nat)) {c : Cluster}, c.Regular since →
      client.Placed c → c.Issued .direct latch n (piped.map (·.1)) →
      Yields since c (client.setEach exptime latch piped items) fun piped' c' =>
        c'.Issued .direct latch n (piped'.map (·.1)) ∧ piped'.length = piped.length + items.length
  | [], piped, c, h, _, hissued => Call.yields_pure h ⟨hissued, rfl⟩
  | (key, value) :: items, piped, c, h, hplaced, hissued => by
    refine Call.yields_join h hissued hsince (hplaced.nodeOf key) _
      fun {completion op c'} hled hissued' _ _ _ _ => ?_
    have hmap : piped.map (·.1) ++ [op] = (piped ++ [(op, completion)]).map (·.1) := by simp
    rw [hmap] at hissued'
    refine (yields_setEach exptime hsince items _ hled.regular (hplaced.leads hled) hissued').mono
      fun {piped' c''} _ ⟨hall, hlength⟩ =>
        ⟨hall, hlength.trans (length_concat_add _ _ _ _)⟩

theorem yields_setBulk (h : c.Regular since) (hplaced : client.Placed c)
    (items : List (String × StoredValue)) (exptime : UInt32) :
    Yields since c (client.setBulk items exptime) fun f c' =>
      (Future.piped f).Underway c' fun _ => False := by
  unfold setBulk
  refine (Call.yields_forM _ items h).bind fun {_ c₁} hled₁ _ => ?_
  refine (Call.yields_latch hled₁.regular items.length).bind
    fun {latch c₂} hled₂ ⟨hissued, hsince⟩ => ?_
  refine (yields_setEach exptime hsince items [] hled₂.regular ((hplaced.leads hled₁).leads hled₂)
    hissued).bind fun {piped c₃} hled₃ ⟨hissued, hlength⟩ => ?_
  refine Call.yields_pure hled₃.regular ⟨trivial, ⟨.direct, ?_⟩, fun herror => herror⟩
  change c₃.Issued .direct latch (piped.map (·.1)).length (piped.map (·.1))
  rw [List.length_map, hlength, List.length_nil, Nat.zero_add]
  exact hissued

/-! ## One operation for each shard -/

theorem yields_askShards (query : List String → RangeQuery) (answer : Nat) {latch n : Nat}
    (hsince : Wiring.direct.After latch since) : ∀ (shards : List ShardKeys) (queued : List Nat)
      {c : Cluster}, c.Regular since → c.Issued .direct latch n queued →
      (∀ shard ∈ shards, (c.queue? shard.node).isSome) →
      Yields since c (askShards query answer latch queued shards) fun ops c' =>
        c'.Issued .direct latch n ops ∧ ops.length = queued.length + shards.length
  | [], queued, c, h, hissued, _ => Call.yields_pure h ⟨hissued, rfl⟩
  | shard :: shards, queued, c, h, hissued, hshards => by
    obtain ⟨hshard, hrest⟩ := List.forall_mem_cons.1 hshards
    have hknown : (Callback.shard shard.keys answer latch).Known c.engine.reports.outline :=
      hissued.awaits.within.latch
    refine Call.yields_hand h hissued hsince hknown rfl hshard queued
      fun {op c'} hled hissued' _ => ?_
    refine (yields_askShards query answer hsince shards (queued ++ [op]) hled.regular hissued'
      fun shard' hshard' => hled.there (hrest shard' hshard')).mono
      fun {ops c''} _ ⟨hall, hlength⟩ =>
        ⟨hall, hlength.trans (length_concat_add _ _ _ _)⟩

theorem yields_fanOut (h : c.Regular since) (hplaced : client.Placed c) (keys : List String)
    (query : List String → RangeQuery) (answer : Answer StoredValue) (policy : String)
    (t : Transcoder α) : Yields since c (client.fanOut keys query answer policy t) fun f c' =>
      (Future.sorted f).Underway c' t.Refuses := by
  let shards := client.groupByNode c keys
  have hshards : ∀ shard ∈ shards, (c.queue? shard.node).isSome := fun shard hshard => by
    obtain ⟨key, hkey⟩ := client.node_mem_groupByNode c keys shard hshard
    rw [hkey]
    exact hplaced.nodeOf key
  have hobserved := h.leads_mapMetrics (·.observeShards policy shards.length)
  suffices hcall : Yields since (c.mapMetrics (·.observeShards policy shards.length))
      (Call.latch shards.length >>= fun latch => Call.answer answer >>= fun id =>
        askShards query id latch [] shards >>= fun operations => pure
          ({ operations, answer := id, latch, timeout := client.config.opTimeout, transcoder := t } :
            SortedGetFuture α)) fun f c' => (Future.sorted f).Underway c' t.Refuses from
    ⟨hobserved.trans hcall.leads, fun ha => hcall.result ha⟩
  refine (Call.yields_latch hobserved.regular shards.length).bind
    fun {latch c₁} hled₁ ⟨hissued₁, hsince⟩ => ?_
  refine (Call.yields_answer hled₁.regular hissued₁ answer).bind
    fun {id c₂} hled₂ ⟨hissued₂, hanswer⟩ => ?_
  refine (yields_askShards query id hsince shards [] hled₂.regular hissued₂ fun shard hshard =>
    ((hobserved.trans hled₁).trans hled₂).there (hshards shard hshard)).bind
    fun {ops c₃} hled₃ ⟨hissued₃, hlength⟩ => ?_
  refine Call.yields_pure hled₃.regular ⟨Nat.lt_of_lt_of_le hanswer hled₃.moves.answers_le,
    ⟨.direct, ?_⟩, fun herror => herror⟩
  change c₃.Issued .direct latch ops.length ops
  rw [hlength, List.length_nil, Nat.zero_add]
  exact hissued₃

theorem yields_sortedGet (h : c.Regular since) (hplaced : client.Placed c) (keys : List String)
    (range : KeyRange) (count : UInt64) (unique : Bool) (t : Transcoder α) :
    Yields since c (client.sortedGet keys range count unique t) fun f c' =>
      (Future.sorted f).Underway c' t.Refuses := by
  cases hvalid : sortedGetFlaw? keys 0 count with
  | some flaw => exact (Call.yields_fail h _).congr (by rw [sortedGet, hvalid])
  | none => exact (yields_fanOut h hplaced keys _ _ _ t).congr (by rw [sortedGet, hvalid])

theorem yields_sortedGetPage (h : c.Regular since) (hplaced : client.Placed c) (keys : List String)
    (range : KeyRange) (offset count : UInt64) (unique : Bool) (t : Transcoder α) :
    Yields since c (client.sortedGetPage keys range offset count unique t) fun f c' =>
      (Future.sorted f).Underway c' t.Refuses := by
  cases hvalid : sortedGetFlaw? keys offset count with
  | some flaw => exact (Call.yields_fail h _).congr (by rw [sortedGetPage, hvalid])
  | none =>
    exact (yields_fanOut h hplaced keys _ _ _ t).congr (by rw [client.sortedGetPage_of_valid hvalid])

end Client

end ShardedCache

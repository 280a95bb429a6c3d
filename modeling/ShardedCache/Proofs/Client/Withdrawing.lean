import ShardedCache.Proofs.Client.Agreement
import ShardedCache.Proofs.Client.Drafting
import ShardedCache.Proofs.Cluster.Refilling

/-!
# Calls that fail on the way

Each of the calls that go to many nodes has a loop of its own, which takes back what it has made when an
operation cannot be submitted (`Client.launch_failed`). What is taken back has lapsed, and no connection
writes it any more; and what is asked for in vain is refused before anything is made. So a call that
fails leaves nothing behind (`Client.failed_leaves_nothing`).
-/

namespace ShardedCache

open Cluster (Leads)
open SortedGet (Answer RangeQuery)

namespace Client

open Call (Withdraws)

variable {α : Type} {first : Nat} {c : Cluster}

/-! ## The loops -/

theorem withdraws_flushEach (delay : UInt32) (callback : Callback) : ∀ (nodes queued : List Nat)
    {c : Cluster}, c.Drafted first queued →
      Withdraws first c (flushEach delay callback queued nodes) fun ops => ops
  | [], _, _, h => Call.withdraws_pure h
  | node :: nodes, _, _, h => Call.withdraws_hand h _ callback node fun h' =>
    withdraws_flushEach delay callback nodes _ h'

theorem withdraws_askVersions (client : Client) : ∀ (nodes : List Nat) (asked : List VersionQuery)
    {c : Cluster}, c.Drafted first (asked.flatMap (·.future.operations)) →
      Withdraws first c (client.askVersions asked nodes) (·.flatMap (·.future.operations))
  | [], _, _, h => Call.withdraws_pure h
  | node :: nodes, asked, _, h => by
    refine (Call.withdraws_change h rfl rfl rfl).bind fun {latch c₁} h₁ => ?_
    refine Call.withdraws_join h₁ latch _ node fun {completion op c₂} h₂ => ?_
    refine withdraws_askVersions client nodes _ ?_
    rw [List.flatMap_append]
    exact h₂

theorem withdraws_getEach (client : Client) (latch : Nat) : ∀ (keys : List String)
    (entries : List BulkEntry) {c : Cluster}, c.Drafted first (entries.map (·.operation)) →
      Withdraws first c (client.getEach latch entries keys) (·.map (·.operation))
  | [], _, _, h => Call.withdraws_pure h
  | key :: keys, entries, _, h => by
    refine Call.withdraws_join h latch _ _ fun {completion op c'} h' => ?_
    refine withdraws_getEach client latch keys _ ?_
    rw [List.map_append]
    exact h'

theorem withdraws_setEach (client : Client) (exptime : UInt32) (latch : Nat) :
    ∀ (items : List (String × StoredValue)) (piped : List (Nat × Nat)) {c : Cluster},
      c.Drafted first (piped.map (·.1)) →
      Withdraws first c (client.setEach exptime latch piped items) (·.map (·.1))
  | [], _, _, h => Call.withdraws_pure h
  | (key, value) :: items, piped, _, h => by
    refine Call.withdraws_join h latch _ _ fun {completion op c'} h' => ?_
    refine withdraws_setEach client exptime latch items _ ?_
    rw [List.map_append]
    exact h'

theorem withdraws_askShards (query : List String → RangeQuery) (answer latch : Nat) :
    ∀ (shards : List ShardKeys) (queued : List Nat) {c : Cluster}, c.Drafted first queued →
      Withdraws first c (askShards query answer latch queued shards) fun ops => ops
  | [], _, _, h => Call.withdraws_pure h
  | shard :: shards, _, _, h => Call.withdraws_hand h _ _ shard.node fun h' =>
    withdraws_askShards query answer latch shards _ h'

/-! ## The calls -/

/-- The calls that go to many nodes. -/
inductive FanOut where
  | flush (delay : UInt32)
  /-- Of a call for versions only what is done before the first wait. -/
  | versions
  | getBulk {α : Type} (keys : List String) (t : Transcoder α)
  | storeBulk {α : Type} (encode : α → Except CacheError StoredValue) (items : List (String × α))
    (exptime : UInt32)
  | sortedGet {α : Type} (keys : List String) (range : KeyRange) (count : UInt64) (unique : Bool)
    (t : Transcoder α)
  | sortedGetPage {α : Type} (keys : List String) (range : KeyRange) (offset count : UInt64)
    (unique : Bool) (t : Transcoder α)

/-- A call of which only its success matters. -/
def bare {α : Type} (call : Call α) : Call Unit := fun c => ((call c).1, (call c).2.map fun _ => ())

/-- The call, up to the last submission. -/
def launch (client : Client) : FanOut → Call Unit
  | .flush delay => bare (client.flush delay)
  | .versions => bare (client.askVersions [] client.nodes)
  | .getBulk keys t => bare (client.getBulk keys t)
  | .storeBulk encode items exptime => bare (client.storeBulk encode items exptime)
  | .sortedGet keys range count unique t => bare (client.sortedGet keys range count unique t)
  | .sortedGetPage keys range offset count unique t =>
    bare (client.sortedGetPage keys range offset count unique t)

/-- Whether the keys and counts of a sorted multi-get can be used. -/
def sortedGetValidity (keys : List String) (offset count : UInt64) : Except CacheError Unit :=
  match sortedGetFlaw? keys offset count with
  | some flaw => .error flaw.error
  | none => .ok ()

/-- Whether what is asked for can be asked for: its keys and counts can be used, and its values can be
stored. -/
def FanOut.validity : FanOut → Except CacheError Unit
  | .flush _ | .versions => .ok ()
  | .getBulk keys _ => keys.eraseDups.forM validateKey
  | .storeBulk encode items _ => (encodeEach encode items).map fun _ => ()
  | .sortedGet keys _ count _ _ => sortedGetValidity keys 0 count
  | .sortedGetPage keys _ offset count _ _ => sortedGetValidity keys offset count

/-- Checks that are made one after the other fail as the first that fails. -/
theorem forM_check {β : Type} (result : β → Except CacheError Unit) (bs : List β) (c : Cluster) :
    (bs.forM fun b => Call.check (result b)) c = (c, bs.forM result) := by
  induction bs with
  | nil => rfl
  | cons b bs ih =>
    change Call.bind (Call.check (result b)) (fun _ => bs.forM fun b => Call.check (result b)) c =
      (c, result b >>= fun _ => bs.forM result)
    rw [Call.bind, Call.check]
    cases hb : result b with
    | error error => rfl
    | ok => exact ih

theorem validateKey_of_encodeEach {encode : α → Except CacheError StoredValue} :
    ∀ {items : List (String × α)} {encoded : List (String × StoredValue)},
      encodeEach encode items = .ok encoded → ∀ item ∈ encoded, validateKey item.1 = .ok ()
  | [], _, h => by
    cases h
    exact List.forall_mem_nil _
  | (key, value) :: items, encoded, h => by
    rw [encodeEach] at h
    cases hkey : validateKey key with
    | error error => rw [hkey] at h; cases h
    | ok =>
      cases hvalue : encode value with
      | error error => rw [hkey, hvalue] at h; cases h
      | ok stored =>
        cases hrest : encodeEach encode items with
        | error error => rw [hkey, hvalue, hrest] at h; cases h
        | ok rest =>
          rw [hkey, hvalue, hrest] at h
          cases h
          exact List.forall_mem_cons.2 ⟨hkey, validateKey_of_encodeEach hrest⟩

theorem forM_ok {β : Type} {result : β → Except CacheError Unit} {bs : List β}
    (h : ∀ b ∈ bs, result b = .ok ()) : bs.forM result = .ok () := by
  induction bs with
  | nil => rfl
  | cons b bs ih =>
    obtain ⟨hb, hrest⟩ := List.forall_mem_cons.1 h
    change (result b >>= fun _ => bs.forM result) = _
    rw [hb]
    exact ih hrest

section Launch

variable (client : Client) (halarms : c.alarms = []) (hdeferred : c.deferred = [])

include halarms hdeferred

theorem withdraws_forM {β : Type} {result : β → Except CacheError Unit} {bs : List β}
    (hvalid : bs.forM result = .ok ()) :
    Withdraws c.engine.size c (bs.forM fun b => Call.check (result b)) fun _ => [] := by
  constructor <;> rw [forM_check, hvalid]
  · exact fun _ => Cluster.drafted_nil halarms hdeferred
  · exact fun herror => by cases herror

theorem withdraws_flush (delay : UInt32) :
    Withdraws c.engine.size c (client.flush delay) (·.operations) := by
  have h := Cluster.drafted_nil halarms hdeferred
  unfold flush
  refine (Call.withdraws_change h rfl rfl rfl).bind fun {latch c₁} h₁ => ?_
  refine (Call.withdraws_change h₁ rfl rfl rfl).bind fun {completion c₂} h₂ => ?_
  refine (Call.withdraws_change h₂ rfl rfl rfl).bind fun {multiplexer c₃} h₃ => ?_
  refine (withdraws_flushEach delay _ client.nodes [] h₃).bind fun {ops c₄} h₄ => ?_
  exact Call.withdraws_pure h₄

theorem withdraws_getBulk {keys : List String} (hvalid : keys.eraseDups.forM validateKey = .ok ())
    (t : Transcoder α) :
    Withdraws c.engine.size c (client.getBulk keys t) (·.entries.map (·.operation)) := by
  unfold getBulk
  refine (withdraws_forM halarms hdeferred hvalid).bind fun {_ c₁} h₁ => ?_
  refine (Call.withdraws_change h₁ rfl rfl rfl).bind fun {latch c₂} h₂ => ?_
  refine (withdraws_getEach client latch _ [] h₂).bind fun {entries c₃} h₃ => ?_
  exact Call.withdraws_pure h₃

theorem withdraws_setBulk {items : List (String × StoredValue)}
    (hvalid : ∀ item ∈ items, validateKey item.1 = .ok ()) (exptime : UInt32) :
    Withdraws c.engine.size c (client.setBulk items exptime) (·.items.map (·.1)) := by
  unfold setBulk
  refine (withdraws_forM halarms hdeferred (forM_ok hvalid)).bind fun {_ c₁} h₁ => ?_
  refine (Call.withdraws_change h₁ rfl rfl rfl).bind fun {latch c₂} h₂ => ?_
  refine (withdraws_setEach client exptime latch items [] h₂).bind fun {piped c₃} h₃ => ?_
  exact Call.withdraws_pure h₃

theorem withdraws_fanOut (keys : List String) (query : List String → RangeQuery)
    (answer : Answer StoredValue) (policy : String) (t : Transcoder α) :
    Withdraws c.engine.size c (client.fanOut keys query answer policy t) (·.operations) := by
  have h := Cluster.drafted_nil halarms hdeferred
  let shards := client.groupByNode c keys
  suffices hcall : Withdraws c.engine.size (c.mapMetrics (·.observeShards policy shards.length))
      (Call.latch shards.length >>= fun latch => Call.answer answer >>= fun id =>
        askShards query id latch [] shards >>= fun operations => pure
          ({ operations, answer := id, latch, timeout := client.config.opTimeout, transcoder := t } :
            SortedGetFuture α)) (·.operations) from ⟨hcall.drafted, hcall.fails⟩
  have hobserved : Cluster.Drafted (c.mapMetrics (·.observeShards policy shards.length))
      c.engine.size [] := h.of_operations rfl rfl rfl
  refine (Call.withdraws_change hobserved rfl rfl rfl).bind fun {latch c₁} h₁ => ?_
  refine (Call.withdraws_change h₁ rfl rfl rfl).bind fun {id c₂} h₂ => ?_
  refine (withdraws_askShards query id latch shards [] h₂).bind fun {ops c₃} h₃ => ?_
  exact Call.withdraws_pure h₃

theorem withdraws_storeBulk {encode : α → Except CacheError StoredValue} {items : List (String × α)}
    (hvalid : (encodeEach encode items).map (fun _ => ()) = .ok ()) (exptime : UInt32) :
    Withdraws c.engine.size c (client.storeBulk encode items exptime) (·.items.map (·.1)) := by
  cases hencoded : encodeEach encode items with
  | error error =>
    rw [hencoded] at hvalid
    cases hvalid
  | ok encoded =>
    have hcall : client.storeBulk encode items exptime c = client.setBulk encoded exptime c := by
      rw [storeBulk, hencoded]
    exact (withdraws_setBulk client halarms hdeferred (validateKey_of_encodeEach hencoded) exptime).congr
      hcall

theorem withdraws_sortedGet {keys : List String} {count : UInt64}
    (hvalid : sortedGetValidity keys 0 count = .ok ()) (range : KeyRange) (unique : Bool)
    (t : Transcoder α) :
    Withdraws c.engine.size c (client.sortedGet keys range count unique t) (·.operations) := by
  unfold sortedGetValidity at hvalid
  split at hvalid
  · cases hvalid
  · next hnone =>
    rw [sortedGet, hnone]
    exact withdraws_fanOut client halarms hdeferred keys _ _ _ t

theorem withdraws_sortedGetPage {keys : List String} {offset count : UInt64}
    (hvalid : sortedGetValidity keys offset count = .ok ()) (range : KeyRange) (unique : Bool)
    (t : Transcoder α) :
    Withdraws c.engine.size c (client.sortedGetPage keys range offset count unique t)
      (·.operations) := by
  unfold sortedGetValidity at hvalid
  split at hvalid
  · cases hvalid
  · next hnone =>
    rw [client.sortedGetPage_of_valid hnone]
    exact withdraws_fanOut client halarms hdeferred keys _ _ _ t

end Launch

/-! ## Calls that ask in vain -/

theorem getBulk_of_invalid (client : Client) {keys : List String} {flaw : CacheError}
    (hflaw : keys.eraseDups.forM validateKey = .error flaw) (t : Transcoder α) (c : Cluster) :
    client.getBulk keys t c = (c, .error flaw) := by
  rw [getBulk]
  change Call.bind _ _ c = _
  rw [Call.bind, forM_check, hflaw]

theorem storeBulk_of_invalid (client : Client) {encode : α → Except CacheError StoredValue}
    {items : List (String × α)} {flaw : CacheError}
    (hflaw : (encodeEach encode items).map (fun _ => ()) = .error flaw) (exptime : UInt32)
    (c : Cluster) : client.storeBulk encode items exptime c = (c, .error flaw) := by
  cases hencoded : encodeEach encode items with
  | error error =>
    rw [hencoded] at hflaw
    cases hflaw
    rw [storeBulk, hencoded]
  | ok encoded =>
    rw [hencoded] at hflaw
    cases hflaw

theorem sortedGet_of_invalid (client : Client) {keys : List String} {count : UInt64}
    {flaw : CacheError} (hflaw : sortedGetValidity keys 0 count = .error flaw) (range : KeyRange)
    (unique : Bool) (t : Transcoder α) (c : Cluster) :
    client.sortedGet keys range count unique t c = (c, .error flaw) := by
  unfold sortedGetValidity at hflaw
  split at hflaw
  · next hsome =>
    cases hflaw
    rw [sortedGet, hsome]
    rfl
  · cases hflaw

theorem sortedGetPage_of_invalid (client : Client) {keys : List String} {offset count : UInt64}
    {flaw : CacheError} (hflaw : sortedGetValidity keys offset count = .error flaw) (range : KeyRange)
    (unique : Bool) (t : Transcoder α) (c : Cluster) :
    client.sortedGetPage keys range offset count unique t c = (c, .error flaw) := by
  unfold sortedGetValidity at hflaw
  split at hflaw
  · next hsome =>
    cases hflaw
    rw [sortedGetPage, hsome]
    rfl
  · cases hflaw

/-! ## Failed calls -/

theorem failed_of_bare {x : Call α} {error : CacheError} (h : (bare x c).2 = .error error) :
    (x c).2 = .error error := by
  cases hx : (x c).2 with
  | error error' =>
    rw [bare, hx] at h
    cases h
    rfl
  | ok a =>
    rw [bare, hx] at h
    cases h

/-- What is asked for in vain fails before anything is done. Otherwise a call fails as some node turns
an operation away, and takes back all it has made. -/
theorem launch_failed (client : Client) (fan : FanOut) (halarms : c.alarms = [])
    (hdeferred : c.deferred = []) {error : CacheError} (hfail : (client.launch fan c).2 = .error error) :
    match fan.validity with
    | .error flaw => error = flaw ∧ (client.launch fan c).1 = c
    | .ok () => (client.launch fan c).1.Withdrawn c.engine.size ∧
        (client.launch fan c).1.TurnsAway error := by
  have hcases : ∀ {β : Type} {x : Call β} {made : β → List Nat} {validity : Except CacheError Unit},
      (validity = .ok () → Withdraws c.engine.size c x made) →
      (∀ {flaw}, validity = .error flaw → x c = (c, .error flaw)) →
      (bare x c).2 = .error error →
      match validity with
      | .error flaw => error = flaw ∧ (bare x c).1 = c
      | .ok () => (bare x c).1.Withdrawn c.engine.size ∧ (bare x c).1.TurnsAway error := by
    intro β x made validity hvalid hinvalid hfailed
    have hfailed := failed_of_bare hfailed
    cases validity with
    | error flaw =>
      have hcall := hinvalid rfl
      rw [hcall] at hfailed
      cases hfailed
      exact ⟨rfl, congrArg Prod.fst hcall⟩
    | ok => exact (hvalid rfl).fails hfailed
  have hnever : ∀ {β : Type} {x : Call β} {flaw : CacheError},
      (Except.ok () : Except CacheError Unit) = .error flaw → x c = (c, .error flaw) :=
    fun hflaw => by cases hflaw
  cases fan with
  | flush delay =>
    exact hcases (fun _ => withdraws_flush client halarms hdeferred delay) hnever hfail
  | versions =>
    exact hcases (fun _ => withdraws_askVersions client client.nodes []
      (Cluster.drafted_nil halarms hdeferred)) hnever hfail
  | getBulk keys t =>
    exact hcases (fun hvalid => withdraws_getBulk client halarms hdeferred hvalid t)
      (fun hflaw => client.getBulk_of_invalid hflaw t c) hfail
  | storeBulk encode items exptime =>
    exact hcases (fun hvalid => withdraws_storeBulk client halarms hdeferred hvalid exptime)
      (fun hflaw => client.storeBulk_of_invalid hflaw exptime c) hfail
  | sortedGet keys range count unique t =>
    exact hcases (fun hvalid => withdraws_sortedGet client halarms hdeferred hvalid range unique t)
      (fun hflaw => client.sortedGet_of_invalid hflaw range unique t c) hfail
  | sortedGetPage keys range offset count unique t =>
    exact hcases (fun hvalid => withdraws_sortedGetPage client halarms hdeferred hvalid range unique t)
      (fun hflaw => client.sortedGetPage_of_invalid hflaw range unique t c) hfail

theorem leads_launch {since : Outline} {client : Client} (h : c.Regular since)
    (hplaced : client.Placed c) (fan : FanOut) : Leads since c (client.launch fan c).1 := by
  cases fan with
  | flush delay => exact (yields_flush h hplaced delay).leads
  | versions => exact (leads_askVersions client client.nodes [] h hplaced.there).leads
  | getBulk keys t => exact (yields_getBulk h hplaced keys t).leads
  | storeBulk encode items exptime =>
    cases hencoded : encodeEach encode items with
    | error error =>
      rw [launch, bare, storeBulk, hencoded]
      exact h.leads_refl
    | ok encoded =>
      rw [launch, bare, storeBulk, hencoded]
      exact (yields_setBulk h hplaced encoded exptime).leads
  | sortedGet keys range count unique t =>
    exact (yields_sortedGet h hplaced keys range count unique t).leads
  | sortedGetPage keys range offset count unique t =>
    exact (yields_sortedGetPage h hplaced keys range offset count unique t).leads

/-- No batch is made of what has been withdrawn, as none was made by the call. -/
theorem shelved_of_withdrawn {since : Outline} {c' : Cluster} (hled : Leads since c c')
    (h : c'.Withdrawn c.engine.size) {id : Nat} (hle : c.engine.size ≤ id)
    (hlt : id < c'.engine.size) : c'.engine.Shelved id := by
  refine ⟨(h id hle hlt).2, fun b hb => ?_⟩
  by_cases hold : b < c.engine.size
  · -- a batch is younger than its members
    rw [hled.goes.follows.members_eq hold] at hb
    have hm := (hled.start.proper.orderly.sound.flat b id hb).1
    omega
  · by_cases hb' : b < c'.engine.size
    · rw [Engine.members_of_isSingle (h b (Nat.le_of_not_lt hold) hb').1] at hb
      cases hb
    · rw [Engine.members, Engine.get?_eq_none_iff.2 (Nat.le_of_not_lt hb')] at hb
      cases hb

/-- **A call that goes to many nodes and fails leaves nothing behind.** All operations that it made have
ended, and whatever happens later, no connection ever copies a byte of any of them into its write
buffer, neither for the operation itself nor for a batch that it is in. If what was asked for could not
be asked for, nothing at all has changed; otherwise some node turns operations away. -/
theorem failed_leaves_nothing {client : Client} {fan : FanOut} {c' : Cluster} {error : CacheError}
    (hreach : c.Reachable) (hplaced : client.Placed c)
    (hfail : client.launch fan c = (c', .error error)) :
    (∀ id, c.engine.size ≤ id → id < c'.engine.size →
      c'.engine.isTerminal id ∧
      ∀ s, c'.Later s → ∀ node state event, ∀ p ∈ Connection.copies s node state event,
        id ∉ p.owner :: (Connection.step s node state event).1.engine.members p.owner) ∧
    match fan.validity with
    | .error flaw => error = flaw ∧ c' = c
    | .ok () => c'.TurnsAway error := by
  have hregular := (hreach.leads Cluster.regular_empty).regular
  have hled := leads_launch hregular hplaced fan
  have hfailed := client.launch_failed fan hregular.alarms hregular.deferred
    (congrArg Prod.snd hfail)
  rw [hfail] at hled hfailed
  cases hvalidity : fan.validity with
  | error flaw =>
    rw [hvalidity] at hfailed
    obtain ⟨rfl, rfl⟩ := hfailed
    exact ⟨fun id hle hlt => absurd hlt (Nat.not_lt.2 hle), rfl, rfl⟩
  | ok =>
    rw [hvalidity] at hfailed
    obtain ⟨hwithdrawn, hrefused⟩ := hfailed
    refine ⟨fun id hle hlt => ⟨?_, fun s hlater node state event => ?_⟩, hrefused⟩
    · exact Engine.isTerminal_of_lapsed (hwithdrawn id hle hlt).2
    · have hlaterLed := hlater.leads hled.regular
      exact Connection.copies_spare hlaterLed.regular node state event
        (hlaterLed.shelved (shelved_of_withdrawn hled hwithdrawn hle hlt))

/-- A client of one node that takes in one operation at a time. -/
def narrowNode : Cluster × Client := ofConfig { inputQueueCapacity := 1 } {}

/-- Two keys of a node that has room for one: the get for the first is taken back. -/
theorem failed_leaves_nothing_of_full : ∃ c' : Cluster,
    narrowNode.1.Reachable ∧ narrowNode.2.Placed narrowNode.1 ∧
    narrowNode.2.launch (.getBulk ["a", "b"] .bytes) narrowNode.1 =
      (c', .error (.queueFull "127.0.0.1:11211")) ∧
    c'.engine.size = 2 ∧ (∀ id < 2, c'.engine.isTerminal id) ∧
    ∀ s, c'.Later s → ∀ node state event, ∀ p ∈ Connection.copies s node state event, p.owner ≠ 0 := by
  obtain ⟨hreach, hplaced⟩ : narrowNode.1.Reachable ∧ narrowNode.2.Placed narrowNode.1 :=
    Future.connected_ofConfig (by simp [Config.flaw?, Config.sizes, String.contains])
  obtain ⟨c', hc'⟩ : ∃ c', c' = (narrowNode.2.launch (.getBulk ["a", "b"] .bytes) narrowNode.1).1 :=
    ⟨_, rfl⟩
  have herror : (narrowNode.2.launch (.getBulk ["a", "b"] .bytes) narrowNode.1).2 =
      .error (.queueFull "127.0.0.1:11211") := rfl
  have hfail : narrowNode.2.launch (.getBulk ["a", "b"] .bytes) narrowNode.1 =
      (c', .error (.queueFull "127.0.0.1:11211")) := Prod.ext hc'.symm herror
  obtain ⟨hbehind, -⟩ := failed_leaves_nothing hreach hplaced hfail
  have hold : narrowNode.1.engine.size = 0 := by decide +kernel
  have hsize : c'.engine.size = 2 := by
    rw [hc']
    decide +kernel
  refine ⟨c', hreach, hplaced, hfail, hsize, fun id hid => ?_, fun s hlater node state event p hp => ?_⟩
  · exact (hbehind id (hold ▸ Nat.zero_le id) (hsize.symm ▸ hid)).1
  · have hspared := (hbehind 0 (hold ▸ Nat.le_refl 0) (hsize.symm ▸ by decide)).2 s hlater node state
      event p hp
    intro howner
    rw [howner] at hspared
    exact hspared List.mem_cons_self

end Client

end ShardedCache

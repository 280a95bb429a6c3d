import Mathlib.Data.List.Nodup
import ShardedCache.Proofs.Future.Reading

/-!
# What reading many keys comes to

A bulk future decodes the value of a key when it is first read and keeps it. As long as what it has
kept is what it would decode now (`BulkFuture.Faithful`), keeping makes no difference: reading in full
gives the values that can be decoded, or the first error (`BulkFuture.collect_eq`), and reading in part
gives the values that can be decoded of those that have arrived (`BulkFuture.collectSome_eq`).
-/

namespace ShardedCache

/-! ## Maps -/

namespace KeyMap

variable {α : Type}

@[simp] theorem get?_nil (key : String) : get? ([] : KeyMap α) key = none := rfl

theorem get?_cons (k : String) (v : α) (m : KeyMap α) (key : String) :
    get? ((k, v) :: m) key = if key = k then some v else get? m key := by
  rw [get?, List.lookup_cons]
  by_cases h : key = k
  · rw [beq_iff_eq.2 h, if_pos h]
  · rw [beq_eq_false_iff_ne.2 h, if_neg h]
    rfl

theorem get?_insert (m : KeyMap α) (k : String) (v : α) (key : String) :
    get? (insert m k v) key = if key = k then some v else get? m key := by
  induction m with
  | nil => exact get?_cons k v [] key
  | cons pair m ih =>
    obtain ⟨k', v'⟩ := pair
    unfold insert
    split
    · next heq =>
      rw [get?_cons, get?_cons, heq]
      split <;> rfl
    · next hne =>
      rw [get?_cons, get?_cons, ih]
      by_cases hkey : key = k'
      · rw [if_pos hkey, if_pos hkey, if_neg fun h => hne (hkey.symm.trans h)]
      · rw [if_neg hkey, if_neg hkey]

/-- What is new goes to the end. -/
theorem insert_of_not_mem {m : KeyMap α} {k : String} (h : k ∉ m.map (·.1)) (v : α) :
    insert m k v = m ++ [(k, v)] := by
  induction m with
  | nil => rfl
  | cons pair m ih =>
    simp only [List.map_cons, List.mem_cons, not_or] at h
    rw [insert, if_neg (Ne.symm h.1), ih h.2]
    rfl

end KeyMap

namespace Transcoder

variable {α : Type}

/-! ## What there is to read -/

/-- What the value that has arrived for an entry decodes to. -/
def arrived (t : Transcoder α) (e : Engine) (entry : BulkEntry) : Option (Except CacheError α) :=
  (e.reports.completion entry.completion).value?.map fun value => t.decode value.1

/-- The values that can be decoded. -/
def hits (t : Transcoder α) (e : Engine) (entries : List BulkEntry) : KeyMap α :=
  entries.filterMap fun entry =>
    match t.arrived e entry with
    | some (.ok value) => some (entry.key, value)
    | _ => none

/-- Why the first value that cannot be decoded cannot. -/
def flaw? (t : Transcoder α) (e : Engine) (entries : List BulkEntry) : Option CacheError :=
  entries.findSome? fun entry =>
    match t.arrived e entry with
    | some (.error error) => some error
    | _ => none

/-- All values, or the first error. -/
def whole (t : Transcoder α) (e : Engine) (entries : List BulkEntry) :
    Except CacheError (KeyMap α) :=
  match t.flaw? e entries with
  | some error => .error error
  | none => .ok (t.hits e entries)

variable {t : Transcoder α} {e : Engine} {entries : List BulkEntry}

theorem hits_cons (entry : BulkEntry) (entries : List BulkEntry) :
    t.hits e (entry :: entries) = match t.arrived e entry with
      | some (.ok value) => (entry.key, value) :: t.hits e entries
      | _ => t.hits e entries := by
  rw [hits, List.filterMap_cons]
  rcases t.arrived e entry with - | (error | value) <;> rfl

theorem flaw?_cons (entry : BulkEntry) (entries : List BulkEntry) :
    t.flaw? e (entry :: entries) = match t.arrived e entry with
      | some (.error error) => some error
      | _ => t.flaw? e entries := by
  rw [flaw?, List.findSome?_cons]
  rcases t.arrived e entry with - | (error | value) <;> rfl

theorem flaw?_isSome : (t.flaw? e entries).isSome ↔
    ∃ entry ∈ entries, ∃ error, t.arrived e entry = some (.error error) := by
  rw [flaw?, List.findSome?_isSome_iff]
  refine exists_congr fun entry => and_congr_right fun _ => ?_
  rcases t.arrived e entry with - | (error | value) <;> simp

section Congr

variable {e' : Engine} (h : ∀ entry ∈ entries, t.arrived e' entry = t.arrived e entry)

include h

theorem hits_congr : t.hits e' entries = t.hits e entries :=
  List.filterMap_congr fun entry hentry => by rw [h entry hentry]

theorem flaw?_congr : t.flaw? e' entries = t.flaw? e entries := by
  induction entries with
  | nil => rfl
  | cons entry entries ih =>
    rw [flaw?_cons, flaw?_cons, h entry (by simp), ih fun x hx => h x (by simp [hx])]

end Congr

theorem hits_filter_of_all (h : ∀ entry ∈ entries, e.isTerminal entry.operation) :
    t.hits e (entries.filter fun entry => e.isTerminal entry.operation) = t.hits e entries := by
  rw [List.filter_eq_self.2 h]

end Transcoder

namespace BulkFuture

variable {α : Type} {f : BulkFuture α} {c : Cluster} {entry : BulkEntry}

/-! ## What is kept -/

/-- What is kept for a key is what has arrived for it, from an operation that has ended. -/
def Faithful (f : BulkFuture α) (e : Engine) : Prop :=
  ∀ key value, KeyMap.get? f.decoded key = some value → ∃ entry ∈ f.entries,
    entry.key = key ∧ e.isTerminal entry.operation ∧ f.transcoder.arrived e entry = some (.ok value)

theorem faithful_of_nil (h : f.decoded = []) (e : Engine) : f.Faithful e := by
  intro key value hkept
  rw [h] at hkept
  cases hkept

section Keys

variable (hkeys : f.keys.Nodup) (hfaithful : f.Faithful c.engine)

include hkeys

theorem eq_of_key_eq {entry' : BulkEntry} (h : entry ∈ f.entries) (h' : entry' ∈ f.entries)
    (hkey : entry'.key = entry.key) : entry' = entry :=
  List.inj_on_of_nodup_map hkeys h' h hkey

include hfaithful

/-- Reading the value of an operation that has ended. -/
theorem valueOf_eq (hentry : entry ∈ f.entries) (hend : c.engine.isTerminal entry.operation) :
    ∃ decoded, f.valueOf c entry =
        ({ f with decoded }, ((f.transcoder.arrived c.engine entry).elim (.ok none) (·.map some))) ∧
      Faithful { f with decoded } c.engine := by
  unfold valueOf
  cases hkept : KeyMap.get? f.decoded entry.key with
  | some value =>
    obtain ⟨entry', hentry', hkey, -, harrived⟩ := hfaithful _ _ hkept
    rw [eq_of_key_eq hkeys hentry hentry' hkey] at harrived
    exact ⟨f.decoded, by rw [harrived]; rfl, hfaithful⟩
  | none =>
    dsimp only
    cases hvalue : (c.engine.reports.completion entry.completion).value? with
    | none => exact ⟨f.decoded, by simp [Transcoder.arrived, hvalue], hfaithful⟩
    | some pair =>
      obtain ⟨data, version⟩ := pair
      dsimp only
      have harrived : f.transcoder.arrived c.engine entry = some (f.transcoder.decode data) := by
        simp [Transcoder.arrived, hvalue]
      cases hdecode : f.transcoder.decode data with
      | error error =>
        refine ⟨f.decoded, ?_, hfaithful⟩
        rw [harrived, hdecode]
        rfl
      | ok value =>
        rw [hdecode] at harrived
        refine ⟨KeyMap.insert f.decoded entry.key value, by rw [harrived]; rfl, fun key value' h => ?_⟩
        rw [KeyMap.get?_insert] at h
        split at h
        · next hkey =>
          cases h
          exact ⟨entry, hentry, hkey.symm, hend, harrived⟩
        · exact hfaithful key value' h

end Keys

/-- The keys that have been found are not asked for again. -/
theorem not_mem_concat {found : KeyMap α} {rest : List BulkEntry} {value : α}
    (hnodup : ((entry :: rest).map (·.key)).Nodup)
    (hfound : ∀ x ∈ entry :: rest, x.key ∉ found.map (·.1)) :
    ∀ x ∈ rest, x.key ∉ (found ++ [(entry.key, value)]).map (·.1) := by
  intro x hx hmem
  rw [List.map_append] at hmem
  rcases List.mem_append.1 hmem with hmem | hmem
  · exact hfound x (by simp [hx]) hmem
  · rw [List.map_cons, List.map_nil, List.mem_singleton] at hmem
    rw [List.map_cons, List.nodup_cons] at hnodup
    exact hnodup.1 (List.mem_map.2 ⟨x, hx, hmem⟩)

/-- **Reading in full.** -/
theorem collect_eq : ∀ (rest : List BulkEntry) (found : KeyMap α) {f : BulkFuture α},
    f.keys.Nodup → f.Faithful c.engine → rest ⊆ f.entries → (rest.map (·.key)).Nodup →
    (∀ entry ∈ rest, c.engine.isTerminal entry.operation) →
    (∀ entry ∈ rest, entry.key ∉ found.map (·.1)) →
    ∃ decoded, collect c rest found f = ({ f with decoded },
        match f.transcoder.flaw? c.engine rest with
        | some error => .error error
        | none => .ok (found ++ f.transcoder.hits c.engine rest)) ∧
      Faithful { f with decoded } c.engine
  | [], found, f, _, hfaithful, _, _, _, _ =>
    ⟨f.decoded, by simp [collect, Transcoder.flaw?, Transcoder.hits], hfaithful⟩
  | entry :: rest, found, f, hkeys, hfaithful, hsub, hnodup, hends, hfound => by
    have hentry : entry ∈ f.entries := hsub List.mem_cons_self
    have hrest : rest ⊆ f.entries := fun x hx => hsub (List.mem_cons_of_mem _ hx)
    have hnodup' : (rest.map (·.key)).Nodup := (List.nodup_cons.1 hnodup).2
    have hends' : ∀ x ∈ rest, c.engine.isTerminal x.operation := fun x hx => hends x (by simp [hx])
    obtain ⟨decoded, hvalue, hfaithful'⟩ :=
      valueOf_eq hkeys hfaithful hentry (hends entry List.mem_cons_self)
    rw [collect, hvalue, Transcoder.flaw?_cons, Transcoder.hits_cons]
    cases harrived : f.transcoder.arrived c.engine entry with
    | none =>
      exact collect_eq rest found (f := { f with decoded }) hkeys hfaithful' hrest hnodup' hends'
        fun x hx => hfound x (by simp [hx])
    | some result =>
      cases result with
      | error error => exact ⟨decoded, rfl, hfaithful'⟩
      | ok value =>
        obtain ⟨decoded', hcollect, hfaithful''⟩ := collect_eq rest (found ++ [(entry.key, value)])
          (f := { f with decoded }) hkeys hfaithful' hrest hnodup' hends' (not_mem_concat hnodup hfound)
        refine ⟨decoded', ?_, hfaithful''⟩
        simp only [Option.elim_some, Except.map]
        rw [KeyMap.insert_of_not_mem (hfound entry List.mem_cons_self), hcollect, List.append_assoc]
        rfl

/-- **Reading in part.** -/
theorem collectSome_eq : ∀ (rest : List BulkEntry) (found : KeyMap α) {f : BulkFuture α},
    f.keys.Nodup → f.Faithful c.engine → rest ⊆ f.entries → (rest.map (·.key)).Nodup →
    (∀ entry ∈ rest, entry.key ∉ found.map (·.1)) →
    ∃ decoded, collectSome c rest found f = ({ f with decoded },
        found ++ f.transcoder.hits c.engine (rest.filter fun entry => c.engine.isTerminal entry.operation)) ∧
      Faithful { f with decoded } c.engine
  | [], found, f, _, hfaithful, _, _, _ => ⟨f.decoded, by simp [collectSome, Transcoder.hits], hfaithful⟩
  | entry :: rest, found, f, hkeys, hfaithful, hsub, hnodup, hfound => by
    have hentry : entry ∈ f.entries := hsub List.mem_cons_self
    have hrest : rest ⊆ f.entries := fun x hx => hsub (List.mem_cons_of_mem _ hx)
    have hnodup' : (rest.map (·.key)).Nodup := (List.nodup_cons.1 hnodup).2
    have hfound' : ∀ x ∈ rest, x.key ∉ found.map (·.1) := fun x hx => hfound x (by simp [hx])
    rw [collectSome, List.filter_cons]
    by_cases hend : c.engine.isTerminal entry.operation
    · obtain ⟨decoded, hvalue, hfaithful'⟩ := valueOf_eq hkeys hfaithful hentry hend
      rw [hvalue, hend, if_neg (by simp), if_pos rfl, Transcoder.hits_cons]
      cases harrived : f.transcoder.arrived c.engine entry with
      | none =>
        exact collectSome_eq rest found (f := { f with decoded }) hkeys hfaithful' hrest hnodup' hfound'
      | some result =>
        cases result with
        | error error =>
          exact collectSome_eq rest found (f := { f with decoded }) hkeys hfaithful' hrest hnodup'
            hfound'
        | ok value =>
          obtain ⟨decoded', hcollect, hfaithful''⟩ := collectSome_eq rest
            (found ++ [(entry.key, value)]) (f := { f with decoded }) hkeys hfaithful' hrest hnodup'
            (not_mem_concat hnodup hfound)
          refine ⟨decoded', ?_, hfaithful''⟩
          simp only [Option.elim_some, Except.map]
          rw [KeyMap.insert_of_not_mem (hfound entry List.mem_cons_self), hcollect, List.append_assoc]
          rfl
    · rw [if_pos (by simp [hend]), if_neg hend]
      exact collectSome_eq rest found hkeys hfaithful hrest hnodup' hfound'

end BulkFuture

end ShardedCache

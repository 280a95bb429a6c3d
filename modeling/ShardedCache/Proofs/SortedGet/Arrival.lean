import ShardedCache.Proofs.SortedGet.TrimReport
import ShardedCache.Reports

/-!
# Shards that answer in any order

The shards of a sorted multi-get report to one answer, and the network decides in which order. A hard
failure settles the answer for good, and what comes after it is not heard (`Answer.Failed`). Otherwise
the answer gathers the slices and the missed keys in the order of their arrival (`Answer.gathered`).
That order shows at most in which of the elements with one order key is kept, so the order keys, the
verdict, the missed keys and the trim marks are the same for all orders
(`Reports.concluded_of_arrival`).
-/

namespace ShardedCache

open Wire (Status)

namespace SortedGet

open OrderKey (Before)

/-- One event that a shard's operation reports to its callback. -/
structure ShardEvent where
  teller : Teller
  /-- What was asked of the shard. -/
  keys : List String
  latch : Nat
  event : Event

namespace ShardEvent

/-- The slice that the event brings. -/
def slice? (e : ShardEvent) : Option (ShardSlice StoredValue) :=
  match e.event with
  | .payload (.sortRange slice) => some slice
  | _ => none

/-- What the event says is missed. -/
def missed (e : ShardEvent) : List (String × Status) :=
  match e.event with
  | .payload (.sortRange slice) => slice.missed
  | .status s => if s.code = .notFound then e.keys.map (·, s) else []
  | _ => []

/-- The hard failure that the event reports. -/
def failure? (e : ShardEvent) : Option Status :=
  match e.event with
  | .status s => if s.code = .success ∨ s.code = .notFound then none else some s
  | _ => none

end ShardEvent

/-- How a shard's operation ended: with a slice, or with nothing but a status. -/
inductive ShardOutcome where
  | found (slice : ShardSlice StoredValue)
  | ended (status : Status)

structure ShardReport where
  teller : Teller
  keys : List String
  latch : Nat
  outcome : ShardOutcome

/-- The events of a report, in order. -/
def ShardReport.events (p : ShardReport) : List ShardEvent :=
  let events : List Event := match p.outcome with
    | .found slice => [.payload (.sortRange slice), .status .success, .finished]
    | .ended status => [.status status, .finished]
  events.map (⟨p.teller, p.keys, p.latch, ·⟩)

theorem ShardReport.outcome_of_slice {p : ShardReport} {e : ShardEvent}
    {slice : ShardSlice StoredValue} (he : e ∈ p.events) (h : e.slice? = some slice) :
    p.outcome = .found slice := by
  unfold events at he
  cases hp : p.outcome <;> simp [hp] at he <;> rcases he with rfl | rfl | rfl <;>
    simp_all [ShardEvent.slice?]

/-! ## What an answer hears -/

namespace Answer

/-- What a shard's event does to the answer. -/
def hear (a : Answer StoredValue) (e : ShardEvent) : Answer StoredValue :=
  match e.event with
  | .payload (.sortRange slice) => a.addSlice slice
  | .status s =>
    match s.code with
    | .success => a
    | .notFound => a.addMissed e.keys s
    | _ => a.fail s
  | _ => a

def hearAll (a : Answer StoredValue) (events : List ShardEvent) : Answer StoredValue :=
  events.foldl hear a

variable {a : Answer StoredValue} {e : ShardEvent} {events : List ShardEvent} {reverse : Bool}

/-- What a status does depends on whether it is a hard failure. -/
theorem hear_status {s : Status} (h : e.event = .status s) : a.hear e =
    match e.failure? with
    | some failure => a.fail failure
    | none => if s.code = .notFound then a.addMissed e.keys s else a := by
  unfold hear ShardEvent.failure?
  simp only [h]
  cases s.code <;> simp

/-! ### Without a failure -/

theorem Gathering.hear (h : a.Gathering) (he : e.failure? = none) : (a.hear e).Gathering ∧
    (a.hear e).selection = a.selection ∧
    (a.hear e).merged =
      (e.slice?.toList.map (·.elements)).foldl (Current.merge a.selection) a.merged ∧
    (a.hear e).missed = a.missed ++ e.missed ∧
    (a.hear e).trimmed = a.trimmed ++ e.slice?.toList.flatMap (·.trimmed) := by
  have hopen : ¬ a.isFailed := by simp [isFailed, h.failure]
  cases hevent : e.event with
  | payload p =>
    cases p with
    | sortRange slice =>
      simp only [Answer.hear, hevent, h.addSlice_eq, ShardEvent.slice?, ShardEvent.missed]
      exact ⟨⟨h.policy, h.failure, h.verdict⟩, trivial, rfl, trivial, by simp⟩
    | _ => simp [Answer.hear, hevent, ShardEvent.slice?, ShardEvent.missed, h]
  | status s =>
    rw [hear_status hevent, he]
    dsimp only
    split
    · next hcode =>
      have hadd : a.addMissed e.keys s = { a with missed := a.missed ++ e.keys.map (·, s) } := by
        rw [addMissed, if_neg hopen]
      have hmissed : e.missed = e.keys.map (·, s) := by simp [ShardEvent.missed, hevent, hcode]
      have hslice : e.slice? = none := by simp [ShardEvent.slice?, hevent]
      rw [hadd, hmissed, hslice]
      exact ⟨⟨h.policy, h.failure, h.verdict⟩, rfl, rfl, rfl, (List.append_nil _).symm⟩
    · next hcode => simp [hevent, hcode, ShardEvent.slice?, ShardEvent.missed, h]
  | finished => simp [Answer.hear, hevent, ShardEvent.slice?, ShardEvent.missed, h]

theorem Gathering.hearAll : ∀ {events : List ShardEvent} {a : Answer StoredValue}, a.Gathering →
    events.findSome? ShardEvent.failure? = none →
    (a.hearAll events).Gathering ∧ (a.hearAll events).selection = a.selection ∧
      (a.hearAll events).merged = ((events.filterMap ShardEvent.slice?).map (·.elements)).foldl
        (Current.merge a.selection) a.merged ∧
      (a.hearAll events).missed = a.missed ++ events.flatMap ShardEvent.missed ∧
      (a.hearAll events).trimmed =
        a.trimmed ++ (events.filterMap ShardEvent.slice?).flatMap (·.trimmed)
  | [], a, h, _ => by simpa [Answer.hearAll] using h
  | e :: events, a, h, hnone => by
    rw [List.findSome?_cons] at hnone
    cases he : e.failure? with
    | some s => simp [he] at hnone
    | none =>
      rw [he] at hnone
      obtain ⟨hg, hs, hm, hmissed, ht⟩ := h.hear he
      obtain ⟨hg', hs', hm', hmissed', ht'⟩ := Gathering.hearAll hg hnone
      have hstep : a.hearAll (e :: events) = (a.hear e).hearAll events := rfl
      rw [hstep]
      refine ⟨hg', hs'.trans hs, ?_, ?_, ?_⟩
      · rw [hm', hs, hm]
        cases hslice : e.slice? <;> simp [hslice]
      · rw [hmissed', hmissed, List.flatMap_cons, List.append_assoc]
      · rw [ht', ht]
        cases hslice : e.slice? <;> simp [hslice]

/-! ### After a failure -/

/-- A shard has failed, and nothing is left of what was gathered. -/
structure Failed (a : Answer StoredValue) (status : Status) : Prop where
  failure : a.failure = some status
  verdict : a.verdict = none
  merged : a.merged = []
  missed : a.missed = []
  trimmed : a.trimmed = []

theorem Gathering.failed (h : a.Gathering) (s : Status) : (a.fail s).Failed s := by
  exact ⟨by simp [fail, h.failure], h.verdict, rfl, rfl, rfl⟩

theorem Failed.hear {s : Status} (h : a.Failed s) (e : ShardEvent) : (a.hear e).Failed s := by
  have hfailed : a.isFailed := by simp [isFailed, h.failure]
  have hagain : ∀ t, (a.fail t).Failed s := fun t =>
    ⟨by simp [fail, h.failure], h.verdict, rfl, rfl, rfl⟩
  cases hevent : e.event with
  | payload p => cases p <;> simpa [Answer.hear, hevent, addSlice, hfailed] using h
  | status t =>
    rw [hear_status hevent]
    split
    · exact hagain _
    · split
      · simpa [addMissed, hfailed] using h
      · exact h
  | finished => simpa [Answer.hear, hevent] using h

theorem Failed.hearAll {s : Status} (h : a.Failed s) : (a.hearAll events).Failed s := by
  induction events generalizing a with
  | nil => exact h
  | cons e events ih => exact ih (h.hear e)

theorem Gathering.failed_hearAll {s : Status} : ∀ {events : List ShardEvent}
    {a : Answer StoredValue}, a.Gathering → events.findSome? ShardEvent.failure? = some s →
    (a.hearAll events).Failed s
  | [], _, _, hsome => by simp at hsome
  | e :: events, a, h, hsome => by
    rw [List.findSome?_cons] at hsome
    cases he : e.failure? with
    | some t =>
      rw [he] at hsome
      obtain ⟨u, hevent⟩ : ∃ u, e.event = .status u := by
        unfold ShardEvent.failure? at he
        split at he
        · exact ⟨_, ‹_›⟩
        · cases he
      have hstep : a.hear e = a.fail t := by rw [hear_status hevent, he]
      have hfailed : (a.hear e).Failed t := hstep ▸ h.failed t
      exact Option.some.inj hsome ▸ hfailed.hearAll
    | none =>
      rw [he] at hsome
      have hnext : (a.hear e).Gathering := (h.hear he).1
      exact hnext.failed_hearAll hsome

/-! ### Concluding -/

theorem Failed.conclude {s : Status} (h : a.Failed s) : a.conclude.2 = .failed s ∧
    a.conclude.1.merged = [] ∧ a.conclude.1.missed = [] ∧ a.conclude.1.trimmed = [] := by
  simp [Answer.conclude, h.verdict, h.failure, h.merged, h.missed, h.trimmed]

theorem Gathering.conclude_verdict (h : a.Gathering) (hordered : Ordered reverse a.merged) :
    a.conclude.2 = if a.selection.unique = false ∧ ¬ (a.merged.map (·.orderKey)).Nodup
      then .duplicated else .complete := by
  have hclassify : a.conclude.2 = Current.verdict a.selection a.merged := by
    simp only [Answer.conclude, h.verdict, h.failure, finishMerge, h.policy]
    rw [refineTrimmed_eq]
    simp only [classify, h.policy]
  simp only [hclassify, Current.verdict, Bool.and_eq_true, hordered.hasAdjacentDuplicates_iff,
    Bool.not_eq_true']

theorem Gathering.conclude_missed (h : a.Gathering) :
    a.conclude.1.missed = a.missed.mergeSort fun x y => (compare x.1 y.1).isLE := by
  simp only [Answer.conclude, h.verdict, h.failure, finishMerge, h.policy]
  rw [refineTrimmed_eq]

/-- Which marks are kept depends on the order keys of the answer alone. -/
theorem refineTrimmed_trimmed (a : Answer StoredValue) :
    a.refineTrimmed.trimmed = match (a.merged.map (·.orderKey)).getLast? with
      | some last =>
        if (a.merged.map (·.orderKey)).length < a.selection.count.toNat then
          a.trimmed.mergeSort (TrimMark.le a.selection.reverse)
        else (a.trimmed.mergeSort (TrimMark.le a.selection.reverse)).filter
          (!isBeyond a.selection.reverse last ·)
      | none => a.trimmed.mergeSort (TrimMark.le a.selection.reverse) := by
  rw [List.getLast?_map, List.length_map]
  unfold refineTrimmed
  cases a.merged.getLast? with
  | none => rfl
  | some last =>
    simp only [Option.map_some]
    split <;> rfl

theorem mergeSort_missed {l l' : List (String × Status)} (h : l.Perm l')
    (hnodup : (l.map (·.1)).Nodup) : l.mergeSort (fun x y => (compare x.1 y.1).isLE) =
      l'.mergeSort fun x y => (compare x.1 y.1).isLE := by
  refine StableSort.mergeSort_eq_of_perm (fun x y z hxy hyz => ?_) (fun x y => ?_)
    (fun x hx y hy hxy hyx => ?_) h
  · exact Std.TransOrd.isLE_trans hxy hyz
  · rw [Std.OrientedOrd.eq_swap (a := y.1)]
    cases compare x.1 y.1 <;> rfl
  · have hkey : x.1 = y.1 := Std.LawfulEqOrd.eq_of_compare (Std.OrientedCmp.isLE_antisymm hxy hyx)
    exact List.inj_on_of_nodup_map hnodup hx hy hkey

theorem mergeSort_marks {l l' : List TrimMark} (h : l.Perm l') :
    l.mergeSort (TrimMark.le reverse) = l'.mergeSort (TrimMark.le reverse) := by
  let pair : TrimMark → OrderKey × String := fun mark => (mark.orderKey, mark.key)
  refine StableSort.mergeSort_eq_of_perm
    (fun x y z => pairLe_trans reverse (pair x) (pair y) (pair z))
    (fun x y => pairLe_total reverse (pair x) (pair y)) (fun x _ y _ hxy hyx => ?_) h
  have hpair : pair x = pair y := eq_of_pairLe hxy hyx
  cases x
  cases y
  simp_all [pair]

/-- Answers that have gathered the same, but for the order, conclude alike. -/
theorem Gathering.conclude_congr {a' : Answer StoredValue} (h : a.Gathering) (h' : a'.Gathering)
    (hselection : a.selection = a'.selection) (hordered : Ordered reverse a.merged)
    (hordered' : Ordered reverse a'.merged)
    (hkeys : a.merged.map (·.orderKey) = a'.merged.map (·.orderKey))
    (hmissed : a.missed.Perm a'.missed) (hnodup : (a.missed.map (·.1)).Nodup)
    (htrimmed : a.trimmed.Perm a'.trimmed) :
    a.conclude.2 = a'.conclude.2 ∧ a.conclude.1.missed = a'.conclude.1.missed ∧
      a.conclude.1.trimmed = a'.conclude.1.trimmed := by
  refine ⟨?_, ?_, ?_⟩
  · rw [h.conclude_verdict hordered, h'.conclude_verdict hordered', hselection, hkeys]
  · rw [h.conclude_missed, h'.conclude_missed, mergeSort_missed hmissed hnodup]
  · rw [h.conclude.2, h'.conclude.2, refineTrimmed_trimmed, refineTrimmed_trimmed, ← hselection,
      ← hkeys, mergeSort_marks htrimmed]

end Answer

/-! ## The slices in another order -/

section Slices

variable {reverse : Bool} {slices slices' : List (ShardSlice StoredValue)}

theorem flatten_perm (h : slices.Perm slices') :
    (slices.map (·.elements)).flatten.Perm (slices'.map (·.elements)).flatten := (h.map _).flatten

theorem orderKeys_reference_perm (unique : Bool) (h : slices.Perm slices') :
    (reference reverse unique (slices.map (·.elements))).map (·.orderKey) =
      (reference reverse unique (slices'.map (·.elements))).map (·.orderKey) := by
  have hperm := flatten_perm h
  cases unique with
  | true =>
    rw [map_orderKey_reference, map_orderKey_reference]
    exact distinctKeys_congr fun k => by simp only [hperm.mem_iff]
  | false =>
    have hreference : (reference reverse false (slices.map (·.elements))).Perm
        (reference reverse false (slices'.map (·.elements))) := by
      rw [reference, if_neg (by simp), reference, if_neg (by simp)]
      exact (List.mergeSort_perm _ _).trans (hperm.trans (List.mergeSort_perm _ _).symm)
    have hpairs := Sorted.map_pair_eq (sorted_reference false _) (sorted_reference false _)
      (hreference.map Element.pair)
    have := congrArg (List.map Prod.fst) hpairs
    rwa [List.map_map, List.map_map] at this

/-- Where no two elements share both order key and collection, their order is settled. -/
theorem reference_perm (h : slices.Perm slices')
    (hnodup : ((slices.flatMap (·.elements)).map Element.pair).Nodup) :
    reference reverse false (slices.map (·.elements)) =
      reference reverse false (slices'.map (·.elements)) := by
  rw [reference, if_neg (by simp), reference, if_neg (by simp)]
  refine StableSort.mergeSort_eq_of_perm (Element.le_trans reverse) (Element.le_total reverse)
    (fun x hx y hy hxy hyx => ?_) (flatten_perm h)
  rw [List.flatMap_def] at hnodup
  exact List.inj_on_of_nodup_map hnodup hx hy (eq_of_pairLe hxy hyx)

end Slices

namespace Answer

variable {events : List ShardEvent} {reverse : Bool}

/-- What an answer has gathered when no shard has failed. -/
theorem gathered (count : UInt64) (unique : Bool)
    (hnone : events.findSome? ShardEvent.failure? = none)
    (hsorted : ∀ slice ∈ events.filterMap ShardEvent.slice?, Sorted reverse slice.elements) :
    let a := (current count reverse unique).hearAll events
    let slices := events.filterMap ShardEvent.slice?
    a.Gathering ∧ a.selection = ⟨count, 0, reverse, unique⟩ ∧
      a.merged = (reference reverse unique (slices.map (·.elements))).take count.toNat ∧
      a.missed = events.flatMap ShardEvent.missed ∧ a.trimmed = slices.flatMap (·.trimmed) := by
  obtain ⟨hg, hs, hm, hmissed, ht⟩ :=
    (gathering_current (α := StoredValue) count reverse unique).hearAll hnone
  refine ⟨hg, hs, hm.trans ?_, hmissed, ht⟩
  refine Current.mergeAll_eq ⟨count, 0, reverse, unique⟩ fun shard hshard => ?_
  obtain ⟨slice, hslice, rfl⟩ := List.mem_map.1 hshard
  exact hsorted slice hslice

theorem conclude_of_failure (count : UInt64) (unique : Bool) {e : ShardEvent} (he : e ∈ events)
    (hfails : e.failure?.isSome) :
    let a := (current count reverse unique).hearAll events
    ∃ s, events.findSome? ShardEvent.failure? = some s ∧ a.conclude.2 = .failed s ∧
      a.conclude.1.merged = [] ∧ a.conclude.1.missed = [] ∧ a.conclude.1.trimmed = [] := by
  cases hfirst : events.findSome? ShardEvent.failure? with
  | none => simp [List.findSome?_eq_none_iff.1 hfirst e he] at hfails
  | some s => exact ⟨s, rfl, ((gathering_current count reverse unique).failed_hearAll hfirst).conclude⟩

/-- Two orders of the same events, none of them a hard failure. -/
theorem conclude_perm (count : UInt64) (unique : Bool) {events' : List ShardEvent}
    (hperm : events.Perm events') (hnone : ∀ e ∈ events, e.failure? = none)
    (hsorted : ∀ slice ∈ events.filterMap ShardEvent.slice?, Sorted reverse slice.elements)
    (hmissed : ((events.flatMap ShardEvent.missed).map (·.1)).Nodup) :
    let a := (current count reverse unique).hearAll events
    let a' := (current count reverse unique).hearAll events'
    a.conclude.2 = a'.conclude.2 ∧ a.conclude.1.missed = a'.conclude.1.missed ∧
      a.conclude.1.trimmed = a'.conclude.1.trimmed ∧
      a.conclude.1.merged.map (·.orderKey) = a'.conclude.1.merged.map (·.orderKey) ∧
      (unique = false → (((events.filterMap ShardEvent.slice?).flatMap (·.elements)).map
        Element.pair).Nodup → a.conclude.1.merged = a'.conclude.1.merged) ∧
      (a.conclude.2 = .duplicated ↔
        unique = false ∧ ¬ (a.conclude.1.merged.map (·.orderKey)).Nodup) := by
  intro a a'
  have hslices := hperm.filterMap ShardEvent.slice?
  obtain ⟨hg, hs, hm, hmiss, ht⟩ :=
    gathered count unique (List.findSome?_eq_none_iff.2 hnone) hsorted
  obtain ⟨hg', hs', hm', hmiss', ht'⟩ := @gathered events' reverse count unique
    (List.findSome?_eq_none_iff.2 fun e he => hnone e (hperm.mem_iff.2 he))
    (fun slice hslice => hsorted slice (hslices.mem_iff.2 hslice))
  have hordered : ∀ shards : List (List (Element StoredValue)),
      Ordered reverse ((reference reverse unique shards).take count.toNat) := fun shards =>
    (sorted_reference unique shards).ordered.sublist (List.take_sublist _ _)
  have hkeys : a.merged.map (·.orderKey) = a'.merged.map (·.orderKey) := by
    rw [hm, hm', List.map_take, List.map_take, orderKeys_reference_perm unique hslices]
  have hmissed' : a.missed.Perm a'.missed := by
    rw [hmiss, hmiss']
    exact hperm.flatMap_right _
  have hmarks : a.trimmed.Perm a'.trimmed := by
    rw [ht, ht']
    exact hslices.flatMap_right _
  obtain ⟨hverdict, hsame, hsame'⟩ := hg.conclude_congr hg' (hs.trans hs'.symm) (hm ▸ hordered _)
    (hm' ▸ hordered _) hkeys hmissed' (hmiss ▸ hmissed) hmarks
  rw [hg.conclude.1, hg'.conclude.1]
  refine ⟨hverdict, hsame, hsame', hkeys, fun hu hnodup => ?_, ?_⟩
  · rw [hm, hm', hu, reference_perm hslices hnodup]
  · rw [hg.conclude_verdict (hm ▸ hordered _), hs]
    split
    · next hshared => exact ⟨fun _ => hshared, fun _ => rfl⟩
    · next hshared => exact ⟨fun h => absurd h (by simp), fun h => absurd h hshared⟩

end Answer

end SortedGet

/-! ## Any order of arrival -/

namespace Reports

open SortedGet SortedGet.Answer

/-- Tells the events to the callbacks of shards that report to the answer `id`, in this order. -/
def tellShards (r : Reports) (id : Nat) (events : List ShardEvent) : Reports :=
  events.foldl (fun r e => r.tell e.teller (.shard e.keys id e.latch) e.event) r

/-- The answer `id` as it is concluded after these events. -/
def concluded (r : Reports) (id : Nat) (events : List ShardEvent) :
    Option (Answer StoredValue × Verdict) :=
  (r.tellShards id events).answers[id]?.map Answer.conclude

theorem answer_tell_shard (r : Reports) (id : Nat) (e : ShardEvent) :
    (r.tell e.teller (.shard e.keys id e.latch) e.event).answers[id]? =
      r.answers[id]?.map (·.hear e) := by
  obtain ⟨teller, keys, latch, event⟩ := e
  cases event with
  | payload p => cases p <;> simp [tell, tellShard, modifyAnswer, Answer.hear]
  | status s => cases hcode : s.code <;> simp [tell, tellShard, modifyAnswer, Answer.hear, hcode]
  | finished => simp [tell, tellShard, countDown, Answer.hear]

theorem answer_tellShards (r : Reports) (id : Nat) (events : List ShardEvent) :
    (r.tellShards id events).answers[id]? = r.answers[id]?.map (·.hearAll events) := by
  induction events generalizing r with
  | nil => simp [tellShards, Answer.hearAll]
  | cons e events ih =>
    have hstep : r.tellShards id (e :: events) =
      (r.tell e.teller (.shard e.keys id e.latch) e.event).tellShards id events := rfl
    rw [hstep, ih, answer_tell_shard, Option.map_map]
    rfl

/-- **The order in which the shards answer does not matter.** A hard failure, whenever it comes,
leaves nothing but the first one that arrived. Otherwise any two orders lead to the same verdict, the
same missed keys, the same trim marks and the same order keys, and to the same elements where every
element counts and no two share both order key and collection. The verdict tells of a duplicate just
when every element counts and two elements of the answer share an order key. -/
theorem concluded_of_arrival (r : Reports) (id : Nat) (count : UInt64) (reverse unique : Bool)
    (reports : List ShardReport) (events events' : List ShardEvent)
    (hanswer : r.answers[id]? = some (.current count reverse unique))
    (hevents : events.Perm (reports.flatMap (·.events)))
    (hevents' : events'.Perm (reports.flatMap (·.events)))
    (hsorted : ∀ p ∈ reports, ∀ slice, p.outcome = .found slice → Sorted reverse slice.elements)
    (hmissed : (((reports.flatMap (·.events)).flatMap ShardEvent.missed).map (·.1)).Nodup) :
    ∃ a verdict a' verdict', r.concluded id events = some (a, verdict) ∧
      r.concluded id events' = some (a', verdict') ∧
      ((∃ e ∈ reports.flatMap (·.events), e.failure?.isSome) →
        (∃ s, events.findSome? ShardEvent.failure? = some s ∧ verdict = .failed s ∧
          a.merged = [] ∧ a.missed = [] ∧ a.trimmed = []) ∧
        (∃ s, events'.findSome? ShardEvent.failure? = some s ∧ verdict' = .failed s ∧
          a'.merged = [] ∧ a'.missed = [] ∧ a'.trimmed = [])) ∧
      ((∀ e ∈ reports.flatMap (·.events), e.failure? = none) →
        verdict = verdict' ∧ a.missed = a'.missed ∧ a.trimmed = a'.trimmed ∧
        a.merged.map (·.orderKey) = a'.merged.map (·.orderKey) ∧
        (unique = false → ((((reports.flatMap (·.events)).filterMap ShardEvent.slice?).flatMap
          (·.elements)).map Element.pair).Nodup → a.merged = a'.merged) ∧
        (verdict = .duplicated ↔ unique = false ∧ ¬ (a.merged.map (·.orderKey)).Nodup)) := by
  have hconcluded : ∀ es, r.concluded id es =
      some ((current count reverse unique).hearAll es).conclude := by
    intro es
    rw [concluded, answer_tellShards, hanswer]
    rfl
  refine ⟨_, _, _, _, hconcluded events, hconcluded events', fun ⟨e, he, hfails⟩ => ?_, fun hnone => ?_⟩
  · exact ⟨conclude_of_failure count unique (hevents.mem_iff.2 he) hfails,
      conclude_of_failure count unique (hevents'.mem_iff.2 he) hfails⟩
  · have hslices := hevents.filterMap ShardEvent.slice?
    have hsorted' : ∀ slice ∈ events.filterMap ShardEvent.slice?, Sorted reverse slice.elements := by
      intro slice hslice
      obtain ⟨e, he, hslice⟩ := List.mem_filterMap.1 hslice
      obtain ⟨p, hp, hep⟩ := List.mem_flatMap.1 (hevents.mem_iff.1 he)
      exact hsorted p hp slice (ShardReport.outcome_of_slice hep hslice)
    obtain ⟨hverdict, hmissed', hmarks, hkeys, hmerged, hduplicated⟩ := conclude_perm count unique
      (hevents.trans hevents'.symm) (fun e he => hnone e (hevents.mem_iff.1 he)) hsorted'
      (((hevents.flatMap_right _).map _).nodup_iff.2 hmissed)
    exact ⟨hverdict, hmissed', hmarks, hkeys, fun hu hnodup =>
      hmerged hu (((hslices.flatMap_right _).map _).nodup_iff.2 hnodup), hduplicated⟩

/-- Two shards find something, a third has none of its keys; the last one may as well come first. -/
theorem concluded_of_three_shards :
    let value : StoredValue := { flags := 0, data := [] }
    let reports : List ShardReport :=
      [⟨.operation 0, ["a"], 0, .found { elements := [⟨"a", .number 1, value⟩, ⟨"a", .number 3, value⟩] }⟩,
        ⟨.operation 1, ["m"], 0, .ended ⟨.notFound, "NOT_FOUND"⟩⟩,
        ⟨.operation 2, ["b"], 0, .found { elements := [⟨"b", .number 3, value⟩, ⟨"b", .number 4, value⟩],
                                          trimmed := [⟨"b", .number 4⟩] }⟩]
    let r : Reports := { answers := [.current 3 false false] }
    ∃ a verdict a' verdict', r.concluded 0 (reports.flatMap (·.events)) = some (a, verdict) ∧
      r.concluded 0 (reports.reverse.flatMap (·.events)) = some (a', verdict') ∧
      verdict = verdict' ∧ a.missed = a'.missed ∧ a.trimmed = a'.trimmed ∧ a.merged = a'.merged ∧
      verdict = .duplicated := by
  intro value reports r
  obtain ⟨a, verdict, a', verdict', h, h', -, hsame⟩ := concluded_of_arrival r 0 3 false false reports
    (reports.flatMap (·.events)) (reports.reverse.flatMap (·.events)) rfl (.refl _)
    ((List.reverse_perm reports).flatMap_right _) (by simp [reports, Sorted]; decide) (by decide)
  obtain ⟨hverdict, hmissed, hmarks, hkeys, hmerged, hduplicated⟩ := hsame (by decide)
  refine ⟨a, verdict, a', verdict', h, h', hverdict, hmissed, hmarks, hmerged rfl (by decide), ?_⟩
  have hconcluded : (r.concluded 0 (reports.flatMap (·.events))).map (·.2) = some .duplicated := by cbv
  rw [h] at hconcluded
  exact Option.some.inj hconcluded

end Reports

end ShardedCache

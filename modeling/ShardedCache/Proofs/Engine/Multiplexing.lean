import Mathlib.Data.List.Induction
import Mathlib.Data.List.Nodup
import ShardedCache.Proofs.Engine.Reporting

/-!
# Many reports become one

A multiplexer is told things by many and tells one aggregate. What it has been told, what it has
said and where it stands are kept together in a `Relay`, and whatever is told to anybody moves it by
one step or not at all (`Reports.Says.relay`). If each of those it listens to says nothing, or one
status and that it has finished, the aggregate hears nothing until the last of them has done so, and
then the last failing status or success (`Relay.said_eq`).
-/

namespace ShardedCache

open Wire (Status)

/-- Only multiplexers with smaller numbers stand behind the callback. -/
def Callback.Below (n : Nat) : Callback → Prop
  | .silent | .record _ | .completion _ | .shard _ _ _ => True
  | .multiplex id aggregate => id < n ∧ aggregate.Below n

namespace Callback.Below

variable {n n' : Nat} {c : Callback}

theorem mono (h : c.Below n) (hle : n ≤ n') : c.Below n' := by
  induction c with
  | multiplex id aggregate ih => exact ⟨Nat.lt_of_lt_of_le h.1 hle, ih h.2⟩
  | _ => trivial

theorem of_behind {receiver : Callback} (h : receiver.Below n) (hbehind : c.Behind receiver) :
    c.Below n := by
  induction hbehind with
  | self => exact h
  | multiplex id _ ih => exact ih h.2

theorem ne_multiplex (h : c.Below n) (aggregate : Callback) : c ≠ .multiplex n aggregate := by
  rintro rfl
  exact Nat.lt_irrefl n h.1

end Callback.Below

def Event.isStatus : Event → Bool
  | .status _ => true
  | .payload _ | .finished => false

/-- A report of an outcome, and whose it is. -/
def Delivery.verdict? (d : Delivery) : Option (Teller × Status) :=
  match d.event with
  | .status s => some (d.teller, s)
  | _ => none

/-! ## One multiplexer -/

/-- Where a multiplexer stands, what it has been told and what it has said, oldest first. -/
structure Relay where
  multiplexer : Option Multiplexer
  told : List Delivery := []
  said : List (Callback × Event) := []

namespace Relay

/-- What a multiplexer makes of something it is told. -/
def hear (aggregate : Callback) (x : Relay) (d : Delivery) : Relay :=
  let x := { x with told := x.told ++ [d] }
  match d.event with
  | .payload p => { x with said := x.said ++ [(aggregate, .payload p)] }
  | .status s =>
    if s.isSuccess then x
    else { x with multiplexer := x.multiplexer.map ({ · with failing := some s }) }
  | .finished =>
    match x.multiplexer with
    | some m =>
      if m.remaining = 1 then
        { x with
          multiplexer := some { remaining := 0 }
          said := x.said ++ [(aggregate, .status (m.failing.getD .success)), (aggregate, .finished)] }
      else { x with multiplexer := some { m with remaining := m.remaining - 1 } }
    | none => x

theorem told_hear (aggregate : Callback) (x : Relay) (d : Delivery) :
    (x.hear aggregate d).told = x.told ++ [d] := by
  unfold hear
  split
  · rfl
  · dsimp only
    split <;> rfl
  · dsimp only
    split
    · split <;> rfl
    · rfl

theorem told_foldl_hear (aggregate : Callback) (ds : List Delivery) (x : Relay) :
    (ds.foldl (hear aggregate) x).told = x.told ++ ds := by
  induction ds generalizing x with
  | nil => simp
  | cons d ds ih => rw [List.foldl_cons, ih, told_hear, List.append_assoc, List.singleton_append]

end Relay

namespace Reports

/-- All that a callback has been told, oldest first. -/
def deliveredTo (r : Reports) (receiver : Callback) : List Delivery :=
  r.journal.reverse.filter (·.receiver = receiver)

/-- Everything about one multiplexer and its aggregate. -/
def relay (r : Reports) (id : Nat) (aggregate : Callback) : Relay where
  multiplexer := r.multiplexers[id]?
  told := r.deliveredTo (.multiplex id aggregate)
  said := r.said (.multiplexer id)

theorem deliveredTo_cons (r : Reports) (d : Delivery) (receiver : Callback) :
    { r with journal := d :: r.journal }.deliveredTo receiver =
      r.deliveredTo receiver ++ if d.receiver = receiver then [d] else [] := by
  unfold deliveredTo
  rw [List.reverse_cons, List.filter_append, List.filter_cons]
  split <;> simp_all

theorem said_cons (r : Reports) (d : Delivery) (teller : Teller) :
    { r with journal := d :: r.journal }.said teller =
      r.said teller ++ if d.teller = teller then [(d.receiver, d.event)] else [] := by
  unfold said
  rw [List.reverse_cons, List.filter_append, List.map_append, List.filter_cons]
  split <;> simp_all

section Relay

variable {n : Nat} (aggregate : Callback)

/-- An entry in the journal. -/
theorem relay_cons (r : Reports) (d : Delivery) :
    { r with journal := d :: r.journal }.relay n aggregate =
      { r.relay n aggregate with
        told := (r.relay n aggregate).told ++ if d.receiver = .multiplex n aggregate then [d] else []
        said := (r.relay n aggregate).said ++
          if d.teller = .multiplexer n then [(d.receiver, d.event)] else [] } := by
  simp only [relay, deliveredTo_cons, said_cons]

theorem relay_congr {r r' : Reports} (hmultiplexers : r'.multiplexers[n]? = r.multiplexers[n]?)
    (hjournal : r'.journal = r.journal) : r'.relay n aggregate = r.relay n aggregate := by
  simp only [relay, deliveredTo, said, hmultiplexers, hjournal]

@[simp] theorem multiplexers_tellCompletion (r : Reports) (id : Nat) (event : Event) :
    (r.tellCompletion id event).multiplexers = r.multiplexers := by
  cases event <;> rfl

@[simp] theorem multiplexers_tellShard (r : Reports) (keys : List String) (answer latch : Nat)
    (event : Event) : (r.tellShard keys answer latch event).multiplexers = r.multiplexers := by
  cases event with
  | payload p => cases p <;> rfl
  | status s =>
    simp only [tellShard]
    split <;> rfl
  | finished => rfl

theorem relay_modifyMultiplexer_of_ne {id : Nat} (h : id ≠ n) (r : Reports)
    (f : Multiplexer → Multiplexer) :
    (r.modifyMultiplexer id f).relay n aggregate = r.relay n aggregate :=
  relay_congr aggregate (by simp [modifyMultiplexer, h]) rfl

/-- A multiplexer is not moved by what others are told, unless it is the one who says it. -/
theorem relay_tell_of_below {receiver : Callback} (h : receiver.Below n) (r : Reports) (t : Teller)
    (event : Event) :
    (r.tell t receiver event).relay n aggregate =
      { r.relay n aggregate with
        said := (r.relay n aggregate).said ++
          if t = .multiplexer n then [(receiver, event)] else [] } := by
  refine tell_induction (P := fun r' => r'.relay n aggregate = { r.relay n aggregate with
      said := (r.relay n aggregate).said ++ if t = .multiplexer n then [(receiver, event)] else [] })
    (fun _ _ _ hr => (relay_congr aggregate (by simp) (by simp)).trans hr)
    (fun _ _ _ _ hr => (relay_congr aggregate (by simp) (by simp)).trans hr)
    (fun id _ f hbehind hr => ?_) (fun id inner event hbehind hr => ?_) ?_
  · exact (relay_modifyMultiplexer_of_ne aggregate (Nat.ne_of_lt (h.of_behind hbehind).1) _ f).trans hr
  · have hbelow := h.of_behind hbehind
    have hne : Teller.multiplexer id ≠ .multiplexer n := by simpa using Nat.ne_of_lt hbelow.1
    rw [relay_cons, if_neg (hbelow.2.ne_multiplex aggregate), if_neg hne, List.append_nil,
      List.append_nil]
    exact hr
  · rw [relay_cons, if_neg (h.ne_multiplex aggregate), List.append_nil]

/-- A multiplexer that is told something moves by one step. -/
theorem relay_tell {aggregate : Callback} (h : aggregate.Below n) {t : Teller}
    (ht : t ≠ .multiplexer n) (r : Reports) (event : Event) :
    (r.tell t (.multiplex n aggregate) event).relay n aggregate =
      (r.relay n aggregate).hear aggregate ⟨t, .multiplex n aggregate, event⟩ := by
  generalize hr : { r with journal := ⟨t, .multiplex n aggregate, event⟩ :: r.journal } = entered
  have hrelay : entered.relay n aggregate =
      { r.relay n aggregate with
        told := (r.relay n aggregate).told ++ [⟨t, .multiplex n aggregate, event⟩] } := by
    rw [← hr, relay_cons, if_pos rfl, if_neg ht, List.append_nil]
  have hmodified : ∀ f : Multiplexer → Multiplexer, (entered.modifyMultiplexer n f).relay n aggregate =
      { entered.relay n aggregate with multiplexer := r.multiplexers[n]?.map f } := fun f => by
    subst hr
    simp [relay, modifyMultiplexer, deliveredTo, said]
  rw [tell.eq_def, Relay.hear]
  dsimp only
  rw [hr]
  cases event with
  | payload p =>
    dsimp only
    rw [relay_tell_of_below aggregate h, if_pos rfl, hrelay]
  | status s =>
    dsimp only
    split
    · exact hrelay
    · rw [hmodified, hrelay]
      rfl
  | finished =>
    dsimp only
    rw [show (r.relay n aggregate).multiplexer = r.multiplexers[n]? from rfl]
    split
    · next failing hm =>
      rw [relay_tell_of_below aggregate h, relay_tell_of_below aggregate h, if_pos rfl, if_pos rfl,
        hmodified, hrelay, hm]
      simp
    · next m hne hm =>
      have hne : m.remaining ≠ 1 := fun hone => hne m.failing (by rw [← hone])
      rw [hmodified, hrelay, hm]
      dsimp only
      rw [if_neg hne, Option.map_some]
    · next hm =>
      rw [hrelay, hm]
      exact congrArg (fun m => ({ multiplexer := m, told := _, said := _ } : Relay)) hm

/-- Whoever is told whatever, a multiplexer hears what it is told, and that is all. -/
theorem Says.relay {may : Teller → Callback → Prop} {aggregate : Callback} (h : aggregate.Below n)
    (hmay : ∀ t receiver, may t receiver →
      t ≠ .multiplexer n ∧ (receiver.Below n ∨ receiver = .multiplex n aggregate))
    {r r' : Reports} (hspoken : r.Says may r') :
    ∃ ds : List Delivery, (∀ d ∈ ds, may d.teller (.multiplex n aggregate)) ∧
      r'.relay n aggregate = ds.foldl (Relay.hear aggregate) (r.relay n aggregate) := by
  induction hspoken with
  | nothing => exact ⟨[], by simp, rfl⟩
  | @tell r' t receiver _ ht event ih =>
    obtain ⟨ds, hds, hrelay⟩ := ih
    obtain ⟨hne, hbelow | rfl⟩ := hmay t receiver ht
    · refine ⟨ds, hds, ?_⟩
      rw [relay_tell_of_below aggregate hbelow, if_neg hne, List.append_nil]
      exact hrelay
    · refine ⟨ds ++ [⟨t, .multiplex n aggregate, event⟩], ?_, ?_⟩
      · simpa [or_imp, forall_and] using ⟨hds, ht⟩
      · rw [relay_tell h hne, hrelay, List.foldl_append]
        rfl

end Relay

end Reports

/-! ## One report from each -/

namespace Relay

/-- The outcomes among what has been told. -/
def verdicts (ds : List Delivery) : List (Teller × Status) := ds.filterMap (·.verdict?)

/-- The last failing status. -/
def failing (ds : List Delivery) : Option Status :=
  (((verdicts ds).map (·.2)).filter (!·.isSuccess)).getLast?

def finishes (ds : List Delivery) : Nat := ds.countP (·.event = .finished)

/-- A multiplexer for `n` reports that has heard nothing. -/
def fresh (n : Nat) : Relay := { multiplexer := some { remaining := n } }

variable {aggregate : Callback} {ds : List Delivery} {d : Delivery} {n : Nat}

theorem failing_append_status {s : Status} (h : d.event = .status s) (ds : List Delivery) :
    failing (ds ++ [d]) = if s.isSuccess then failing ds else some s := by
  rw [failing, verdicts, List.filterMap_append, List.map_append, List.filter_append]
  split <;> simp_all [failing, verdicts, Delivery.verdict?]

theorem failing_append_finished (h : d.event = .finished) (ds : List Delivery) :
    failing (ds ++ [d]) = failing ds := by
  rw [failing, verdicts, List.filterMap_append]
  simp [failing, verdicts, Delivery.verdict?, h]

theorem map_fst_verdicts (ds : List Delivery) :
    (verdicts ds).map (·.1) = (ds.filter (·.event.isStatus)).map (·.teller) := by
  induction ds with
  | nil => rfl
  | cons d ds ih =>
    rw [verdicts] at ih ⊢
    rw [List.filterMap_cons, List.filter_cons, Delivery.verdict?]
    cases d.event with
    | status s => exact congrArg (d.teller :: ·) ih
    | payload p => exact ih
    | finished => exact ih

theorem finishes_append (ds : List Delivery) (d : Delivery) :
    finishes (ds ++ [d]) = finishes ds + if d.event = .finished then 1 else 0 := by
  simp [finishes, List.countP_append, List.countP_cons]

/-- Until as many have finished as were expected, a multiplexer counts and remembers. -/
theorem foldl_hear_of_lt (hpayload : ∀ d ∈ ds, ∀ p, d.event ≠ .payload p) (hlt : finishes ds < n) :
    ds.foldl (hear aggregate) (fresh n) =
      { multiplexer := some ⟨n - finishes ds, failing ds⟩, told := ds } := by
  induction ds using List.reverseRecOn with
  | nil => rfl
  | append_singleton ds d ih =>
    rw [finishes_append] at hlt
    rw [List.foldl_append, ih (fun d hd => hpayload d (by simp [hd])) (by omega), List.foldl_cons,
      List.foldl_nil, hear, finishes_append]
    cases hevent : d.event with
    | payload p => exact absurd hevent (hpayload d (by simp) p)
    | status s =>
      dsimp only
      rw [failing_append_status hevent]
      split <;> simp
    | finished =>
      rw [hevent, if_pos rfl] at hlt
      dsimp only
      rw [failing_append_finished hevent]
      rw [if_neg (show n - finishes ds ≠ 1 by omega), if_pos rfl, Nat.sub_sub]

/-- The last one that finishes makes it speak. -/
theorem said_foldl_hear_of_last (hpayload : ∀ d ∈ ds, ∀ p, d.event ≠ .payload p)
    (hlast : d.event = .finished) (hall : finishes ds + 1 = n) :
    ((ds ++ [d]).foldl (hear aggregate) (fresh n)).said =
      [(aggregate, .status ((failing ds).getD .success)), (aggregate, .finished)] := by
  have hone : n - finishes ds = 1 := by omega
  rw [List.foldl_append, foldl_hear_of_lt hpayload (by omega), List.foldl_cons, List.foldl_nil, hear,
    hone, hlast]
  rfl

section Reporters

variable {reporters : List Teller} {verdict : Teller → Option Status}
  (hwho : ∀ d ∈ ds, d.teller ∈ reporters)
  (hwhat : ∀ t ∈ reporters, (ds.filter (·.teller = t)).map (·.event) =
    (verdict t).toList.flatMap fun s => [.status s, .finished])

include hwho hwhat

theorem event_mem (hd : d ∈ ds) : ∃ s, verdict d.teller = some s ∧
    (d.event = .status s ∨ d.event = .finished) := by
  have hmem : d.event ∈ (ds.filter (·.teller = d.teller)).map (·.event) :=
    List.mem_map_of_mem (List.mem_filter.2 ⟨hd, by simp⟩)
  rw [hwhat _ (hwho d hd)] at hmem
  simpa using hmem

theorem mem_verdicts {t : Teller} {s : Status} :
    (t, s) ∈ verdicts ds ↔ t ∈ reporters ∧ verdict t = some s := by
  have hiff : (t, s) ∈ verdicts ds ↔ ∃ d ∈ ds, d.teller = t ∧ d.event = .status s := by
    rw [verdicts, List.mem_filterMap]
    refine exists_congr fun d => and_congr_right fun _ => ?_
    unfold Delivery.verdict?
    split <;> simp_all
  rw [hiff]
  constructor
  · rintro ⟨d, hd, rfl, hevent⟩
    obtain ⟨s', hs', heq | heq⟩ := event_mem hwho hwhat hd
    · rw [hevent] at heq
      cases heq
      exact ⟨hwho d hd, hs'⟩
    · rw [hevent] at heq
      cases heq
  · rintro ⟨ht, hverdict⟩
    have hmem : Event.status s ∈ (ds.filter (·.teller = t)).map (·.event) := by
      rw [hwhat t ht, hverdict]
      simp
    obtain ⟨d, hd, hevent⟩ := List.mem_map.1 hmem
    obtain ⟨hd, hteller⟩ := List.mem_filter.1 hd
    exact ⟨d, hd, by simpa using hteller, hevent⟩

theorem ne_payload (hd : d ∈ ds) (p : Payload) : d.event ≠ .payload p := by
  obtain ⟨s, -, h | h⟩ := event_mem hwho hwhat hd <;> rw [h] <;> exact nofun

variable (hnodup : reporters.Nodup)

include hnodup

/-- An event that each outcome brings once comes once from each who has reported. -/
theorem perm_tellers {p : Event → Bool} (hp : ∀ s, [Event.status s, .finished].countP p = 1) :
    ((ds.filter fun d => p d.event).map (·.teller)).Perm
      (reporters.filter fun t => (verdict t).isSome) := by
  refine List.perm_iff_count.2 fun t => ?_
  have hcount : ((ds.filter fun d => p d.event).map (·.teller)).count t =
      ((ds.filter (·.teller = t)).map (·.event)).countP p := by
    rw [List.count, List.countP_map, List.countP_map, List.countP_filter, List.countP_filter]
    refine List.countP_congr fun d _ => ?_
    simp [and_comm]
  rw [hcount]
  by_cases ht : t ∈ reporters
  · rw [hwhat t ht]
    cases hverdict : verdict t with
    | none =>
      have hnot : t ∉ reporters.filter fun t => (verdict t).isSome := by simp [hverdict]
      rw [List.count_eq_zero.2 hnot]
      rfl
    | some s =>
      rw [List.count_filter (by simp [hverdict]), List.count_eq_one_of_mem hnodup ht]
      simpa using hp s
  · have hnone : ds.filter (·.teller = t) = [] := by
      refine List.filter_eq_nil_iff.2 fun d hd hteller => ht ?_
      simpa [of_decide_eq_true hteller] using hwho d hd
    rw [hnone, List.count_eq_zero.2 (fun h => ht (List.mem_filter.1 h).1)]
    rfl

theorem perm_verdicts :
    ((verdicts ds).map (·.1)).Perm (reporters.filter fun t => (verdict t).isSome) := by
  rw [map_fst_verdicts]
  exact perm_tellers hwho hwhat hnodup fun _ => rfl

theorem finishes_eq : finishes ds = (verdicts ds).length := by
  have hfinished := perm_tellers hwho hwhat hnodup (p := fun event => event = .finished) fun _ => rfl
  have hlength := (hfinished.trans (perm_verdicts hwho hwhat hnodup).symm).length_eq
  rw [List.length_map, List.length_map] at hlength
  rw [finishes, List.countP_eq_length_filter]
  exact hlength

/-- **One report from many.** If each reporter says nothing, or one status and that it has finished,
the aggregate hears nothing until all of them have done so; then it hears the last failing status, or
success, and that they have finished. -/
theorem said_eq (hsome : reporters ≠ []) :
    (ds.foldl (hear aggregate) (fresh reporters.length)).said =
      if (verdicts ds).length = reporters.length then
        [(aggregate, .status ((failing ds).getD .success)), (aggregate, .finished)]
      else [] := by
  have hpayload : ∀ d ∈ ds, ∀ p, d.event ≠ .payload p := fun d => ne_payload hwho hwhat
  have hfinishes := finishes_eq hwho hwhat hnodup
  have hle : (verdicts ds).length ≤ reporters.length := by
    have := (perm_verdicts hwho hwhat hnodup).length_eq
    rw [List.length_map] at this
    exact this ▸ List.length_filter_le _ _
  split
  · next hall =>
    rcases List.eq_nil_or_concat' ds with rfl | ⟨before, d, rfl⟩
    · exact absurd (List.eq_nil_of_length_eq_zero hall.symm) hsome
    · have hlast : d.event = .finished := by
        obtain ⟨s, hs, -⟩ := event_mem hwho hwhat (d := d) (by simp)
        have hevents := hwhat d.teller (hwho d (by simp))
        rw [List.filter_append, List.map_append, hs] at hevents
        simpa using congrArg List.getLast? hevents
      rw [← hfinishes, finishes_append, if_pos hlast] at hall
      rw [said_foldl_hear_of_last (fun d hd => hpayload d (by simp [hd])) hlast hall,
        failing_append_finished hlast]
  · next hnot => rw [foldl_hear_of_lt hpayload (by omega)]

end Reporters

end Relay

end ShardedCache

import ShardedCache.Proofs.Node.Stream

/-!
# Requests that are there in full

Of slots whose bytes arrive one after the other, those are there in full that fit into the bytes that
have arrived (`inFull`), and a reader finds just these (`drain_inFull`). What has been begun and not
handed on lacks its last request, so it is not there in full (`Traffic.Sound.whole_cases`).
-/

namespace ShardedCache

open Wire (Frame)

/-- The first slots, as far as they fit into `n` bytes. -/
def inFull : List Slot → (n : Nat) → List Slot
  | [], _ => []
  | r :: slots, n =>
    if r.frame.encode.length ≤ n then r :: inFull slots (n - r.frame.encode.length) else []

theorem isPrefix_inFull : ∀ (slots : List Slot) (n : Nat), inFull slots n <+: slots
  | [], _ => List.prefix_rfl
  | r :: slots, n => by
    rw [inFull]
    split
    · exact (List.prefix_cons_inj r).2 (isPrefix_inFull slots _)
    · exact List.nil_prefix

@[simp] theorem encodeSlots_cons (r : Slot) (slots : List Slot) :
    encodeSlots (r :: slots) = r.frame.encode ++ encodeSlots slots := rfl

/-- Slots at the front are there in full just if their bytes are. -/
theorem prefix_inFull_iff : ∀ {front slots : List Slot} {n : Nat}, front <+: slots →
    (front <+: inFull slots n ↔ (encodeSlots front).length ≤ n)
  | [], _, _, _ => by simp
  | r :: front, slots, n, h => by
    obtain ⟨later, rfl⟩ := h
    rw [List.cons_append, inFull, encodeSlots_cons, List.length_append]
    split
    · next hfits =>
      rw [List.prefix_cons_inj, prefix_inFull_iff (List.prefix_append front later)]
      omega
    · next hlong =>
      refine iff_of_false (fun hnil => ?_) (by omega)
      cases List.prefix_nil.1 hnil

theorem length_encodeSlots_inFull (slots : List Slot) (n : Nat) :
    (encodeSlots (inFull slots n)).length ≤ n :=
  (prefix_inFull_iff (isPrefix_inFull slots n)).1 List.prefix_rfl

theorem inFull_mono {slots slots' : List Slot} {n n' : Nat} (h : slots <+: slots') (hn : n ≤ n') :
    inFull slots n <+: inFull slots' n' :=
  (prefix_inFull_iff ((isPrefix_inFull slots n).trans h)).2
    (Nat.le_trans (length_encodeSlots_inFull slots n) hn)

/-- A reader finds the requests that are there in full. -/
theorem drain_inFull : ∀ {slots : List Slot} {bytes : Bytes},
    (∀ r ∈ slots, r.frame.reread.Readable Wire.requestMagic) → bytes <+: encodeSlots slots →
      Frame.drain Wire.requestMagic bytes = ((inFull slots bytes.length).map (.ok ·.frame.reread),
        bytes.drop (encodeSlots (inFull slots bytes.length)).length)
  | [], bytes, _, harrived => by
    rw [List.prefix_nil.1 harrived, Frame.drain_of_incomplete rfl]
    rfl
  | r :: slots, bytes, hread, harrived => by
    obtain ⟨hsized, hmagic⟩ := hread r List.mem_cons_self
    rw [encodeSlots_cons] at harrived
    rw [inFull]
    split
    · next hfits =>
      obtain ⟨later, hlater⟩ := harrived
      obtain ⟨rest, rfl⟩ : r.frame.encode <+: bytes :=
        List.prefix_of_prefix_length_le ⟨_, rfl⟩ ⟨later, hlater⟩ hfits
      have hrest : rest <+: encodeSlots slots :=
        ⟨later, List.append_cancel_left (by rw [← hlater, List.append_assoc])⟩
      have hparse := Frame.parse_encode_append hsized hmagic rest
      rw [Frame.encode_reread] at hparse
      rw [Frame.drain_of_frame hparse, drain_inFull (fun s hs => hread s (List.mem_cons_of_mem r hs)) hrest]
      simp [List.drop_append]
    · next hlong =>
      obtain ⟨later, hlater⟩ := List.prefix_of_prefix_length_le harrived ⟨_, rfl⟩
        (Nat.le_of_not_le hlong)
      have hnot : later ≠ [] := by
        rintro rfl
        rw [List.append_nil] at hlater
        exact hlong (Nat.le_of_eq (congrArg List.length hlater.symm))
      rw [← Frame.encode_reread] at hlater
      rw [Frame.drain_of_incomplete (Frame.parse_of_beginning hsized _ hlater hnot)]
      rfl

/-- The requests that have been written in full on a connection. -/
def Transcript.whole (c : Transcript) (e : Engine) : List Slot :=
  inFull (c.begun.flatMap e.slots) c.sent.length

/-- What a server makes of the bytes of a connection: they are a beginning of the requests, and unless
one of them is too long to be read, those are found that are there in full. -/
structure Transcript.Legible (c : Transcript) (e : Engine) : Prop where
  sent : c.sent <+: encodeSlots (c.begun.flatMap e.slots)
  read : (∀ r ∈ c.begun.flatMap e.slots, r.frame.body.length ≤ Wire.maxBodyLength) →
    (Frame.drain Wire.requestMagic c.sent).1 = (c.whole e).map (.ok ·.frame.reread)

theorem Transcript.legible {c : Transcript} {e : Engine} (hflat : e.Flat)
    (hsent : c.sent <+: encodeSlots (c.begun.flatMap e.slots)) : c.Legible e := by
  refine ⟨hsent, fun hlimit => ?_⟩
  rw [drain_inFull (fun r hr => ?_) hsent]
  · rfl
  · obtain ⟨id, -, hid⟩ := List.mem_flatMap.1 hr
    exact Engine.readable_reread_of_mem_slots hflat hid (hlimit r hr)

namespace Traffic

theorem Sound.handed_whole {t : Traffic} (h : t.Sound) :
    t.handed.flatMap t.engine.slots <+: t.transcript.whole t.engine := by
  have hbegun : t.handed.flatMap t.engine.slots <+: t.begun.flatMap t.engine.slots := by
    change t.handed.flatMap t.engine.slots <+: (t.handed ++ _).flatMap t.engine.slots
    rw [List.flatMap_append]
    exact List.prefix_append _ _
  exact (prefix_inFull_iff hbegun).2 h.atRest.sent_prefix.1.length_le

/-- What is written in full is what has been handed on, and of an operation that has been begun
besides, all but the last request at most. -/
theorem Sound.whole_cases {t : Traffic} (h : t.Sound) :
    t.transcript.whole t.engine = t.handed.flatMap t.engine.slots ∨
    ∃ b ∈ t.lane.queue.writeQueue, t.begun = t.handed ++ [b] ∧
      t.transcript.whole t.engine <+: t.handed.flatMap t.engine.slots ++ (t.engine.slots b).dropLast := by
  cases hq : t.lane.queue.writeQueue with
  | nil =>
    have hbegun : t.transcript.whole t.engine <+: t.begun.flatMap t.engine.slots := isPrefix_inFull _ _
    rw [begun_eq_handed hq] at hbegun
    exact .inl (hbegun.eq_of_length_le h.handed_whole.length_le)
  | cons b rest =>
    have hb : b ∈ t.ledger.writeQueue := by
      change b ∈ t.lane.queue.writeQueue
      rw [hq]
      exact List.mem_cons_self
    have hwhole : t.transcript.whole t.engine <+: t.begun.flatMap t.engine.slots := isPrefix_inFull _ _
    have hbegun : t.begun = t.handed ++ if Queue.isStarted t.engine b then [b] else [] :=
      h.atRest.begun_of_cons (q := t.ledger) hq
    cases hstarted : Queue.isStarted t.engine b with
    | false =>
      rw [hstarted, if_neg Bool.false_ne_true, List.append_nil] at hbegun
      rw [hbegun] at hwhole
      exact .inl (hwhole.eq_of_length_le h.handed_whole.length_le)
    | true =>
      rw [hstarted, if_pos rfl] at hbegun
      refine .inr ⟨b, List.mem_cons_self, hbegun, ?_⟩
      have hslots : t.begun.flatMap t.engine.slots = (t.handed.flatMap t.engine.slots ++
          (t.engine.slots b).dropLast) ++ [(t.engine.slots b).getLast
            (Engine.slots_ne_nil (h.atRest.lt_size_of_mem_writeQueue hb))] := by
        rw [hbegun, List.append_assoc, List.dropLast_append_getLast, List.flatMap_append,
          List.flatMap_singleton]
      rw [hslots] at hwhole
      refine (List.prefix_concat_iff.1 hwhole).resolve_left fun hall => ?_
      -- All of the operation would have been written.
      obtain ⟨r, hr⟩ : ∃ r, t.engine.request? b = some r := by
        cases hr : t.engine.request? b with
        | none => rw [Engine.isStarted_of_none hr] at hstarted; cases hstarted
        | some r => exact ⟨r, rfl⟩
      have hleft := (h.atRest.paused b hb).left r hr
      have hbytes := (h.atRest.encoded b hb r hr).1
      have hsent : t.sent = encodeSlots (t.handed.flatMap t.engine.slots) ++ t.engine.copied b :=
        h.atRest.copied_of_cons (q := t.ledger) hq
      have hle : (encodeSlots (t.begun.flatMap t.engine.slots)).length ≤ t.sent.length := by
        rw [hslots, ← hall]
        exact length_encodeSlots_inFull _ _
      rw [hsent, Engine.copied_of_some hr, hbegun] at hle
      simp only [List.flatMap_append, List.flatMap_singleton, encodeSlots_append, List.length_append,
        List.length_take, ← hbytes] at hle
      omega

end Traffic

end ShardedCache

import Mathlib.Algebra.Group.Nat.Defs
import ShardedCache.Proofs.Wire.Pieces
import ShardedCache.SortedGet.Message

/-!
# What the readers of a message take

A reader of a part of a message is described by what it reads (`Reader.Reads`): it succeeds just if an
encoding stands at the front, whatever follows, takes that encoding and no more, and it fails at a
place inside the message where the part that it names cannot stand (`MessagePart.Lacking`). The
description of a reader of many entries follows from that of one entry (`Reader.Reads.counted`).
-/

namespace ShardedCache

/-- The length of the order key can be said in 16 bits. -/
def OrderKey.IsShort : OrderKey → Prop
  | number _ => True
  | bytes b => b.length < 2 ^ 16

instance : DecidablePred OrderKey.IsShort
  | .number _ => isTrue trivial
  | .bytes b => inferInstanceAs (Decidable (b.length < 2 ^ 16))

namespace SortedGet

/-- The length of the key can be said in 16 bits. -/
def IsShort (key : String) : Prop := (Text.Utf8.encode key).length < 2 ^ 16

instance : DecidablePred IsShort := fun key =>
  inferInstanceAs (Decidable ((Text.Utf8.encode key).length < 2 ^ 16))

/-! ## Where reading stops -/

/-- Why a part cannot be read behind `front` if `rest` is all that follows. -/
def MessagePart.Lacking (kind : UInt8) (front rest : Bytes) : MessagePart → Prop
  | .count => rest.length < 4
  | .keyLength | .missedStatus => rest.length < 2
  | .key => ∃ n < 2 ^ 16, bigEndian 2 n <:+ front ∧ rest.length < n
  | .keyEncoding => ∃ content, bigEndian 2 content.length ++ content <:+ front ∧
      ∀ s, Text.Utf8.encode s ≠ content
  | .startKey | .stopKey | .elementKey | .trimmedKey =>
    ∀ key : OrderKey, key.kind = kind → key.IsShort → ¬key.encode <+: rest
  | .elementValue => ∃ n < 2 ^ 32, bigEndian 4 n <:+ front ∧ rest.length < n
  | .trailer => rest.length ≠ 1
  | .requestExtras => False

theorem MessagePart.Lacking.behind {kind : UInt8} {front rest : Bytes} {part : MessagePart}
    (h : part.Lacking kind front rest) (before : Bytes) :
    part.Lacking kind (before ++ front) rest := by
  have hsuffix : ∀ {x : Bytes}, x <:+ front → x <:+ before ++ front := fun hx =>
    hx.trans (List.suffix_append before front)
  cases part with
  | key =>
    obtain ⟨n, hn, hx, hshort⟩ := h
    exact ⟨n, hn, hsuffix hx, hshort⟩
  | elementValue =>
    obtain ⟨n, hn, hx, hshort⟩ := h
    exact ⟨n, hn, hsuffix hx, hshort⟩
  | keyEncoding =>
    obtain ⟨content, hx, hnone⟩ := h
    exact ⟨content, hsuffix hx, hnone⟩
  | _ => exact h

namespace Reader

variable {α β ρ : Type} {kind : UInt8}

/-- If `r` fails on `src`, it does so at a place in `src` where the part that it names is lacking. -/
def Stops (kind : UInt8) (r : Reader α) : Prop :=
  ∀ {src part}, r src = .error part →
    ∃ front rest, src = front ++ rest ∧ part.Lacking kind front rest

/-- `r` reads the encodings of the valid `x`, and gives the value of `x` for them. -/
structure Reads (kind : UInt8) (r : Reader α) (valid : ρ → Prop) (encode : ρ → Bytes)
    (value : ρ → α) : Prop where
  exact : ∀ {src a rest}, r src = .ok (a, rest) ↔ ∃ x, valid x ∧ src = encode x ++ rest ∧ value x = a
  stops : Stops kind r

/-! ## One reader after the other -/

theorem pure_eq_ok {a b : α} {src rest : Bytes} :
    (pure a : Reader α) src = .ok (b, rest) ↔ src = rest ∧ a = b := by
  change Except.ok (a, src) = .ok (b, rest) ↔ _
  rw [Except.ok.injEq, Prod.mk.injEq, and_comm]

theorem bind_eq_ok {r : Reader α} {f : α → Reader β} {src rest : Bytes} {b : β} :
    (r >>= f) src = .ok (b, rest) ↔ ∃ a mid, r src = .ok (a, mid) ∧ f a mid = .ok (b, rest) := by
  change (r src >>= fun read => f read.1 read.2) = _ ↔ _
  cases r src with
  | error part =>
    constructor
    · intro h
      cases h
    · rintro ⟨_, _, h, -⟩
      cases h
  | ok read =>
    constructor
    · intro h
      exact ⟨read.1, read.2, rfl, h⟩
    · rintro ⟨a, mid, hread, h⟩
      cases hread
      exact h

theorem bind_eq_error {r : Reader α} {f : α → Reader β} {src : Bytes} {part : MessagePart} :
    (r >>= f) src = .error part ↔
      r src = .error part ∨ ∃ a mid, r src = .ok (a, mid) ∧ f a mid = .error part := by
  change (r src >>= fun read => f read.1 read.2) = _ ↔ _
  cases r src with
  | error part' =>
    constructor
    · intro h
      cases h
      exact .inl rfl
    · rintro (h | ⟨_, _, h, -⟩)
      · cases h
        rfl
      · cases h
  | ok read =>
    constructor
    · intro h
      exact .inr ⟨read.1, read.2, rfl, h⟩
    · rintro (h | ⟨a, mid, hread, h⟩)
      · cases h
      · cases hread
        exact h

theorem map_eq_bind {r : Reader α} {f : α → β} : f <$> r = r >>= fun a => pure (f a) :=
  (bind_pure_comp f r).symm

/-- The second reader starts where the first one is done. -/
theorem Reads.stops_bind {r : Reader α} {valid : ρ → Prop} {encode : ρ → Bytes} {value : ρ → α}
    (h : r.Reads kind valid encode value) {f : α → Reader β} (hf : ∀ a, Stops kind (f a)) :
    Stops kind (r >>= f) := by
  intro src part hstop
  rcases bind_eq_error.1 hstop with hfirst | ⟨a, mid, hread, hsecond⟩
  · exact h.stops hfirst
  · obtain ⟨x, -, rfl, -⟩ := h.exact.1 hread
    obtain ⟨front, rest, rfl, hlacking⟩ := hf a hsecond
    exact ⟨encode x ++ front, rest, (List.append_assoc _ _ _).symm, hlacking.behind _⟩

/-- What is read without a change is what was written. -/
theorem Reads.eq_ok {r : Reader α} {valid : α → Prop} {encode : α → Bytes}
    (h : r.Reads kind valid encode id) {src rest : Bytes} {a : α} :
    r src = .ok (a, rest) ↔ valid a ∧ src = encode a ++ rest := by
  rw [h.exact]
  constructor
  · rintro ⟨_, hvalid, rfl, rfl⟩
    exact ⟨hvalid, rfl⟩
  · rintro ⟨hvalid, rfl⟩
    exact ⟨a, hvalid, rfl, rfl⟩

/-- An encoding tells where it ends. -/
theorem Reads.unique {r : Reader α} {valid : ρ → Prop} {encode : ρ → Bytes} {value : ρ → α}
    (h : r.Reads kind valid encode value) {x y : ρ} (hx : valid x) (hy : valid y) {rest rest' : Bytes}
    (heq : encode x ++ rest = encode y ++ rest') : value x = value y ∧ rest = rest' := by
  have hread : r (encode x ++ rest) = .ok (value x, rest) := h.exact.2 ⟨x, hx, rfl, rfl⟩
  rw [h.exact.2 ⟨y, hy, heq, rfl⟩, Except.ok.injEq, Prod.mk.injEq] at hread
  exact ⟨hread.1.symm, hread.2.symm⟩

theorem stops_pure (kind : UInt8) (a : α) : Stops kind (pure a : Reader α) := fun h => by cases h

/-! ## Single parts -/

theorem content_eq_ok {n : Nat} {part : MessagePart} {src read rest : Bytes} :
    content n part src = .ok (read, rest) ↔ src = read ++ rest ∧ read.length = n := by
  rw [content, ← Bytes.split?_eq_some_iff]
  cases Bytes.split? n src <;> simp

theorem content_eq_error {n : Nat} {part part' : MessagePart} {src : Bytes} :
    content n part src = .error part' ↔ part = part' ∧ src.length < n := by
  rw [content, Bytes.split?]
  by_cases hn : n ≤ src.length
  · rw [if_pos (List.length_take_of_le hn)]
    simp [Nat.not_lt.2 hn]
  · have hshort : (src.take n).length ≠ n := by
      rw [List.length_take]
      omega
    rw [if_neg hshort]
    simp [Nat.lt_of_not_le hn]

theorem word_eq_ok {width n : Nat} {part : MessagePart} {src rest : Bytes} :
    word width part src = .ok (n, rest) ↔ src = bigEndian width n ++ rest ∧ n < wordCount width := by
  rw [word, map_eq_bind, bind_eq_ok]
  constructor
  · rintro ⟨read, mid, hread, hn⟩
    obtain ⟨rfl, rfl⟩ := content_eq_ok.1 hread
    obtain ⟨rfl, rfl⟩ := pure_eq_ok.1 hn
    exact ⟨by rw [bigEndian_ofBigEndian], ofBigEndian_lt read⟩
  · rintro ⟨rfl, hn⟩
    refine ⟨bigEndian width n, rest, content_eq_ok.2 ⟨rfl, length_bigEndian width n⟩, ?_⟩
    exact pure_eq_ok.2 ⟨rfl, by rw [ofBigEndian_bigEndian, Nat.mod_eq_of_lt hn]⟩

theorem word_eq_error {width : Nat} {part part' : MessagePart} {src : Bytes} :
    word width part src = .error part' ↔ part = part' ∧ src.length < width := by
  rw [word, map_eq_bind, bind_eq_error, content_eq_error]
  constructor
  · rintro (h | ⟨_, _, -, h⟩)
    · exact h
    · cases h
  · exact .inl

theorem reads_word32 (kind : UInt8) :
    Reads kind word32 (fun _ => True) (fun n : UInt32 => bigEndian 4 n.toNat) id := by
  constructor
  · intro src a rest
    rw [word32, map_eq_bind, bind_eq_ok]
    constructor
    · rintro ⟨n, mid, hn, ha⟩
      obtain ⟨rfl, hlt⟩ := word_eq_ok.1 hn
      obtain ⟨rfl, rfl⟩ := pure_eq_ok.1 ha
      exact ⟨.ofNat n, trivial, by rw [UInt32.toNat_ofNat_of_lt' hlt], rfl⟩
    · rintro ⟨n, -, rfl, rfl⟩
      exact ⟨n.toNat, rest, word_eq_ok.2 ⟨rfl, n.toNat_lt⟩, pure_eq_ok.2 ⟨rfl, UInt32.ofNat_toNat⟩⟩
  · intro src part hstop
    rw [word32, map_eq_bind, bind_eq_error, word_eq_error] at hstop
    rcases hstop with ⟨rfl, hshort⟩ | ⟨_, _, -, h⟩
    · exact ⟨[], src, rfl, hshort⟩
    · cases h

theorem reads_text (kind : UInt8) : Reads kind text IsShort encodeText id := by
  constructor
  · intro src s rest
    rw [text, bind_eq_ok]
    constructor
    · rintro ⟨n, mid, hn, hcontent⟩
      obtain ⟨rfl, hlt⟩ := word_eq_ok.1 hn
      obtain ⟨read, rest', hread, hs⟩ := bind_eq_ok.1 hcontent
      obtain ⟨rfl, rfl⟩ := content_eq_ok.1 hread
      cases hdecode : Text.Utf8.decode read with
      | ok s' =>
        rw [hdecode] at hs
        obtain ⟨rfl, rfl⟩ := pure_eq_ok.1 hs
        have hencode := Text.Utf8.encode_of_decode hdecode
        refine ⟨s', ?_, ?_, rfl⟩
        · rw [IsShort, hencode]
          exact hlt
        · rw [encodeText, hencode, List.append_assoc]
      | error fault =>
        rw [hdecode] at hs
        cases hs
    · rintro ⟨s, hshort, rfl, rfl⟩
      refine ⟨_, Text.Utf8.encode s ++ rest, word_eq_ok.2 ⟨List.append_assoc _ _ _, hshort⟩, ?_⟩
      refine bind_eq_ok.2 ⟨_, rest, content_eq_ok.2 ⟨rfl, rfl⟩, ?_⟩
      rw [Text.Utf8.decode_encode]
      exact pure_eq_ok.2 ⟨rfl, rfl⟩
  · intro src part hstop
    rw [text, bind_eq_error, word_eq_error] at hstop
    rcases hstop with ⟨rfl, hshort⟩ | ⟨n, mid, hn, hstop⟩
    · exact ⟨[], src, rfl, hshort⟩
    · obtain ⟨rfl, hlt⟩ := word_eq_ok.1 hn
      rw [bind_eq_error, content_eq_error] at hstop
      rcases hstop with ⟨rfl, hshort⟩ | ⟨read, rest, hread, hstop⟩
      · exact ⟨bigEndian 2 n, mid, rfl, n, hlt, List.suffix_rfl, hshort⟩
      · obtain ⟨rfl, rfl⟩ := content_eq_ok.1 hread
        cases hdecode : Text.Utf8.decode read with
        | ok s =>
          rw [hdecode] at hstop
          cases hstop
        | error fault =>
          rw [hdecode] at hstop
          cases hstop
          refine ⟨bigEndian 2 read.length ++ read, rest, by rw [List.append_assoc], read,
            List.suffix_rfl, fun s hs => ?_⟩
          rw [← hs, Text.Utf8.decode_encode] at hdecode
          cases hdecode

end Reader

end SortedGet

/-- An order key of a kind is read just where one has been written. -/
theorem OrderKey.read_eq_some {kind : UInt8} {src rest : Bytes} {key : OrderKey} :
    OrderKey.read kind src = (some key, rest) ↔
      (key.kind = kind ∧ key.IsShort) ∧ src = key.encode ++ rest := by
  constructor
  · intro h
    unfold OrderKey.read at h
    split at h
    · cases h
    · next n mid hword =>
      obtain ⟨rfl, hlt⟩ := Bytes.word?_eq_some hword
      split at h
      · cases h
      · next content rest' hsplit =>
        obtain ⟨rfl, rfl⟩ := Bytes.split?_eq_some_iff.1 hsplit
        split at h
        · next hnumber =>
          obtain ⟨rfl, hlength⟩ := hnumber
          cases h
          have hlt := ofBigEndian_lt content
          rw [hlength] at hlt
          refine ⟨⟨rfl, trivial⟩, ?_⟩
          rw [OrderKey.encode, UInt64.toNat_ofNat_of_lt' hlt, ← hlength, bigEndian_ofBigEndian,
            List.append_assoc]
        · split at h
          · next hbytes =>
            cases h
            exact ⟨⟨hbytes.symm, hlt⟩, by rw [OrderKey.encode, List.append_assoc]⟩
          · cases h
  · rintro ⟨⟨rfl, hshort⟩, rfl⟩
    cases key with
    | number n =>
      have hword : Bytes.word? 2 ((number n).encode ++ rest) = some (8, bigEndian 8 n.toNat ++ rest) := by
        rw [OrderKey.encode, List.append_assoc, Bytes.word?_bigEndian]
        rfl
      have hsplit := Bytes.split?_append (bigEndian 8 n.toNat) rest
      rw [length_bigEndian] at hsplit
      have hvalue : UInt64.ofNat (ofBigEndian (bigEndian 8 n.toNat)) = n := by
        rw [ofBigEndian_bigEndian, Nat.mod_eq_of_lt (show _ < wordCount 8 from n.toNat_lt)]
        exact UInt64.ofNat_toNat
      simp only [OrderKey.read, hword, hsplit, OrderKey.kind, and_self, if_true, hvalue]
    | bytes b =>
      have hword : Bytes.word? 2 ((bytes b).encode ++ rest) = some (b.length, b ++ rest) := by
        rw [OrderKey.encode, List.append_assoc, Bytes.word?_bigEndian,
          Nat.mod_eq_of_lt (show _ < wordCount 2 from hshort)]
      simp [OrderKey.read, hword, OrderKey.kind]

namespace SortedGet.Reader

variable {α β ρ : Type} {kind : UInt8}

theorem orderKey_eq_ok {part : MessagePart} {src rest : Bytes} {key : OrderKey} :
    orderKey kind part src = .ok (key, rest) ↔
      (key.kind = kind ∧ key.IsShort) ∧ src = key.encode ++ rest := by
  rw [← OrderKey.read_eq_some, orderKey]
  split
  · next heq =>
    rw [heq, Except.ok.injEq, Prod.mk.injEq, Prod.mk.injEq, Option.some.injEq]
  · next heq =>
    constructor
    · intro h
      cases h
    · intro h
      rw [heq] at h
      cases h

theorem stops_orderKey {part : MessagePart}
    (hpart : ∀ {front rest : Bytes}, (∀ key : OrderKey, key.kind = kind → key.IsShort →
      ¬key.encode <+: rest) → part.Lacking kind front rest) : Stops kind (orderKey kind part) := by
  intro src part' hstop
  refine ⟨[], src, rfl, ?_⟩
  have hpart' : part' = part := by
    rw [orderKey] at hstop
    split at hstop <;> cases hstop
    rfl
  rw [hpart']
  refine hpart fun key hkind hshort ⟨rest, hsrc⟩ => ?_
  rw [orderKey_eq_ok.2 ⟨⟨hkind, hshort⟩, hsrc.symm⟩] at hstop
  cases hstop

theorem reads_orderKey {part : MessagePart}
    (hpart : ∀ {front rest : Bytes}, (∀ key : OrderKey, key.kind = kind → key.IsShort →
      ¬key.encode <+: rest) → part.Lacking kind front rest) :
    Reads kind (orderKey kind part) (fun key => key.kind = kind ∧ key.IsShort) OrderKey.encode id := by
  constructor
  · intro src key rest
    rw [orderKey_eq_ok]
    constructor
    · rintro ⟨hkey, rfl⟩
      exact ⟨key, hkey, rfl, rfl⟩
    · rintro ⟨_, hkey, rfl, rfl⟩
      exact ⟨hkey, rfl⟩
  · exact stops_orderKey hpart

/-! ## Many entries -/

section Entries

variable {entry : Reader α} {valid : ρ → Prop} {encode : ρ → Bytes} {value : ρ → α}

theorem Reads.times (h : entry.Reads kind valid encode value) : ∀ n, (times entry n).Reads kind
    (fun xs : List ρ => xs.length = n ∧ ∀ x ∈ xs, valid x) (List.flatMap encode) (List.map value)
  | 0 => by
    refine ⟨fun {src as rest} => ?_, stops_pure kind []⟩
    rw [Reader.times, pure_eq_ok]
    constructor
    · rintro ⟨rfl, rfl⟩
      exact ⟨[], ⟨rfl, fun _ hx => by cases hx⟩, rfl, rfl⟩
    · rintro ⟨xs, ⟨hlength, -⟩, rfl, rfl⟩
      rw [List.length_eq_zero_iff.1 hlength]
      exact ⟨rfl, rfl⟩
  | n + 1 => by
    have hothers := h.times n
    refine ⟨fun {src as rest} => ?_, ?_⟩
    · rw [Reader.times, bind_eq_ok]
      constructor
      · rintro ⟨a, mid, hfirst, hrest⟩
        obtain ⟨x, hx, rfl, rfl⟩ := h.exact.1 hfirst
        obtain ⟨others, mid', hmany, has⟩ := bind_eq_ok.1 hrest
        obtain ⟨xs, ⟨hlength, hxs⟩, rfl, rfl⟩ := hothers.exact.1 hmany
        obtain ⟨rfl, rfl⟩ := pure_eq_ok.1 has
        refine ⟨x :: xs, ⟨congrArg Nat.succ hlength, List.forall_mem_cons.2 ⟨hx, hxs⟩⟩, ?_, rfl⟩
        rw [List.flatMap_cons, List.append_assoc]
      · rintro ⟨xs, ⟨hlength, hxs⟩, rfl, rfl⟩
        obtain ⟨x, xs, rfl⟩ := List.exists_cons_of_length_eq_add_one hlength
        obtain ⟨hx, hxs⟩ := List.forall_mem_cons.1 hxs
        refine ⟨value x, xs.flatMap encode ++ rest, h.exact.2 ⟨x, hx, ?_, rfl⟩, bind_eq_ok.2 ?_⟩
        · rw [List.flatMap_cons, List.append_assoc]
        · exact ⟨xs.map value, rest, hothers.exact.2 ⟨xs, ⟨Nat.succ.inj hlength, hxs⟩, rfl, rfl⟩,
            pure_eq_ok.2 ⟨rfl, rfl⟩⟩
    · exact h.stops_bind fun a => hothers.stops_bind fun _ => stops_pure kind _

theorem Reads.counted (h : entry.Reads kind valid encode value) : (counted entry).Reads kind
    (fun xs : List ρ => xs.length < 2 ^ 32 ∧ ∀ x ∈ xs, valid x) (encodeCounted encode)
    (List.map value) := by
  refine ⟨fun {src as rest} => ?_, (reads_word32 kind).stops_bind fun n => (h.times n.toNat).stops⟩
  rw [Reader.counted, bind_eq_ok]
  constructor
  · rintro ⟨n, mid, hn, hmany⟩
    obtain ⟨count, -, rfl, rfl⟩ := (reads_word32 kind).exact.1 hn
    obtain ⟨xs, ⟨hlength, hxs⟩, rfl, rfl⟩ := (h.times _).exact.1 hmany
    refine ⟨xs, ⟨hlength ▸ count.toNat_lt, hxs⟩, ?_, rfl⟩
    rw [encodeCounted, hlength, List.append_assoc]
    rfl
  · rintro ⟨xs, ⟨hlength, hxs⟩, rfl, rfl⟩
    have hcount : (UInt32.ofNat xs.length).toNat = xs.length := UInt32.toNat_ofNat_of_lt' hlength
    refine ⟨UInt32.ofNat xs.length, xs.flatMap encode ++ rest, ?_, ?_⟩
    · refine (reads_word32 kind).exact.2 ⟨UInt32.ofNat xs.length, trivial, ?_, rfl⟩
      rw [encodeCounted, hcount, List.append_assoc]
    · exact (h.times _).exact.2 ⟨xs, ⟨hcount.symm, hxs⟩, rfl, rfl⟩

theorem Reads.counted_self {valid : α → Prop} {encode : α → Bytes}
    (h : entry.Reads kind valid encode id) : (Reader.counted entry).Reads kind
      (fun xs : List α => xs.length < 2 ^ 32 ∧ ∀ x ∈ xs, valid x) (encodeCounted encode) id := by
  have hcounted := h.counted
  rwa [List.map_id_fun] at hcounted

end Entries

end SortedGet.Reader

end ShardedCache

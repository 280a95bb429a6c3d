import ShardedCache.Proofs.SortedGet.Reading
import ShardedCache.SortedGet.RangeQuery

/-!
# What a shard reads in a query

A request tells of one kind of order key, and of lengths in 16 or 32 bits. The queries that a shard
can read are those that this is enough for (`RangeQuery.Fits`): they are read as they were written,
and no other query is (`RangeQuery.ofRequest_self`). What a shard makes of one that does not fit is
the fitting query whose encoding stands at the front of its value, if there is one
(`RangeQuery.ofRequest_extras`).
-/

namespace ShardedCache.SortedGet.RangeQuery

/-- The order keys are of one kind, and all lengths can be said. -/
structure Fits (q : RangeQuery) : Prop where
  kind : q.range.stop.kind = q.range.kind
  start : q.range.start.IsShort
  stop : q.range.stop.IsShort
  count : q.keys.length < 2 ^ 32
  keys : ∀ key ∈ q.keys, IsShort key

variable {q q' : RangeQuery}

/-! ## The value -/

theorem readValue_eq_ok {count : UInt32} {unique : Bool} {kind : UInt8} {src rest : Bytes} :
    readValue count unique kind src = .ok (q, rest) ↔
      (q.count = count ∧ q.unique = unique ∧ q.range.kind = kind) ∧ q.Fits ∧ src = q.value ++ rest := by
  have hstart := @Reader.reads_orderKey kind .startKey id
  have hstop := @Reader.reads_orderKey kind .stopKey id
  have hkeys := (Reader.reads_text kind).counted_self
  rw [readValue, Reader.bind_eq_ok]
  constructor
  · rintro ⟨start, m₁, h₁, hread₁⟩
    obtain ⟨stop, m₂, h₂, hread₂⟩ := Reader.bind_eq_ok.1 hread₁
    obtain ⟨keys, m₃, h₃, hread₃⟩ := Reader.bind_eq_ok.1 hread₂
    obtain ⟨⟨hkind, hshort⟩, rfl⟩ := hstart.eq_ok.1 h₁
    obtain ⟨⟨hkind', hshort'⟩, rfl⟩ := hstop.eq_ok.1 h₂
    obtain ⟨⟨hcount, hall⟩, rfl⟩ := hkeys.eq_ok.1 h₃
    obtain ⟨rfl, rfl⟩ := Reader.pure_eq_ok.1 hread₃
    refine ⟨⟨rfl, rfl, hkind⟩, ⟨hkind'.trans hkind.symm, hshort, hshort', hcount, hall⟩, ?_⟩
    rw [value, List.append_assoc, List.append_assoc]
  · rintro ⟨⟨rfl, rfl, rfl⟩, hfits, rfl⟩
    rw [value, List.append_assoc, List.append_assoc]
    refine ⟨q.range.start, _, hstart.eq_ok.2 ⟨⟨rfl, hfits.start⟩, rfl⟩, Reader.bind_eq_ok.2 ?_⟩
    refine ⟨q.range.stop, _, hstop.eq_ok.2 ⟨⟨hfits.kind, hfits.stop⟩, rfl⟩, Reader.bind_eq_ok.2 ?_⟩
    exact ⟨q.keys, rest, hkeys.eq_ok.2 ⟨⟨hfits.count, hfits.keys⟩, rfl⟩,
      Reader.pure_eq_ok.2 ⟨rfl, rfl⟩⟩

/-! ## The extras -/

/-- Of the extras, everything is read but two bytes. -/
theorem ofRequest_eq (q : RangeQuery) (value : Bytes) :
    ofRequest q.extras value = (·.1) <$> readValue q.count q.unique q.range.kind value := by
  obtain ⟨c₁, c₂, c₃, c₄, hcount⟩ : ∃ c₁ c₂ c₃ c₄, bigEndian 4 q.count.toNat = [c₁, c₂, c₃, c₄] :=
    ⟨_, _, _, _, rfl⟩
  have hread : UInt32.ofNat (ofBigEndian [c₁, c₂, c₃, c₄]) = q.count := by
    rw [← hcount, ofBigEndian_bigEndian, Nat.mod_eq_of_lt (show _ < wordCount 4 from q.count.toNat_lt)]
    exact UInt32.ofNat_toNat
  have hmode : ((if q.unique then uniqueMode else 0) == uniqueMode) = q.unique := by
    cases q.unique <;> rfl
  rw [extras, hcount]
  change (·.1) <$> readValue (UInt32.ofNat (ofBigEndian [c₁, c₂, c₃, c₄]))
    ((if q.unique then uniqueMode else 0) == uniqueMode) q.range.kind value = _
  rw [hread, hmode]

/-- A shard reads the fitting query at the front of the value, and takes the count, the mode and the
kind of order key from the extras. -/
theorem ofRequest_extras {value : Bytes} : ofRequest q.extras value = .ok q' ↔
    (q'.count = q.count ∧ q'.unique = q.unique ∧ q'.range.kind = q.range.kind) ∧ q'.Fits ∧
      q'.value <+: value := by
  have hread : ofRequest q.extras value = .ok q' ↔
      ∃ rest, readValue q.count q.unique q.range.kind value = .ok (q', rest) := by
    rw [ofRequest_eq]
    cases readValue q.count q.unique q.range.kind value with
    | error part =>
      constructor
      · intro h
        cases h
      · rintro ⟨_, h⟩
        cases h
    | ok found =>
      constructor
      · intro h
        cases h
        exact ⟨found.2, rfl⟩
      · rintro ⟨rest, h⟩
        cases h
        rfl
  rw [hread]
  constructor
  · rintro ⟨rest, h⟩
    obtain ⟨hsame, hfits, rfl⟩ := readValue_eq_ok.1 h
    exact ⟨hsame, hfits, List.prefix_append _ _⟩
  · rintro ⟨hsame, hfits, rest, rfl⟩
    exact ⟨rest, readValue_eq_ok.2 ⟨hsame, hfits, rfl⟩⟩

/-- A query is read as it was written just if it fits. -/
theorem ofRequest_self : ofRequest q.extras q.value = .ok q ↔ q.Fits := by
  rw [ofRequest_extras]
  constructor
  · rintro ⟨-, hfits, -⟩
    exact hfits
  · intro hfits
    exact ⟨⟨rfl, rfl, rfl⟩, hfits, List.prefix_rfl⟩

/-! ## Order keys of two kinds -/

/-- A number is written like the bytes that spell it. -/
theorem encode_number (n : UInt64) :
    (OrderKey.number n).encode = (OrderKey.bytes (bigEndian 8 n.toNat)).encode := by
  rw [OrderKey.encode, OrderKey.encode, length_bigEndian]

/-- A range from bytes to a number is read as one from bytes to bytes. -/
theorem ofRequest_of_mixed {start : Bytes} {stop : UInt64} (hrange : q.range = ⟨.bytes start, .number stop⟩)
    (hstart : start.length < 2 ^ 16) (hcount : q.keys.length < 2 ^ 32) (hkeys : ∀ key ∈ q.keys, IsShort key) :
    ofRequest q.extras q.value =
      .ok { q with range := ⟨.bytes start, .bytes (bigEndian 8 stop.toNat)⟩ } := by
  refine ofRequest_extras.2 ⟨⟨rfl, rfl, by rw [hrange]; rfl⟩, ⟨rfl, hstart, ?_, hcount, hkeys⟩, ?_⟩
  · change (bigEndian 8 stop.toNat).length < 2 ^ 16
    rw [length_bigEndian]
    decide
  · have hvalue : q.value =
        value { q with range := ⟨.bytes start, .bytes (bigEndian 8 stop.toNat)⟩ } := by
      rw [value, value, hrange, encode_number]
    exact hvalue ▸ List.prefix_rfl

end ShardedCache.SortedGet.RangeQuery

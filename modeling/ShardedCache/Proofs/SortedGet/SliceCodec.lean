import ShardedCache.Command.Reply
import ShardedCache.Proofs.SortedGet.Reading

/-!
# Slices are read as they were written

On the wire a slice is a `RawSlice`: statuses are numbers, and the last byte may have any bits. Reading
accepts the encodings of those whose lengths can be said and nothing else (`ShardSlice.decode_eq_ok`),
so no accepted value is the beginning of another one (`ShardSlice.eq_nil_of_decode_append`). What is read is
what was written, but for statuses that share a number and bits that nobody reads
(`ShardSlice.codec_exact`).
-/

namespace ShardedCache.SortedGet

open Wire (Frame Status StatusCode)

/-- A slice as it stands on the wire. -/
structure RawSlice where
  elements : List (Element StoredValue)
  missed : List (String × UInt16)
  trimmed : List TrimMark
  trailer : UInt8
  deriving DecidableEq, Repr

namespace RawSlice

def encodeMissed (m : String × UInt16) : Bytes := encodeText m.1 ++ bigEndian 2 m.2.toNat

def encode (r : RawSlice) : Bytes :=
  encodeCounted ShardSlice.encodeElement r.elements ++ encodeCounted encodeMissed r.missed
    ++ encodeCounted ShardSlice.encodeMark r.trimmed ++ [r.trailer]

/-- What a reader makes of it. -/
def slice (r : RawSlice) : ShardSlice StoredValue where
  elements := r.elements
  missed := r.missed.map fun m => (m.1, .ofWire m.2 [])
  trimmed := r.trimmed
  tailTrimmed := r.trailer &&& tailTrimmedBit != 0

/-- Each number is the one of the status that it stands for, and the last byte has no other bit. -/
def IsCanonical (r : RawSlice) : Prop :=
  (∀ m ∈ r.missed, (StatusCode.ofWire m.2).toWire = m.2) ∧ (r.trailer = 0 ∨ r.trailer = 1)

end RawSlice

namespace ShardSlice

variable {kind : UInt8}

/-- How the slice is written. -/
def raw (s : ShardSlice StoredValue) : RawSlice where
  elements := s.elements
  missed := s.missed.map fun m => (m.1, m.2.code.toWire)
  trimmed := s.trimmed
  trailer := if s.tailTrimmed then tailTrimmedBit else 0

/-- The slice with the statuses that the numbers of its statuses stand for. -/
def reread (s : ShardSlice StoredValue) : ShardSlice StoredValue :=
  { s with missed := s.missed.map fun m => (m.1, .ofWire m.2.code.toWire []) }

/-- The order keys are of one kind, and all lengths can be said. -/
structure Fits (kind : UInt8) (s : ShardSlice StoredValue) : Prop where
  elements : s.elements.length < 2 ^ 32 ∧ ∀ e ∈ s.elements, IsShort e.key ∧
    (e.orderKey.kind = kind ∧ e.orderKey.IsShort) ∧ e.value.data.length < 2 ^ 32
  missed : s.missed.length < 2 ^ 32 ∧ ∀ m ∈ s.missed, IsShort m.1
  trimmed : s.trimmed.length < 2 ^ 32 ∧ ∀ m ∈ s.trimmed, IsShort m.key ∧
    (m.orderKey.kind = kind ∧ m.orderKey.IsShort)

theorem Fits.written {r : RawSlice} (h : r.slice.Fits kind) :
    r.missed.length < 2 ^ 32 ∧ ∀ m ∈ r.missed, IsShort m.1 := by
  have hmissed := h.missed
  rw [RawSlice.slice, List.length_map] at hmissed
  exact ⟨hmissed.1, fun m hm => hmissed.2 _ (List.mem_map_of_mem hm)⟩

theorem encode_raw (s : ShardSlice StoredValue) : s.raw.encode = s.encode := by
  rw [RawSlice.encode, encode, raw, encodeCounted, encodeCounted, List.length_map, List.flatMap_map]
  rfl

theorem slice_raw (s : ShardSlice StoredValue) : s.raw.slice = s.reread := by
  have htail : ((if s.tailTrimmed then tailTrimmedBit else 0) &&& tailTrimmedBit != 0) =
      s.tailTrimmed := by
    cases s.tailTrimmed <;> rfl
  rw [RawSlice.slice, raw, reread, List.map_map, htail]
  rfl

theorem fits_reread {s : ShardSlice StoredValue} (h : s.Fits kind) : s.reread.Fits kind := by
  refine ⟨h.elements, ?_, h.trimmed⟩
  rw [reread, List.length_map]
  refine ⟨h.missed.1, fun m hm => ?_⟩
  obtain ⟨m', hm', rfl⟩ := List.mem_map.1 hm
  exact h.missed.2 m' hm'

/-! ## The readers of the entries -/

theorem reads_element (kind : UInt8) : (readElement kind).Reads kind
    (fun e => IsShort e.key ∧ (e.orderKey.kind = kind ∧ e.orderKey.IsShort) ∧
      e.value.data.length < 2 ^ 32) encodeElement id := by
  have hkey := Reader.reads_text kind
  have hword := Reader.reads_word32 kind
  have horder := @Reader.reads_orderKey kind .elementKey id
  constructor
  · intro src e rest
    rw [readElement, Reader.bind_eq_ok]
    constructor
    · rintro ⟨key, m₁, h₁, hread₁⟩
      obtain ⟨flags, m₂, h₂, hread₂⟩ := Reader.bind_eq_ok.1 hread₁
      obtain ⟨orderKey, m₃, h₃, hread₃⟩ := Reader.bind_eq_ok.1 hread₂
      obtain ⟨length, m₄, h₄, hread₄⟩ := Reader.bind_eq_ok.1 hread₃
      obtain ⟨data, m₅, h₅, hread₅⟩ := Reader.bind_eq_ok.1 hread₄
      obtain ⟨hshort, rfl⟩ := hkey.eq_ok.1 h₁
      obtain ⟨-, rfl⟩ := hword.eq_ok.1 h₂
      obtain ⟨hkind, rfl⟩ := horder.eq_ok.1 h₃
      obtain ⟨-, rfl⟩ := hword.eq_ok.1 h₄
      obtain ⟨rfl, hlength⟩ := Reader.content_eq_ok.1 h₅
      obtain ⟨rfl, rfl⟩ := Reader.pure_eq_ok.1 hread₅
      refine ⟨_, ⟨hshort, hkind, hlength ▸ length.toNat_lt⟩, ?_, rfl⟩
      simp only [encodeElement, hlength, List.append_assoc]
    · rintro ⟨e, ⟨hshort, hkind, hlength⟩, rfl, rfl⟩
      have hcount : (UInt32.ofNat e.value.data.length).toNat = e.value.data.length :=
        UInt32.toNat_ofNat_of_lt' hlength
      simp only [encodeElement, List.append_assoc]
      refine ⟨e.key, _, hkey.eq_ok.2 ⟨hshort, rfl⟩, Reader.bind_eq_ok.2 ?_⟩
      refine ⟨e.value.flags, _, hword.eq_ok.2 ⟨trivial, rfl⟩, Reader.bind_eq_ok.2 ?_⟩
      refine ⟨e.orderKey, _, horder.eq_ok.2 ⟨hkind, rfl⟩, Reader.bind_eq_ok.2 ?_⟩
      refine ⟨UInt32.ofNat e.value.data.length, e.value.data ++ rest, ?_, Reader.bind_eq_ok.2 ?_⟩
      · exact hword.eq_ok.2 ⟨trivial, by rw [hcount]⟩
      · exact ⟨e.value.data, rest, Reader.content_eq_ok.2 ⟨rfl, hcount.symm⟩,
          Reader.pure_eq_ok.2 ⟨rfl, rfl⟩⟩
  · refine hkey.stops_bind fun _ => hword.stops_bind fun _ => horder.stops_bind fun _ => ?_
    intro src part hstop
    rcases Reader.bind_eq_error.1 hstop with hfirst | ⟨length, mid, hread, hsecond⟩
    · exact hword.stops hfirst
    · obtain ⟨-, rfl⟩ := hword.eq_ok.1 hread
      rcases Reader.bind_eq_error.1 hsecond with hdata | ⟨_, _, -, hpure⟩
      · obtain ⟨rfl, hshort⟩ := Reader.content_eq_error.1 hdata
        exact ⟨bigEndian 4 length.toNat, mid, rfl, length.toNat, length.toNat_lt, List.suffix_rfl,
          hshort⟩
      · cases hpure

theorem reads_missed (kind : UInt8) : readMissed.Reads kind (fun m : String × UInt16 => IsShort m.1)
    RawSlice.encodeMissed fun m => (m.1, .ofWire m.2 []) := by
  have hkey := Reader.reads_text kind
  constructor
  · intro src m rest
    rw [readMissed, Reader.bind_eq_ok]
    constructor
    · rintro ⟨key, m₁, h₁, hread₁⟩
      obtain ⟨n, m₂, h₂, hread₂⟩ := Reader.bind_eq_ok.1 hread₁
      obtain ⟨hshort, rfl⟩ := hkey.eq_ok.1 h₁
      obtain ⟨rfl, hlt⟩ := Reader.word_eq_ok.1 h₂
      obtain ⟨rfl, hm⟩ := Reader.pure_eq_ok.1 hread₂
      refine ⟨(key, .ofNat n), hshort, ?_, hm⟩
      rw [RawSlice.encodeMissed, UInt16.toNat_ofNat_of_lt' hlt, List.append_assoc]
    · rintro ⟨m, hshort, rfl, rfl⟩
      refine ⟨m.1, bigEndian 2 m.2.toNat ++ rest, ?_, Reader.bind_eq_ok.2 ?_⟩
      · refine hkey.eq_ok.2 ⟨hshort, ?_⟩
        rw [RawSlice.encodeMissed, List.append_assoc]
      · refine ⟨m.2.toNat, rest, Reader.word_eq_ok.2 ⟨rfl, m.2.toNat_lt⟩, ?_⟩
        exact Reader.pure_eq_ok.2 ⟨rfl, by rw [UInt16.ofNat_toNat]⟩
  · refine hkey.stops_bind fun _ src part hstop => ?_
    rcases Reader.bind_eq_error.1 hstop with hstatus | ⟨_, _, -, hpure⟩
    · obtain ⟨rfl, hshort⟩ := Reader.word_eq_error.1 hstatus
      exact ⟨[], src, rfl, hshort⟩
    · cases hpure

theorem reads_mark (kind : UInt8) : (readMark kind).Reads kind
    (fun m => IsShort m.key ∧ (m.orderKey.kind = kind ∧ m.orderKey.IsShort)) encodeMark id := by
  have hkey := Reader.reads_text kind
  have horder := @Reader.reads_orderKey kind .trimmedKey id
  constructor
  · intro src m rest
    rw [readMark, Reader.bind_eq_ok]
    constructor
    · rintro ⟨key, m₁, h₁, hread₁⟩
      obtain ⟨orderKey, m₂, h₂, hread₂⟩ := Reader.bind_eq_ok.1 hread₁
      obtain ⟨hshort, rfl⟩ := hkey.eq_ok.1 h₁
      obtain ⟨hkind, rfl⟩ := horder.eq_ok.1 h₂
      obtain ⟨rfl, hm⟩ := Reader.pure_eq_ok.1 hread₂
      refine ⟨⟨key, orderKey⟩, ⟨hshort, hkind⟩, ?_, hm⟩
      rw [encodeMark, List.append_assoc]
    · rintro ⟨m, ⟨hshort, hkind⟩, rfl, rfl⟩
      refine ⟨m.key, m.orderKey.encode ++ rest, ?_, Reader.bind_eq_ok.2 ?_⟩
      · refine hkey.eq_ok.2 ⟨hshort, ?_⟩
        rw [encodeMark, List.append_assoc]
      · exact ⟨m.orderKey, rest, horder.eq_ok.2 ⟨hkind, rfl⟩, Reader.pure_eq_ok.2 ⟨rfl, rfl⟩⟩
  · exact hkey.stops_bind fun _ => horder.stops_bind fun _ => Reader.stops_pure kind _

/-! ## The whole value -/

theorem readTrailer_eq_ok {src rest : Bytes} {tail : Bool} : readTrailer src = .ok (tail, rest) ↔
    ∃ b, src = [b] ∧ rest = [] ∧ (b &&& tailTrimmedBit != 0) = tail := by
  unfold readTrailer
  split
  · next b =>
    rw [Except.ok.injEq, Prod.mk.injEq]
    constructor
    · rintro ⟨htail, rfl⟩
      exact ⟨b, rfl, rfl, htail⟩
    · rintro ⟨b', hb, rfl, htail⟩
      cases hb
      exact ⟨htail, rfl⟩
  · next hnot =>
    constructor
    · intro h
      cases h
    · rintro ⟨b, hb, -⟩
      exact absurd hb (hnot b)

theorem stops_trailer (kind : UInt8) : readTrailer.Stops kind := by
  intro src part hstop
  refine ⟨[], src, rfl, ?_⟩
  unfold readTrailer at hstop
  split at hstop
  · cases hstop
  · next hnot =>
    cases hstop
    intro hone
    obtain ⟨b, rfl⟩ := List.length_eq_one_iff.1 hone
    exact hnot b rfl

theorem decode_eq_read {v : Bytes} {s : ShardSlice StoredValue} :
    decode kind v = .ok s ↔ ∃ rest, read kind v = .ok (s, rest) := by
  rw [decode]
  cases read kind v with
  | error part =>
    constructor
    · intro h
      cases h
    · rintro ⟨_, h⟩
      cases h
  | ok found =>
    constructor
    · intro h
      cases h
      exact ⟨found.2, rfl⟩
    · rintro ⟨rest, h⟩
      cases h
      rfl

/-- The accepted values are the encodings of the raw slices that fit. -/
theorem decode_eq_ok {v : Bytes} {s : ShardSlice StoredValue} :
    decode kind v = .ok s ↔ ∃ r : RawSlice, r.slice = s ∧ s.Fits kind ∧ v = r.encode := by
  have helements := (reads_element kind).counted_self
  have hmissed := (reads_missed kind).counted
  have hmarks := (reads_mark kind).counted_self
  rw [decode_eq_read]
  constructor
  · rintro ⟨rest, hread⟩
    obtain ⟨elements, m₁, h₁, hread₁⟩ := Reader.bind_eq_ok.1 hread
    obtain ⟨missed, m₂, h₂, hread₂⟩ := Reader.bind_eq_ok.1 hread₁
    obtain ⟨marks, m₃, h₃, hread₃⟩ := Reader.bind_eq_ok.1 hread₂
    obtain ⟨tail, m₄, h₄, hread₄⟩ := Reader.bind_eq_ok.1 hread₃
    obtain ⟨hfits₁, rfl⟩ := helements.eq_ok.1 h₁
    obtain ⟨written, hfits₂, rfl, rfl⟩ := hmissed.exact.1 h₂
    obtain ⟨hfits₃, rfl⟩ := hmarks.eq_ok.1 h₃
    obtain ⟨trailer, rfl, -, rfl⟩ := readTrailer_eq_ok.1 h₄
    obtain ⟨-, rfl⟩ := Reader.pure_eq_ok.1 hread₄
    refine ⟨⟨elements, written, marks, trailer⟩, rfl, ⟨hfits₁, ?_, hfits₃⟩, ?_⟩
    · rw [List.length_map]
      refine ⟨hfits₂.1, fun m hm => ?_⟩
      obtain ⟨m', hm', rfl⟩ := List.mem_map.1 hm
      exact hfits₂.2 m' hm'
    · rw [RawSlice.encode, List.append_assoc, List.append_assoc]
  · rintro ⟨r, rfl, hfits, rfl⟩
    rw [RawSlice.encode, List.append_assoc, List.append_assoc]
    refine ⟨[], Reader.bind_eq_ok.2 ?_⟩
    refine ⟨r.elements, _, helements.eq_ok.2 ⟨hfits.elements, rfl⟩, Reader.bind_eq_ok.2 ?_⟩
    refine ⟨_, _, hmissed.exact.2 ⟨r.missed, hfits.written, rfl, rfl⟩, Reader.bind_eq_ok.2 ?_⟩
    refine ⟨r.trimmed, _, hmarks.eq_ok.2 ⟨hfits.trimmed, rfl⟩, Reader.bind_eq_ok.2 ?_⟩
    exact ⟨_, [], readTrailer_eq_ok.2 ⟨r.trailer, rfl, rfl, rfl⟩, Reader.pure_eq_ok.2 ⟨rfl, rfl⟩⟩

/-- Reading stops inside the value. -/
theorem stops_decode {v : Bytes} {part : MessagePart} (h : decode kind v = .error part) :
    ∃ front rest, v = front ++ rest ∧ part.Lacking kind front rest := by
  have hstops : (read kind).Stops kind :=
    (reads_element kind).counted.stops_bind fun _ => (reads_missed kind).counted.stops_bind fun _ =>
      (reads_mark kind).counted.stops_bind fun _ => by
        intro src part hstop
        rcases Reader.bind_eq_error.1 hstop with htrailer | ⟨_, _, -, hpure⟩
        · exact stops_trailer kind htrailer
        · cases hpure
  rw [decode] at h
  cases hread : read kind v with
  | ok found =>
    rw [hread] at h
    cases h
  | error part' =>
    rw [hread] at h
    cases h
    exact hstops hread

/-- An accepted value is not the beginning of another one. -/
theorem eq_nil_of_decode_append {v more : Bytes} {s s' : ShardSlice StoredValue}
    (h : decode kind v = .ok s) (h' : decode kind (v ++ more) = .ok s') : more = [] := by
  obtain ⟨r, rfl, hfits, rfl⟩ := decode_eq_ok.1 h
  obtain ⟨r', rfl, hfits', heq⟩ := decode_eq_ok.1 h'
  rw [RawSlice.encode, RawSlice.encode] at heq
  simp only [List.append_assoc] at heq
  obtain ⟨-, helements⟩ :=
    (reads_element kind).counted_self.unique hfits.elements hfits'.elements heq
  obtain ⟨-, hmissed⟩ := (reads_missed kind).counted.unique hfits.written hfits'.written helements
  obtain ⟨-, hmarks⟩ := (reads_mark kind).counted_self.unique hfits.trimmed hfits'.trimmed hmissed
  exact (List.cons.inj hmarks).2

theorem decode_encode {s : ShardSlice StoredValue} (h : s.Fits kind) :
    decode kind s.encode = .ok s.reread :=
  decode_eq_ok.2 ⟨s.raw, slice_raw s, fits_reread h, (encode_raw s).symm⟩

/-- A value is rejected if it is longer or shorter than an encoding with which it begins. -/
theorem decode_of_prefix {v : Bytes} {s : ShardSlice StoredValue} (h : s.Fits kind) (hne : v ≠ s.encode)
    (hfront : v <+: s.encode ∨ s.encode <+: v) : ∃ part, decode kind v = .error part := by
  have hencode := decode_encode h
  cases hread : decode kind v with
  | error part => exact ⟨part, rfl⟩
  | ok s' =>
    exfalso
    rcases hfront with ⟨more, hmore⟩ | ⟨more, hmore⟩
    · rw [← hmore] at hencode
      rw [eq_nil_of_decode_append hread hencode, List.append_nil] at hmore
      exact hne hmore
    · rw [← hmore] at hread
      rw [eq_nil_of_decode_append hencode hread, List.append_nil] at hmore
      exact hne hmore.symm

/-- A canonical raw slice is written as it was. -/
theorem encode_slice {r : RawSlice} (h : r.IsCanonical) : r.slice.encode = r.encode := by
  have hmissed : (r.missed.map fun m => (m.1, (StatusCode.ofWire m.2).toWire)) = r.missed := by
    refine (List.map_congr_left fun m hm => ?_).trans (List.map_id _)
    rw [h.1 m hm]
    rfl
  have htrailer : (if r.trailer &&& tailTrimmedBit != 0 then tailTrimmedBit else 0) = r.trailer := by
    rcases h.2 with h | h <;> rw [h] <;> rfl
  have hcode : ∀ n : UInt16, (Status.ofWire n []).code = StatusCode.ofWire n := fun _ => rfl
  rw [← encode_raw, raw, RawSlice.slice, List.map_map, htrailer]
  simp only [Function.comp_def, hcode, hmissed]

/-- **The codec of slices is exact.** What has been written is read again, with the statuses that the
numbers of its statuses stand for, and nothing that is shorter or longer is read. What is read
has been written with other numbers for its statuses and other bits in its last byte at most. What is
not read stops at a place inside the value where the part that is named is lacking. -/
theorem codec_exact (q : RangeQuery) (f : Frame) :
    (∀ s : ShardSlice StoredValue, s.Fits q.range.kind →
      (f.value = s.encode →
        (Command.sortRange q).payload f = .ok (some (.sortRange
          { s with missed := s.missed.map fun m => (m.1, .ofWire m.2.code.toWire []) }))) ∧
      (f.value ≠ s.encode → f.value <+: s.encode ∨ s.encode <+: f.value →
        ∃ part, (Command.sortRange q).payload f = .error (.slice part))) ∧
    (∀ payload, (Command.sortRange q).payload f = .ok payload →
      ∃ r : RawSlice, payload = some (.sortRange r.slice) ∧ r.slice.Fits q.range.kind ∧
        f.value = r.encode ∧ (r.IsCanonical → r.slice.encode = f.value)) ∧
    (∀ flaw, (Command.sortRange q).payload f = .error flaw →
      ∃ part front rest, flaw = .slice part ∧ f.value = front ++ rest ∧
        part.Lacking q.range.kind front rest) := by
  refine ⟨fun s hfits => ⟨fun hvalue => ?_, fun hne hfront => ?_⟩, fun payload h => ?_, fun flaw h => ?_⟩
  · rw [Command.payload, hvalue, decode_encode hfits]
    rfl
  · obtain ⟨part, hpart⟩ := decode_of_prefix hfits hne hfront
    exact ⟨part, by rw [Command.payload, hpart]⟩
  · rw [Command.payload] at h
    split at h
    · next s hread =>
      cases h
      obtain ⟨r, rfl, hfits, hvalue⟩ := decode_eq_ok.1 hread
      exact ⟨r, rfl, hfits, hvalue, fun hcanonical => by rw [hvalue, encode_slice hcanonical]⟩
    · cases h
  · rw [Command.payload] at h
    split at h
    · cases h
    · next part hread =>
      cases h
      obtain ⟨front, rest, hvalue, hlacking⟩ := stops_decode hread
      exact ⟨part, front, rest, rfl, hvalue, hlacking⟩

/-- A slice with an element, a missed collection and a mark. -/
def oneOfEach : ShardSlice StoredValue where
  elements := [{ key := "a", orderKey := .bytes [1], value := { flags := 7, data := [9] } }]
  missed := [("b", .cancelled "gone")]
  trimmed := [⟨"a", .bytes []⟩]
  tailTrimmed := true

theorem fits_oneOfEach : oneOfEach.Fits 1 := by
  refine ⟨?_, ?_, ?_⟩ <;> decide

/-- A query between byte strings. -/
def bytesQuery : RangeQuery :=
  { keys := ["a", "b"], range := ⟨.bytes [], .bytes [255]⟩, count := 5, unique := false }

example : decode 1 oneOfEach.encode.dropLast = .error .trailer := by decide

theorem codec_exact_of_one_of_each :
    (Command.sortRange bytesQuery).payload (.response 0 0 [] [] oneOfEach.encode 1 0) =
      .ok (some (.sortRange { oneOfEach with missed := [("b", ⟨.error, "ERROR"⟩)] })) ∧
    (∃ part front rest, (Command.sortRange bytesQuery).payload
      (.response 0 0 [] [] oneOfEach.encode.dropLast 1 0) = .error (.slice part) ∧
      oneOfEach.encode.dropLast = front ++ rest ∧ part.Lacking 1 front rest) ∧
    ∃ r : RawSlice, r.slice.Fits 1 ∧ oneOfEach.encode = r.encode ∧
      (r.IsCanonical → r.slice.encode = oneOfEach.encode) := by
  have hwhole := codec_exact bytesQuery (.response 0 0 [] [] oneOfEach.encode 1 0)
  have hcut := codec_exact bytesQuery (.response 0 0 [] [] oneOfEach.encode.dropLast 1 0)
  have hread := (hwhole.1 oneOfEach fits_oneOfEach).1 rfl
  obtain ⟨part, hpart⟩ :=
    (hcut.1 oneOfEach fits_oneOfEach).2 (by decide) (.inl (List.dropLast_prefix _))
  obtain ⟨_, front, rest, hflaw, hvalue, hlacking⟩ := hcut.2.2 _ hpart
  cases hflaw
  obtain ⟨r, -, hfits, hencode, hsame⟩ := hwhole.2.1 _ hread
  exact ⟨hread, ⟨part, front, rest, hpart, hvalue, hlacking⟩, r, hfits, hencode, hsame⟩

end ShardSlice

end ShardedCache.SortedGet

import ShardedCache.Wire.Frame

/-!
# Frames one after the other

A byte string that starts with a frame's encoding gives that frame and what follows
(`parse_encode_append`), and a beginning of an encoding gives nothing yet
(`parse_of_beginning`). So whatever has arrived of a series of encodings is read as the frames
that have arrived in full (`parse_stream`, `drain_stream`).
-/

namespace ShardedCache

namespace Bytes

/-! ## Words of fixed width -/

theorem u8?_bigEndian (b : UInt8) (rest : Bytes) :
    u8? (bigEndian 1 b.toNat ++ rest) = some (b, rest) := by
  have hmod : b.toNat % wordCount 1 = b.toNat := Nat.mod_eq_of_lt b.toNat_lt
  rw [u8?, word?_bigEndian, hmod, Option.map_some]
  simp

theorem u16?_bigEndian (w : UInt16) (rest : Bytes) :
    u16? (bigEndian 2 w.toNat ++ rest) = some (w, rest) := by
  have hmod : w.toNat % wordCount 2 = w.toNat := Nat.mod_eq_of_lt w.toNat_lt
  rw [u16?, word?_bigEndian, hmod, Option.map_some]
  simp

theorem u32?_bigEndian (w : UInt32) (rest : Bytes) :
    u32? (bigEndian 4 w.toNat ++ rest) = some (w, rest) := by
  have hmod : w.toNat % wordCount 4 = w.toNat := Nat.mod_eq_of_lt w.toNat_lt
  rw [u32?, word?_bigEndian, hmod, Option.map_some]
  simp

theorem u64?_bigEndian (w : UInt64) (rest : Bytes) :
    u64? (bigEndian 8 w.toNat ++ rest) = some (w, rest) := by
  have hmod : w.toNat % wordCount 8 = w.toNat := Nat.mod_eq_of_lt w.toNat_lt
  rw [u64?, word?_bigEndian, hmod, Option.map_some]
  simp

end Bytes

namespace Wire

namespace Header

theorem decode?_encode_append (h : Header) (rest : Bytes) : decode? (h.encode ++ rest) = some h := by
  simp only [decode?, encode, List.append_assoc, Bytes.u8?_bigEndian, Bytes.u16?_bigEndian,
    Bytes.u32?_bigEndian, Bytes.u64?_bigEndian, bind, Option.bind_some]

end Header

namespace Frame

/-- The header says how long the parts are, and they are not too long. -/
structure Sized (f : Frame) : Prop where
  extrasLength : f.header.extrasLength.toNat = f.extras.length
  keyLength : f.header.keyLength.toNat = f.key.length
  bodyLength : f.header.bodyLength.toNat = f.extras.length + f.key.length + f.value.length
  limit : f.header.bodyLength.toNat ≤ maxBodyLength

/-- The lengths of the parts can be said in a header. -/
def Fits (extras key value : Bytes) : Prop :=
  extras.length < 256 ∧ key.length < 65536 ∧
    extras.length + key.length + value.length ≤ maxBodyLength

instance (extras key value : Bytes) : Decidable (Fits extras key value) :=
  inferInstanceAs (Decidable (_ ∧ _ ∧ _))

theorem sized_build {extras key value : Bytes} (h : Fits extras key value) (magic opcode : UInt8)
    (status : UInt16) (tag : UInt32) (cas : UInt64) :
    (build magic opcode status extras key value tag cas).Sized := by
  obtain ⟨hextras, hkey, hbody⟩ := h
  have hword : extras.length + key.length + value.length < 2 ^ 32 :=
    Nat.lt_of_le_of_lt hbody (by decide)
  have hlength : (UInt32.ofNat (extras.length + key.length + value.length)).toNat =
      extras.length + key.length + value.length := UInt32.toNat_ofNat_of_lt' hword
  exact ⟨UInt8.toNat_ofNat_of_lt' hextras, UInt16.toNat_ofNat_of_lt' hkey, hlength,
    Nat.le_trans (Nat.le_of_eq hlength) hbody⟩

/-- What follows the header. -/
def body (f : Frame) : Bytes := f.extras ++ f.key ++ f.value

theorem encode_eq (f : Frame) : f.encode = f.header.encode ++ f.body := by
  simp [encode, body]

theorem headerLength_le_length_encode (f : Frame) : headerLength ≤ f.encode.length := by
  simp [encode_eq]

theorem encode_ne_nil (f : Frame) : f.encode ≠ [] := fun h => by
  have := headerLength_le_length_encode f
  rw [h] at this
  exact absurd this (by decide)

theorem Sized.length_body {f : Frame} (h : f.Sized) : f.body.length = f.header.bodyLength.toNat := by
  simp [body, h.bodyLength, Nat.add_assoc]

theorem Sized.ofBody? {f : Frame} (h : f.Sized) : ofBody? f.header f.body = some f := by
  have hvalue : f.header.valueLength? = some f.value.length := by
    unfold Header.valueLength?
    dsimp only
    rw [h.keyLength, h.extrasLength, h.bodyLength, if_pos (by omega)]
    congr 1
    omega
  simp only [Frame.ofBody?, body, bind, hvalue, Option.bind_some, h.extrasLength, h.keyLength,
    List.append_assoc, Bytes.split?_append]

/-- A frame is read back, whatever follows it. -/
theorem parse_encode_append {f : Frame} (h : f.Sized) {magic : UInt8} (hm : f.header.magic = magic)
    (rest : Bytes) : parse magic (f.encode ++ rest) = .frame f rest := by
  have hdrop : (f.header.encode ++ (f.body ++ rest)).drop headerLength = f.body ++ rest := by
    rw [List.drop_append_of_le_length (by simp), List.drop_eq_nil_of_le (by simp), List.nil_append]
  have hsplit : Bytes.split? f.header.bodyLength.toNat (f.body ++ rest) = some (f.body, rest) := by
    rw [← h.length_body, Bytes.split?_append]
  unfold parse
  rw [encode_eq, List.append_assoc, Header.decode?_encode_append, hdrop]
  dsimp only
  rw [if_neg (Nat.not_lt.2 h.limit), hsplit]
  dsimp only
  rw [if_neg (fun hne => hne hm), h.ofBody?]

/-- The beginning of a frame is no frame yet. -/
theorem parse_of_beginning {f : Frame} (h : f.Sized) (magic : UInt8) {bytes later : Bytes}
    (heq : bytes ++ later = f.encode) (hlater : later ≠ []) : parse magic bytes = .incomplete := by
  have hlen : bytes.length < f.encode.length := by
    have := List.length_pos_iff.2 hlater
    rw [← heq, List.length_append]
    omega
  unfold parse
  by_cases hshort : bytes.length < headerLength
  · have hnone : Header.decode? bytes = none := by
      cases hd : Header.decode? bytes with
      | none => rfl
      | some h => exact absurd (Header.length_of_decode? hd) (Nat.not_le.2 hshort)
    rw [hnone]
  · have hfront : bytes = f.header.encode ++ bytes.drop headerLength := by
      have htake : bytes.take headerLength = f.header.encode := by
        have hwhole := congrArg (List.take headerLength) heq
        rwa [encode_eq, List.take_append_of_le_length (Nat.not_lt.1 hshort),
          List.take_append_of_le_length (Nat.le_of_eq (Header.length_encode _).symm),
          List.take_of_length_le (Nat.le_of_eq (Header.length_encode _))] at hwhole
      rw [← htake, List.take_append_drop]
    have hdecode : Header.decode? bytes = some f.header := by
      rw [hfront, Header.decode?_encode_append]
    have hsplit : Bytes.split? f.header.bodyLength.toNat (bytes.drop headerLength) = none := by
      rw [Bytes.split?, if_neg]
      rw [encode_eq, List.length_append, Header.length_encode, h.length_body] at hlen
      rw [List.length_take, List.length_drop]
      omega
    rw [hdecode]
    dsimp only
    rw [if_neg (Nat.not_lt.2 h.limit), hsplit]

/-! ## Series of frames -/

/-- Frames one after the other. -/
def encodeAll (frames : List Frame) : Bytes := frames.flatMap encode

@[simp] theorem encodeAll_nil : encodeAll [] = [] := rfl

@[simp] theorem encodeAll_cons (f : Frame) (frames : List Frame) :
    encodeAll (f :: frames) = f.encode ++ encodeAll frames := rfl

@[simp] theorem encodeAll_append (frames frames' : List Frame) :
    encodeAll (frames ++ frames') = encodeAll frames ++ encodeAll frames' := List.flatMap_append

theorem encodeAll_eq_nil {frames : List Frame} : encodeAll frames = [] ↔ frames = [] := by
  cases frames with
  | nil => simp
  | cons f frames => simp [encode_ne_nil]

/-- Frames that can be read by a reader who expects this magic. -/
def Readable (magic : UInt8) (f : Frame) : Prop := f.Sized ∧ f.header.magic = magic

/-- Of a series that arrives, the first frame is read as soon as it is there in full. -/
theorem parse_stream {magic : UInt8} {frames : List Frame} (h : ∀ f ∈ frames, f.Readable magic)
    {bytes later : Bytes} (heq : bytes ++ later = encodeAll frames) :
    (parse magic bytes = .incomplete ∧ (later = [] → frames = [])) ∨
      ∃ f rest frames', frames = f :: frames' ∧ parse magic bytes = .frame f rest ∧
        rest ++ later = encodeAll frames' := by
  cases frames with
  | nil =>
    obtain ⟨rfl, rfl⟩ := List.append_eq_nil_iff.1 heq
    exact .inl ⟨rfl, fun _ => rfl⟩
  | cons f frames =>
    obtain ⟨hsized, hmagic⟩ := h f List.mem_cons_self
    rw [encodeAll_cons] at heq
    rcases List.append_eq_append_iff.1 heq with ⟨front, hfront, hlater⟩ | ⟨rest, hbytes, hrest⟩
    · cases front with
      | nil =>
        rw [List.append_nil] at hfront
        refine .inr ⟨f, [], frames, rfl, ?_, hlater⟩
        rw [← hfront, ← List.append_nil f.encode]
        exact parse_encode_append hsized hmagic []
      | cons b front =>
        refine .inl ⟨?_, fun hnil => ?_⟩
        · exact parse_of_beginning hsized magic hfront.symm (List.cons_ne_nil b front)
        · rw [hnil] at hlater
          cases hlater
    · refine .inr ⟨f, rest, frames, rfl, ?_, hrest.symm⟩
      rw [hbytes]
      exact parse_encode_append hsized hmagic rest

theorem drain_of_incomplete {magic : UInt8} {bytes : Bytes} (h : parse magic bytes = .incomplete) :
    drain magic bytes = ([], bytes) := by
  unfold drain
  split
  · rfl
  · next hp => rw [h] at hp; cases hp
  · next hp => rw [h] at hp; cases hp

theorem drain_of_frame {magic : UInt8} {bytes rest : Bytes} {f : Frame}
    (h : parse magic bytes = .frame f rest) :
    drain magic bytes = (.ok f :: (drain magic rest).1, (drain magic rest).2) := by
  rw [drain]
  split
  · next hp => rw [h] at hp; cases hp
  · next hp =>
    rw [h] at hp
    cases hp
    rfl
  · next hp => rw [h] at hp; cases hp

/-- Of a series that arrives, those frames are read that are there in full. -/
theorem drain_stream {magic : UInt8} : ∀ {frames : List Frame}, (∀ f ∈ frames, f.Readable magic) →
    ∀ {bytes later : Bytes}, bytes ++ later = encodeAll frames →
      ∃ read unread, frames = read ++ unread ∧ (drain magic bytes).1 = read.map .ok ∧
        (drain magic bytes).2 ++ later = encodeAll unread ∧
        parse magic (drain magic bytes).2 = .incomplete
  | frames, h, bytes, later, heq => by
    rcases parse_stream h heq with ⟨hparse, -⟩ | ⟨f, rest, frames', hframes, hparse, hrest⟩
    · rw [drain_of_incomplete hparse]
      exact ⟨[], frames, rfl, rfl, heq, hparse⟩
    · subst hframes
      obtain ⟨read, unread, hsplit, hfound, hleft, hidle⟩ :=
        drain_stream (fun g hg => h g (List.mem_cons_of_mem f hg)) hrest
      rw [drain_of_frame hparse]
      refine ⟨f :: read, unread, by rw [hsplit]; rfl, ?_, hleft, hidle⟩
      rw [hfound]
      rfl
termination_by frames => frames.length

end Frame

end Wire

end ShardedCache

import Mathlib.Data.List.Induction
import ShardedCache.Proofs.Wire.Reread

/-!
# Frames that arrive in pieces

What `Frame.parse` says of a byte string is decided by the bytes of one header and of the body that
it announces (`Front`), so later bytes change nothing but that an incomplete frame may be completed
(`Front.append`). Hence a stream that arrives in pieces is read as if it had arrived at once
(`readPieces_eq`), and what is taken off the front is accounted for to the byte (`parse_accounts`).
-/

namespace ShardedCache

/-! ## Words are written as they were read -/

theorem bigEndian_ofBigEndian (bytes : Bytes) :
    bigEndian bytes.length (ofBigEndian bytes) = bytes := by
  induction bytes using List.reverseRecOn with
  | nil => rfl
  | append_singleton front b ih =>
    rw [List.length_append, List.length_singleton, bigEndian_ofBigEndian_append, ih]

theorem ofBigEndian_lt (bytes : Bytes) : ofBigEndian bytes < wordCount bytes.length := by
  induction bytes using List.reverseRecOn with
  | nil => exact Nat.one_pos
  | append_singleton front b ih =>
    have hb := b.toNat_lt
    rw [List.length_append, List.length_singleton, wordCount, ofBigEndian_append_singleton]
    omega

namespace Bytes

theorem word?_eq_some {width n : Nat} {bytes rest : Bytes} (h : word? width bytes = some (n, rest)) :
    bytes = bigEndian width n ++ rest ∧ n < wordCount width := by
  simp only [word?, Option.map_eq_some_iff, Prod.exists, Prod.mk.injEq] at h
  obtain ⟨front, _, hsplit, rfl, rfl⟩ := h
  obtain ⟨rfl, rfl⟩ := split?_eq_some_iff.1 hsplit
  exact ⟨by rw [bigEndian_ofBigEndian], ofBigEndian_lt front⟩

theorem word?_of_le (width : Nat) (bytes : Bytes) (h : width ≤ bytes.length) :
    ∃ n rest, word? width bytes = some (n, rest) ∧ bytes.length = width + rest.length := by
  refine ⟨ofBigEndian (bytes.take width), bytes.drop width, ?_, ?_⟩
  · rw [word?, split?, if_pos (List.length_take_of_le h), Option.map_some]
  · rw [List.length_drop]
    omega

theorem u8?_eq_some {bytes rest : Bytes} {b : UInt8} (h : u8? bytes = some (b, rest)) :
    bytes = bigEndian 1 b.toNat ++ rest := by
  simp only [u8?, Option.map_eq_some_iff, Prod.exists, Prod.mk.injEq] at h
  obtain ⟨n, _, hword, rfl, rfl⟩ := h
  obtain ⟨hbytes, hlt⟩ := word?_eq_some hword
  rwa [UInt8.toNat_ofNat_of_lt' hlt]

theorem u16?_eq_some {bytes rest : Bytes} {w : UInt16} (h : u16? bytes = some (w, rest)) :
    bytes = bigEndian 2 w.toNat ++ rest := by
  simp only [u16?, Option.map_eq_some_iff, Prod.exists, Prod.mk.injEq] at h
  obtain ⟨n, _, hword, rfl, rfl⟩ := h
  obtain ⟨hbytes, hlt⟩ := word?_eq_some hword
  rwa [UInt16.toNat_ofNat_of_lt' hlt]

theorem u32?_eq_some {bytes rest : Bytes} {w : UInt32} (h : u32? bytes = some (w, rest)) :
    bytes = bigEndian 4 w.toNat ++ rest := by
  simp only [u32?, Option.map_eq_some_iff, Prod.exists, Prod.mk.injEq] at h
  obtain ⟨n, _, hword, rfl, rfl⟩ := h
  obtain ⟨hbytes, hlt⟩ := word?_eq_some hword
  rwa [UInt32.toNat_ofNat_of_lt' hlt]

theorem u64?_eq_some {bytes rest : Bytes} {w : UInt64} (h : u64? bytes = some (w, rest)) :
    bytes = bigEndian 8 w.toNat ++ rest := by
  simp only [u64?, Option.map_eq_some_iff, Prod.exists, Prod.mk.injEq] at h
  obtain ⟨n, _, hword, rfl, rfl⟩ := h
  obtain ⟨hbytes, hlt⟩ := word?_eq_some hword
  rwa [UInt64.toNat_ofNat_of_lt' hlt]

end Bytes

namespace Wire

namespace Header

/-- A header is written as it was read. -/
theorem eq_encode_append {bytes : Bytes} {h : Header} (hd : decode? bytes = some h) :
    ∃ tail, bytes = h.encode ++ tail := by
  simp only [decode?, bind, Option.bind_eq_some_iff, Prod.exists] at hd
  obtain ⟨_, _, h₁, _, _, h₂, _, _, h₃, _, _, h₄, _, _, h₅, _, _, h₆, _, _, h₇, _, _, h₈, _, tail,
    h₉, hh⟩ := hd
  cases hh
  refine ⟨tail, ?_⟩
  simp only [encode, List.append_assoc]
  rw [Bytes.u8?_eq_some h₁, Bytes.u8?_eq_some h₂, Bytes.u16?_eq_some h₃, Bytes.u8?_eq_some h₄,
    Bytes.u8?_eq_some h₅, Bytes.u16?_eq_some h₆, Bytes.u32?_eq_some h₇, Bytes.u32?_eq_some h₈,
    Bytes.u64?_eq_some h₉]

/-- Any bytes make a header if there are enough of them. -/
theorem decode?_eq_none_iff {bytes : Bytes} :
    decode? bytes = none ↔ bytes.length < headerLength := by
  constructor
  · intro hnone
    by_contra hlong
    rw [headerLength] at hlong
    obtain ⟨_, r₁, h₁, l₁⟩ := Bytes.word?_of_le 1 bytes (by omega)
    obtain ⟨_, r₂, h₂, l₂⟩ := Bytes.word?_of_le 1 r₁ (by omega)
    obtain ⟨_, r₃, h₃, l₃⟩ := Bytes.word?_of_le 2 r₂ (by omega)
    obtain ⟨_, r₄, h₄, l₄⟩ := Bytes.word?_of_le 1 r₃ (by omega)
    obtain ⟨_, r₅, h₅, l₅⟩ := Bytes.word?_of_le 1 r₄ (by omega)
    obtain ⟨_, r₆, h₆, l₆⟩ := Bytes.word?_of_le 2 r₅ (by omega)
    obtain ⟨_, r₇, h₇, l₇⟩ := Bytes.word?_of_le 4 r₆ (by omega)
    obtain ⟨_, r₈, h₈, l₈⟩ := Bytes.word?_of_le 4 r₇ (by omega)
    obtain ⟨_, _, h₉, -⟩ := Bytes.word?_of_le 8 r₈ (by omega)
    simp only [decode?, Bytes.u8?, Bytes.u16?, Bytes.u32?, Bytes.u64?, h₁, h₂, h₃, h₄, h₅, h₆, h₇,
      h₈, h₉, Option.map_some, bind, Option.bind_some, reduceCtorEq] at hnone
  · intro hshort
    rw [Option.eq_none_iff_forall_ne_some]
    exact fun h hd => absurd (length_of_decode? hd) (Nat.not_le.2 hshort)

end Header

namespace Frame

/-! ## What stands at the front -/

/-- What a reader who expects `magic` makes of a whole frame. -/
def judge (magic : UInt8) (h : Header) (body : Bytes) : Except FrameFault Frame :=
  if h.magic ≠ magic then .error (.badMagic h.tag h.magic)
  else
    match ofBody? h body with
    | some f => .ok f
    | none => .error (.overfull h.tag h.keyLength h.extrasLength h.bodyLength)

namespace Parsed

/-- A whole frame has been taken off the front. -/
def ofWhole (rest : Bytes) : Except FrameFault Frame → Parsed
  | .ok f => .frame f rest
  | .error e => .fault e rest

/-- The same with more bytes behind. -/
def append (later : Bytes) : Parsed → Parsed
  | .incomplete => .incomplete
  | .frame f rest => .frame f (rest ++ later)
  | .fault e rest => .fault e (rest ++ later)

/-- What the buffer holds after `bytes` have been parsed. -/
def left (bytes : Bytes) : Parsed → Bytes
  | .incomplete => bytes
  | .frame _ rest | .fault _ rest => rest

theorem append_ofWhole (rest later : Bytes) (judged : Except FrameFault Frame) :
    (ofWhole rest judged).append later = ofWhole (rest ++ later) judged := by
  cases judged <;> rfl

end Parsed

/-- The ways in which a byte string may begin. -/
inductive Front : Bytes → Prop where
  /-- Not even a header is there. -/
  | short {bytes : Bytes} (hshort : bytes.length < headerLength) : Front bytes
  | tooLong (h : Header) (tail : Bytes) (hlong : maxBodyLength < h.bodyLength.toNat) :
    Front (h.encode ++ tail)
  /-- The body is not there in full. -/
  | begun (h : Header) (tail : Bytes) (hlimit : h.bodyLength.toNat ≤ maxBodyLength)
    (hshort : tail.length < h.bodyLength.toNat) : Front (h.encode ++ tail)
  | whole (h : Header) (body rest : Bytes) (hlimit : h.bodyLength.toNat ≤ maxBodyLength)
    (hbody : body.length = h.bodyLength.toNat) : Front (h.encode ++ (body ++ rest))

theorem front (bytes : Bytes) : Front bytes := by
  cases hd : Header.decode? bytes with
  | none => exact .short (Header.decode?_eq_none_iff.1 hd)
  | some h =>
    obtain ⟨tail, rfl⟩ := Header.eq_encode_append hd
    rcases Nat.lt_or_ge maxBodyLength h.bodyLength.toNat with hlong | hlimit
    · exact .tooLong h tail hlong
    · rcases Nat.lt_or_ge tail.length h.bodyLength.toNat with hshort | hwhole
      · exact .begun h tail hlimit hshort
      · have hbody : (tail.take h.bodyLength.toNat).length = h.bodyLength.toNat :=
          List.length_take_of_le hwhole
        have hfront := Front.whole h (tail.take h.bodyLength.toNat)
          (tail.drop h.bodyLength.toNat) hlimit hbody
        rwa [List.take_append_drop] at hfront

section Parse

variable (magic : UInt8) (h : Header) {body : Bytes}

theorem parse_of_short {bytes : Bytes} (hshort : bytes.length < headerLength) :
    parse magic bytes = .incomplete := by
  unfold parse
  rw [Header.decode?_eq_none_iff.2 hshort]

theorem parse_of_tooLong (tail : Bytes) (hlong : maxBodyLength < h.bodyLength.toNat) :
    parse magic (h.encode ++ tail) =
      .fault (.bodyTooLong h.tag h.bodyLength) (h.encode ++ tail) := by
  unfold parse
  rw [Header.decode?_encode_append]
  exact if_pos hlong

theorem drop_header (tail : Bytes) : (h.encode ++ tail).drop headerLength = tail :=
  List.drop_left' (Header.length_encode h)

theorem parse_of_begun {tail : Bytes} (hlimit : h.bodyLength.toNat ≤ maxBodyLength)
    (hshort : tail.length < h.bodyLength.toNat) : parse magic (h.encode ++ tail) = .incomplete := by
  have hsplit : Bytes.split? h.bodyLength.toNat tail = none := by
    rw [Bytes.split?, if_neg]
    rw [List.length_take]
    omega
  unfold parse
  rw [Header.decode?_encode_append]
  dsimp only
  rw [if_neg (Nat.not_lt.2 hlimit), drop_header, hsplit]

theorem parse_of_whole (rest : Bytes) (hlimit : h.bodyLength.toNat ≤ maxBodyLength)
    (hbody : body.length = h.bodyLength.toNat) :
    parse magic (h.encode ++ (body ++ rest)) = .ofWhole rest (judge magic h body) := by
  have hsplit : Bytes.split? h.bodyLength.toNat (body ++ rest) = some (body, rest) := by
    rw [← hbody, Bytes.split?_append]
  unfold parse
  rw [Header.decode?_encode_append]
  dsimp only
  rw [if_neg (Nat.not_lt.2 hlimit), drop_header, hsplit]
  dsimp only
  unfold judge
  split
  · rfl
  · cases ofBody? h body <;> rfl

/-- A frame is written as it was read. -/
theorem encode_of_judge {f : Frame} (hjudge : judge magic h body = .ok f) :
    f.encode = h.encode ++ body ∧ f.header.magic = magic := by
  unfold judge at hjudge
  split at hjudge
  · cases hjudge
  · next hmagic =>
    split at hjudge
    · next hparts =>
      cases hjudge
      simp only [ofBody?, bind, Option.bind_eq_some_iff, Prod.exists] at hparts
      obtain ⟨-, -, extras, behind, hextras, key, value, hkey, hf⟩ := hparts
      cases hf
      rw [(Bytes.split?_eq_some_iff.1 hextras).1, (Bytes.split?_eq_some_iff.1 hkey).1]
      exact ⟨by simp only [encode, List.append_assoc], Decidable.not_not.1 hmagic⟩
    · cases hjudge

/-- A frame that is there in full is taken off the front, whatever is wrong with it. -/
theorem consumed_of_judge {fault : FrameFault} (hjudge : judge magic h body = .error fault) :
    fault.consumed = true := by
  unfold judge at hjudge
  split at hjudge
  · cases hjudge
    rfl
  · split at hjudge <;> cases hjudge
    rfl

end Parse

/-- What is taken off the front is accounted for. -/
theorem parse_accounts (magic : UInt8) (bytes : Bytes) :
    match parse magic bytes with
    | .incomplete => bytes.length < headerLength ∨ ∃ h, Header.decode? bytes = some h ∧
        h.bodyLength.toNat ≤ maxBodyLength ∧ bytes.length < headerLength + h.bodyLength.toNat
    | .frame f rest => f.encode ++ rest = bytes ∧ f.header.magic = magic
    | .fault fault rest => ∃ h, Header.decode? bytes = some h ∧
        if fault.consumed then
          headerLength + h.bodyLength.toNat ≤ bytes.length ∧
            rest = bytes.drop (headerLength + h.bodyLength.toNat)
        else rest = bytes := by
  cases front bytes with
  | short hshort =>
    rw [parse_of_short magic hshort]
    exact .inl hshort
  | tooLong h tail hlong =>
    rw [parse_of_tooLong magic h tail hlong]
    exact ⟨h, Header.decode?_encode_append h tail, rfl⟩
  | begun h tail hlimit hshort =>
    rw [parse_of_begun magic h hlimit hshort]
    refine .inr ⟨h, Header.decode?_encode_append h tail, hlimit, ?_⟩
    rw [List.length_append, Header.length_encode]
    omega
  | whole h body rest hlimit hbody =>
    rw [parse_of_whole magic h rest hlimit hbody]
    cases hjudge : judge magic h body with
    | ok f =>
      obtain ⟨hencode, hmagic⟩ := encode_of_judge magic h hjudge
      exact ⟨by rw [hencode, List.append_assoc], hmagic⟩
    | error fault =>
      have htaken : (h.encode ++ body).length = headerLength + h.bodyLength.toNat := by
        rw [List.length_append, Header.length_encode, hbody]
      refine ⟨h, Header.decode?_encode_append h _, ?_⟩
      rw [if_pos (consumed_of_judge magic h hjudge), ← List.append_assoc, ← htaken, List.drop_left]
      refine ⟨?_, rfl⟩
      rw [@List.length_append _ (h.encode ++ body) rest]
      exact Nat.le_add_right _ _

/-- What has been made out at the front does not change with the bytes behind. -/
theorem parse_append {magic : UInt8} {bytes : Bytes} (h : parse magic bytes ≠ .incomplete)
    (later : Bytes) : parse magic (bytes ++ later) = (parse magic bytes).append later := by
  cases front bytes with
  | short hshort => exact absurd (parse_of_short magic hshort) h
  | tooLong header tail hlong =>
    rw [List.append_assoc, parse_of_tooLong magic header _ hlong,
      parse_of_tooLong magic header _ hlong, ← List.append_assoc]
    rfl
  | begun header tail hlimit hshort => exact absurd (parse_of_begun magic header hlimit hshort) h
  | whole header body rest hlimit hbody =>
    rw [parse_of_whole magic header rest hlimit hbody, Parsed.append_ofWhole, List.append_assoc,
      List.append_assoc, parse_of_whole magic header _ hlimit hbody]

/-! ## Piece by piece -/

/-- Whether reading has come to a fault that leaves the buffer as it is. -/
def isStuck (found : List (Except FrameFault Frame)) : Bool :=
  found.any fun
    | .error fault => !fault.consumed
    | .ok _ => false

theorem drain_of_fault {magic : UInt8} {bytes rest : Bytes} {fault : FrameFault}
    (h : parse magic bytes = .fault fault rest) (hconsumed : fault.consumed = true) :
    drain magic bytes = (.error fault :: (drain magic rest).1, (drain magic rest).2) := by
  rw [drain]
  split
  · next hp => rw [h] at hp; cases hp
  · next hp => rw [h] at hp; cases hp
  · next hp =>
    rw [h] at hp
    cases hp
    rw [dif_pos hconsumed]

theorem drain_of_stuck {magic : UInt8} {bytes rest : Bytes} {fault : FrameFault}
    (h : parse magic bytes = .fault fault rest) (hconsumed : ¬ fault.consumed = true) :
    drain magic bytes = ([.error fault], bytes) := by
  rw [drain]
  split
  · next hp => rw [h] at hp; cases hp
  · next hp => rw [h] at hp; cases hp
  · next hp =>
    rw [h] at hp
    cases hp
    rw [dif_neg hconsumed]

/-- Reading may stop after some bytes and go on with the rest later, unless it is stuck. -/
theorem drain_append (magic : UInt8) (bytes later : Bytes) :
    drain magic (bytes ++ later) =
      if isStuck (drain magic bytes).1 then ((drain magic bytes).1, (drain magic bytes).2 ++ later)
      else
        ((drain magic bytes).1 ++ (drain magic ((drain magic bytes).2 ++ later)).1,
          (drain magic ((drain magic bytes).2 ++ later)).2) := by
  fun_induction drain magic bytes with
  | case1 bytes hparse => rfl
  | case2 bytes f rest hparse found left hdrain ih =>
    have hnext := @parse_append magic bytes (hparse ▸ nofun) later
    rw [hparse] at hnext
    rw [drain_of_frame hnext, ih, hdrain]
    change _ = if isStuck found then _ else _
    split <;> rfl
  | case3 bytes fault rest hparse hconsumed found left hdrain ih =>
    have hnext := @parse_append magic bytes (hparse ▸ nofun) later
    rw [hparse] at hnext
    have hstuck : isStuck (.error fault :: found) = isStuck found := by simp [isStuck, hconsumed]
    rw [drain_of_fault hnext hconsumed, ih, hdrain, hstuck]
    split <;> rfl
  | case4 bytes fault rest hparse hconsumed =>
    have hnext := @parse_append magic bytes (hparse ▸ nofun) later
    rw [hparse] at hnext
    have hstuck : isStuck [.error fault] = true := by simpa [isStuck] using hconsumed
    rw [drain_of_stuck hnext hconsumed, if_pos hstuck]

/-- What a reader has found so far, and the bytes that are left. -/
structure Reading where
  found : List (Except FrameFault Frame) := []
  left : Bytes := []
  deriving DecidableEq

namespace Reading

/-- One more piece of the stream arrives. Once stuck, a reader only keeps what arrives. -/
def take (magic : UInt8) (r : Reading) (piece : Bytes) : Reading :=
  if isStuck r.found then { r with left := r.left ++ piece }
  else
    let (found, left) := drain magic (r.left ++ piece)
    { found := r.found ++ found, left }

/-- A stream that arrives at once. -/
def ofWhole (magic : UInt8) (bytes : Bytes) : Reading where
  found := (drain magic bytes).1
  left := (drain magic bytes).2

theorem take_ofWhole (magic : UInt8) (bytes piece : Bytes) :
    (ofWhole magic bytes).take magic piece = ofWhole magic (bytes ++ piece) := by
  rw [ofWhole, ofWhole, drain_append, take]
  cases isStuck (drain magic bytes).1 <;> rfl

end Reading

/-- A stream that arrives in pieces. -/
def readPieces (magic : UInt8) (pieces : List Bytes) : Reading :=
  pieces.foldl (Reading.take magic) {}

/-- Nobody can tell the pieces in which a stream has arrived. -/
theorem readPieces_eq (magic : UInt8) (pieces : List Bytes) :
    readPieces magic pieces = .ofWhole magic pieces.flatten := by
  have hgo : ∀ (pieces : List Bytes) (bytes : Bytes),
      pieces.foldl (Reading.take magic) (.ofWhole magic bytes) =
        .ofWhole magic (bytes ++ pieces.flatten) := by
    intro pieces
    induction pieces with
    | nil => exact fun bytes => by rw [List.flatten_nil, List.append_nil]; rfl
    | cons piece pieces ih =>
      intro bytes
      rw [List.foldl_cons, Reading.take_ofWhole, ih, List.flatten_cons, List.append_assoc]
  have hempty : Reading.ofWhole magic [] = {} := by
    rw [Reading.ofWhole, drain_of_incomplete (parse_of_short magic (by decide))]
  rw [readPieces, ← hempty]
  exact hgo pieces []

/-! ## Frames that were built -/

/-- A request whose parts have lengths that a header can say. -/
def IsRequest (f : Frame) : Prop :=
  ∃ opcode extras key value tag cas, Fits extras key value ∧
    f = request opcode extras key value tag cas

def IsResponse (f : Frame) : Prop :=
  ∃ opcode status extras key value tag cas, Fits extras key value ∧
    f = response opcode status extras key value tag cas

theorem IsRequest.readable {f : Frame} (h : f.IsRequest) : f.Readable requestMagic := by
  obtain ⟨opcode, extras, key, value, tag, cas, hfits, rfl⟩ := h
  exact ⟨sized_build hfits _ _ _ _ _, rfl⟩

theorem IsResponse.readable {f : Frame} (h : f.IsResponse) : f.Readable responseMagic := by
  obtain ⟨opcode, status, extras, key, value, tag, cas, hfits, rfl⟩ := h
  exact ⟨sized_build hfits _ _ _ _ _, rfl⟩

theorem drain_encodeAll {magic : UInt8} {frames : List Frame} (h : ∀ f ∈ frames, f.Readable magic) :
    drain magic (encodeAll frames) = (frames.map .ok, []) := by
  obtain ⟨read, unread, hframes, hfound, hleft, hidle⟩ :=
    drain_stream h (List.append_nil (encodeAll frames))
  rw [List.append_nil] at hleft
  have hnone : unread = [] := by
    have hunread : ∀ f ∈ unread, f.Readable magic := fun f hf =>
      h f (hframes ▸ List.mem_append_right read hf)
    rcases parse_stream hunread ((List.append_nil _).trans hleft) with
      ⟨-, hend⟩ | ⟨_, _, _, -, hparse, -⟩
    · exact hend rfl
    · rw [hidle] at hparse
      cases hparse
  rw [hnone, List.append_nil] at hframes
  rw [hnone] at hleft
  exact Prod.ext (hframes ▸ hfound) hleft

/-- **Reading is exact, and independent of the pieces in which a stream arrives.** Frames that were
built come out as they went in, and whatever else a stream holds, the frames, the faults and the
bytes left are those of the stream at once. What is made out at the front is what is taken off it. -/
theorem reading_exact :
    (∀ (frames : List Frame) (pieces : List Bytes), pieces.flatten = encodeAll frames →
      ((∀ f ∈ frames, f.IsRequest) → readPieces requestMagic pieces = ⟨frames.map .ok, []⟩) ∧
      ((∀ f ∈ frames, f.IsResponse) → readPieces responseMagic pieces = ⟨frames.map .ok, []⟩)) ∧
    (∀ (magic : UInt8) (pieces : List Bytes),
      readPieces magic pieces = readPieces magic [pieces.flatten] ∧
      readPieces magic [pieces.flatten] = .ofWhole magic pieces.flatten) ∧
    (∀ (magic : UInt8) (bytes : Bytes),
      match parse magic bytes with
      | .incomplete => (parse magic bytes).left bytes = bytes
      | .frame f rest => (parse magic bytes).left bytes = rest ∧ f.encode ++ rest = bytes
      | .fault fault rest => (parse magic bytes).left bytes = rest ∧
        if fault.consumed then ∃ h, Header.decode? bytes = some h ∧
          headerLength + h.bodyLength.toNat ≤ bytes.length ∧
          rest = bytes.drop (headerLength + h.bodyLength.toNat)
        else rest = bytes) := by
  refine ⟨fun frames pieces hpieces => ⟨fun h => ?_, fun h => ?_⟩, fun magic pieces => ⟨?_, ?_⟩,
    fun magic bytes => ?_⟩
  · rw [readPieces_eq, hpieces, Reading.ofWhole, drain_encodeAll fun f hf => (h f hf).readable]
  · rw [readPieces_eq, hpieces, Reading.ofWhole, drain_encodeAll fun f hf => (h f hf).readable]
  · rw [readPieces_eq, readPieces_eq, List.flatten_singleton]
  · rw [readPieces_eq, List.flatten_singleton]
  · have haccount := parse_accounts magic bytes
    cases hparse : parse magic bytes with
    | incomplete => rfl
    | frame f rest =>
      rw [hparse] at haccount
      exact ⟨rfl, haccount.1⟩
    | fault fault rest =>
      rw [hparse] at haccount
      obtain ⟨h, hdecode, hrest⟩ := haccount
      refine ⟨rfl, ?_⟩
      split at hrest
      · next hconsumed => rw [if_pos hconsumed]; exact ⟨h, hdecode, hrest⟩
      · next hconsumed => rw [if_neg hconsumed]; exact hrest

/-- Two requests arrive in three pieces, the first of which ends within a header. -/
theorem reading_exact_of_split_header :
    let frames := [request .get [] [107] [] 1 0, request .delete [] [107, 50] [] 2 0]
    let pieces := [(encodeAll frames).take 10, ((encodeAll frames).drop 10).take 20,
      (encodeAll frames).drop 30]
    pieces.flatten = encodeAll frames ∧ (∀ f ∈ frames, f.IsRequest) ∧
      readPieces requestMagic pieces = ⟨frames.map .ok, []⟩ := by
  intro frames pieces
  have hpieces : pieces.flatten = encodeAll frames := by decide +kernel
  have hrequests : ∀ f ∈ frames, f.IsRequest := by
    simp only [frames, List.forall_mem_cons, List.not_mem_nil, false_implies, implies_true, and_true]
    exact ⟨⟨_, _, _, _, _, _, by decide, rfl⟩, ⟨_, _, _, _, _, _, by decide, rfl⟩⟩
  exact ⟨hpieces, hrequests, (reading_exact.1 frames pieces hpieces).1 hrequests⟩

end Frame

end Wire

end ShardedCache

import ShardedCache.Proofs.Wire.FrameStream

/-!
# What a reader makes of a frame

A frame may have a key that is longer than its header can say. Its encoding still has the length
that the header says, so a reader keeps in step, but parts the body elsewhere (`Frame.reread`).
-/

namespace ShardedCache.Wire.Frame

/-- The frame with its body parted where its header says. -/
def reread (f : Frame) : Frame where
  header := f.header
  extras := f.body.take f.header.extrasLength.toNat
  key := (f.body.drop f.header.extrasLength.toNat).take f.header.keyLength.toNat
  value := (f.body.drop f.header.extrasLength.toNat).drop f.header.keyLength.toNat

@[simp] theorem header_reread (f : Frame) : f.reread.header = f.header := rfl

@[simp] theorem body_reread (f : Frame) : f.reread.body = f.body := by
  rw [body, reread, List.append_assoc, List.take_append_drop, List.take_append_drop]

theorem encode_reread (f : Frame) : f.reread.encode = f.encode := by
  rw [encode_eq, encode_eq, header_reread, body_reread]

theorem sized_reread {f : Frame}
    (hparts : f.header.extrasLength.toNat + f.header.keyLength.toNat ≤ f.body.length)
    (hbody : f.header.bodyLength.toNat = f.body.length) (hlimit : f.body.length ≤ maxBodyLength) :
    f.reread.Sized := by
  refine ⟨?_, ?_, ?_, by rwa [header_reread, hbody]⟩ <;>
    simp only [reread, List.length_take, List.length_drop] <;> omega

/-- What is built for a body that is not too long can be read, however long the parts are. -/
theorem readable_reread_build (magic opcode : UInt8) (status : UInt16) (extras key value : Bytes)
    (tag : UInt32) (cas : UInt64)
    (hlimit : (build magic opcode status extras key value tag cas).body.length ≤ maxBodyLength) :
    (build magic opcode status extras key value tag cas).reread.Readable magic := by
  have hbody : (build magic opcode status extras key value tag cas).body.length =
      extras.length + key.length + value.length := by
    simp [build, body, Nat.add_assoc]
  have hextras : (UInt8.ofNat extras.length).toNat ≤ extras.length := by
    rw [UInt8.toNat_ofNat']
    exact Nat.mod_le _ _
  have hkey : (UInt16.ofNat key.length).toNat ≤ key.length := by
    rw [UInt16.toNat_ofNat']
    exact Nat.mod_le _ _
  have hword : extras.length + key.length + value.length < 2 ^ 32 :=
    Nat.lt_of_le_of_lt (hbody ▸ hlimit) (by decide)
  refine ⟨sized_reread ?_ ?_ hlimit, rfl⟩
  · rw [hbody]
    change (UInt8.ofNat extras.length).toNat + (UInt16.ofNat key.length).toNat ≤ _
    omega
  · rw [hbody]
    exact UInt32.toNat_ofNat_of_lt' hword

/-- What has arrived of a series is read as the frames that are there in full, and as the
beginning of one more. -/
theorem drain_reread {magic : UInt8} {frames : List Frame}
    (h : ∀ f ∈ frames, f.reread.Readable magic) {bytes : Bytes} (harrived : bytes <+: encodeAll frames) :
    ∃ n ≤ frames.length, ∃ tail, drain magic bytes = ((frames.take n).map (.ok ·.reread), tail) ∧
      encodeAll (frames.take n) ++ tail = bytes ∧ parse magic tail = .incomplete := by
  have hencode : ∀ gs : List Frame, encodeAll (gs.map reread) = encodeAll gs := fun gs => by
    induction gs with
    | nil => rfl
    | cons f gs ih => rw [List.map_cons, encodeAll_cons, encodeAll_cons, encode_reread, ih]
  obtain ⟨later, hlater⟩ := harrived
  obtain ⟨read, unread, hsplit, hfound, hleft, hidle⟩ :=
    @drain_stream magic (frames.map reread) (fun f hf => by
      obtain ⟨g, hg, rfl⟩ := List.mem_map.1 hf
      exact h g hg) _ _ (hlater.trans (hencode frames).symm)
  have hread : read = (frames.take read.length).map reread := by
    rw [List.map_take, hsplit, List.take_left]
  have hle : read.length ≤ frames.length := by
    have := congrArg List.length hsplit
    rw [List.length_map, List.length_append] at this
    omega
  refine ⟨read.length, hle, (drain magic bytes).2, ?_, ?_, hidle⟩
  · have hmap : (frames.take read.length).map (fun f => (.ok f.reread : Except FrameFault Frame)) =
        read.map .ok := by
      rw [← Function.comp_def, ← List.map_map, ← hread]
    rw [hmap, ← hfound]
  · have hwhole : bytes ++ later = encodeAll read ++ ((drain magic bytes).2 ++ later) := by
      rw [hlater, hleft, ← encodeAll_append, ← hsplit, hencode]
    rw [← hencode, ← hread]
    rw [← List.append_assoc] at hwhole
    exact (List.append_cancel_right hwhole).symm

/-- A header that announces too long a body leaves nothing to go by. -/
theorem drain_header_of_long (magic : UInt8) {h : Header} (hlong : maxBodyLength < h.bodyLength.toNat) :
    drain magic h.encode = ([.error (.bodyTooLong h.tag h.bodyLength)], h.encode) := by
  have hparse : parse magic h.encode = .fault (.bodyTooLong h.tag h.bodyLength) h.encode := by
    have hdecode := Header.decode?_encode_append h []
    rw [List.append_nil] at hdecode
    unfold parse
    rw [hdecode]
    exact if_pos hlong
  rw [drain]
  split
  · next hp => rw [hparse] at hp; cases hp
  · next hp => rw [hparse] at hp; cases hp
  · next hp =>
    rw [hparse] at hp
    cases hp
    rfl

end ShardedCache.Wire.Frame

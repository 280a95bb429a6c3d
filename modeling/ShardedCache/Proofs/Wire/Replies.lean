import ShardedCache.Proofs.Wire.Pieces

/-!
# Replies of any kind

A peer that keeps to the framing and to nothing else sends a header and as many bytes as the header
announces. A reader takes each such reply off the stream as soon as it is there in full, be it a
frame or not (`RawFrame.parse_stream`, `RawFrame.drain_encodeAll`).
-/

namespace ShardedCache.Wire

/-- A header and the bytes that it announces, whatever they are. -/
structure RawFrame where
  header : Header
  body : Bytes
  whole : body.length = header.bodyLength.toNat
  limit : header.bodyLength.toNat ≤ maxBodyLength

namespace RawFrame

def encode (r : RawFrame) : Bytes := r.header.encode ++ r.body

/-- What a client makes of it. -/
def judged (r : RawFrame) : Except FrameFault Frame := Frame.judge responseMagic r.header r.body

def encodeAll (replies : List RawFrame) : Bytes := replies.flatMap encode

@[simp] theorem encodeAll_cons (r : RawFrame) (replies : List RawFrame) :
    encodeAll (r :: replies) = r.encode ++ encodeAll replies := rfl

@[simp] theorem encodeAll_append (replies replies' : List RawFrame) :
    encodeAll (replies ++ replies') = encodeAll replies ++ encodeAll replies' := List.flatMap_append

/-- The status of a reply that is a frame is the one in its header. -/
theorem status_of_judged {r : RawFrame} {f : Frame} (h : r.judged = .ok f) :
    f.status = r.header.status := by
  unfold judged Frame.judge at h
  split at h
  · cases h
  · split at h
    · next hparts =>
      cases h
      simp only [Frame.ofBody?, bind, Option.bind_eq_some_iff, Prod.exists] at hparts
      obtain ⟨-, -, _, _, -, _, _, -, hf⟩ := hparts
      cases hf
      rfl
    · cases h

theorem parse_encode_append (r : RawFrame) (rest : Bytes) :
    Frame.parse responseMagic (r.encode ++ rest) = .ofWhole rest r.judged := by
  rw [encode, List.append_assoc]
  exact Frame.parse_of_whole responseMagic r.header rest r.limit r.whole

/-- Less than a reply is incomplete. -/
theorem parse_of_beginning {r : RawFrame} {bytes later : Bytes} (h : bytes ++ later = r.encode)
    (hlater : later ≠ []) : Frame.parse responseMagic bytes = .incomplete := by
  rcases Nat.lt_or_ge bytes.length headerLength with hshort | hlong
  · exact Frame.parse_of_short responseMagic hshort
  · have hheader : r.header.encode <+: bytes :=
      List.prefix_of_prefix_length_le ⟨r.body, rfl⟩ ⟨later, h⟩ (by rwa [Header.length_encode])
    obtain ⟨front, rfl⟩ := hheader
    rw [encode, List.append_assoc] at h
    have hbody := List.append_cancel_left h
    refine Frame.parse_of_begun responseMagic r.header r.limit ?_
    rw [← r.whole, ← hbody, List.length_append]
    have := List.length_pos_iff.2 hlater
    omega

/-- Of replies that arrive, the first is taken off as soon as it is there in full. -/
theorem parse_stream {replies : List RawFrame} {bytes later : Bytes}
    (h : bytes ++ later = encodeAll replies) :
    (Frame.parse responseMagic bytes = .incomplete ∧ (later = [] → replies = [])) ∨
      ∃ r rest replies', replies = r :: replies' ∧
        Frame.parse responseMagic bytes = .ofWhole rest r.judged ∧
        rest ++ later = encodeAll replies' := by
  cases replies with
  | nil =>
    obtain ⟨rfl, -⟩ := List.append_eq_nil_iff.1 h
    exact .inl ⟨Frame.parse_of_short responseMagic (by decide), fun _ => rfl⟩
  | cons r replies =>
    rw [encodeAll_cons] at h
    rcases Nat.lt_or_ge bytes.length r.encode.length with hshort | hlong
    · obtain ⟨more, hmore⟩ : bytes <+: r.encode :=
        List.prefix_of_prefix_length_le ⟨later, h⟩ ⟨encodeAll replies, rfl⟩ (Nat.le_of_lt hshort)
      have hne : more ≠ [] := by
        rintro rfl
        rw [← hmore, List.append_nil] at hshort
        exact Nat.lt_irrefl _ hshort
      refine .inl ⟨parse_of_beginning hmore hne, fun hnil => ?_⟩
      rw [hnil, List.append_nil] at h
      rw [h, List.length_append] at hshort
      omega
    · obtain ⟨rest, rfl⟩ : r.encode <+: bytes :=
        List.prefix_of_prefix_length_le ⟨encodeAll replies, rfl⟩ ⟨later, h⟩ hlong
      rw [List.append_assoc] at h
      exact .inr ⟨r, rest, replies, rfl, r.parse_encode_append rest, List.append_cancel_left h⟩

/-- What is incomplete is not all of some replies. -/
theorem eq_nil_of_incomplete {replies : List RawFrame}
    (h : Frame.parse responseMagic (encodeAll replies) = .incomplete) : replies = [] := by
  cases replies with
  | nil => rfl
  | cons r replies =>
    rw [encodeAll_cons, parse_encode_append] at h
    cases hjudged : r.judged <;> rw [hjudged] at h <;> cases h

/-- A reader finds all replies that are there in full, whatever is wrong with them. -/
theorem drain_encodeAll {left : Bytes} (hleft : Frame.parse responseMagic left = .incomplete) :
    ∀ replies : List RawFrame,
      Frame.drain responseMagic (encodeAll replies ++ left) = (replies.map judged, left)
  | [] => Frame.drain_of_incomplete hleft
  | r :: replies => by
    have hrest := drain_encodeAll hleft replies
    have hparse := r.parse_encode_append (encodeAll replies ++ left)
    rw [encodeAll_cons, List.append_assoc, List.map_cons]
    cases hjudged : r.judged with
    | ok f =>
      rw [hjudged] at hparse
      rw [Frame.drain_of_frame hparse, hrest]
    | error fault =>
      rw [hjudged] at hparse
      rw [Frame.drain_of_fault hparse (Frame.consumed_of_judge responseMagic r.header hjudged), hrest]

end RawFrame

end ShardedCache.Wire

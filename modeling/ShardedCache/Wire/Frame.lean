import ShardedCache.Wire.Header
import ShardedCache.Wire.Opcode
import ShardedCache.Text.Quoted

/-!
# Frames

A frame is a header and the extras, key and value that follow it. `Frame.parse` takes one frame
off the front of a byte string once it is there in full. A frame of the wrong magic, or one whose
lengths contradict each other, is skipped and reported; a body length past the limit leaves
nothing to go by, so the bytes stay where they are. `Frame.drain` parses until nothing is left
that can be taken.
-/

namespace ShardedCache.Wire

/-- Longest body that is accepted. -/
def maxBodyLength : Nat := 64 * 1024 * 1024

structure Frame where
  header : Header
  extras : Bytes
  key : Bytes
  value : Bytes
  deriving DecidableEq, Repr

/-- What is wrong with a frame. -/
inductive FrameFault where
  | bodyTooLong (tag : UInt32) (length : UInt32)
  | badMagic (tag : UInt32) (magic : UInt8)
  | overfull (tag : UInt32) (key : UInt16) (extras : UInt8) (body : UInt32)
  deriving DecidableEq, Repr

namespace FrameFault

def tag : FrameFault → UInt32
  | bodyTooLong tag _ => tag
  | badMagic tag _ => tag
  | overfull tag _ _ _ => tag

/-- Whether the frame was skipped, so that the next byte starts a frame again. -/
def consumed : FrameFault → Bool
  | bodyTooLong .. => false
  | badMagic .. | overfull .. => true

def reason : FrameFault → String
  | bodyTooLong _ length => "body length " ++ toString length.toNat ++ " exceeds limit"
  | badMagic _ magic => "bad magic 0x" ++ Bytes.lowerHex [magic]
  | overfull _ key extras body =>
    "key (" ++ toString key.toNat ++ ") and extras (" ++ toString extras.toNat
      ++ ") exceed body length " ++ toString body.toNat

def message (fault : FrameFault) : String :=
  "malformed frame (opaque " ++ toString fault.tag.toNat ++ "): " ++ fault.reason

end FrameFault

namespace Frame

/-- A frame around the given parts. The header keeps each length as far as its field can. -/
def build (magic : UInt8) (opcode : UInt8) (status : UInt16) (extras key value : Bytes)
    (tag : UInt32) (cas : UInt64) : Frame where
  header :=
    { magic, opcode, status, tag, cas
      keyLength := UInt16.ofNat key.length
      extrasLength := UInt8.ofNat extras.length
      dataType := 0
      bodyLength := UInt32.ofNat (extras.length + key.length + value.length) }
  extras := extras
  key := key
  value := value

def request (opcode : Opcode) (extras key value : Bytes) (tag : UInt32) (cas : UInt64) : Frame :=
  build requestMagic opcode.toByte 0 extras key value tag cas

def response (opcode : UInt8) (status : UInt16) (extras key value : Bytes) (tag : UInt32)
    (cas : UInt64) : Frame :=
  build responseMagic opcode status extras key value tag cas

def encodedLength (f : Frame) : Nat := headerLength + f.header.bodyLength.toNat

def encode (f : Frame) : Bytes := f.header.encode ++ f.extras ++ f.key ++ f.value

def status (f : Frame) : UInt16 := f.header.status

def tag (f : Frame) : UInt32 := f.header.tag

/-- What stands at the front of a byte string. -/
inductive Parsed where
  /-- Not yet a whole frame. -/
  | incomplete
  | frame (frame : Frame) (rest : Bytes)
  | fault (fault : FrameFault) (rest : Bytes)
  deriving DecidableEq, Repr

/-- Parts the body that follows a header. -/
def ofBody? (h : Header) (body : Bytes) : Option Frame := do
  let _ ← h.valueLength?
  let (extras, body) ← body.split? h.extrasLength.toNat
  let (key, value) ← body.split? h.keyLength.toNat
  some { header := h, extras, key, value }

/-- Takes one frame that carries `magic` off the front of `bytes`. -/
def parse (magic : UInt8) (bytes : Bytes) : Parsed :=
  match Header.decode? bytes with
  | none => .incomplete
  | some h =>
    if maxBodyLength < h.bodyLength.toNat then .fault (.bodyTooLong h.tag h.bodyLength) bytes
    else
      match Bytes.split? h.bodyLength.toNat (bytes.drop headerLength) with
      | none => .incomplete
      | some (body, rest) =>
        if h.magic ≠ magic then .fault (.badMagic h.tag h.magic) rest
        else
          match ofBody? h body with
          | some f => .frame f rest
          | none => .fault (.overfull h.tag h.keyLength h.extrasLength h.bodyLength) rest

/-! ## Parsing shortens the buffer -/

/-- What `parse` takes away is at least a header. -/
theorem length_of_parse_frame {magic : UInt8} {bytes rest : Bytes} {f : Frame}
    (h : parse magic bytes = .frame f rest) : rest.length < bytes.length := by
  unfold parse at h
  split at h
  · cases h
  · next hd hdec =>
    have hlen := Header.length_of_decode? hdec
    split at h
    · cases h
    · split at h
      · cases h
      · next hs =>
        obtain ⟨hb, -⟩ := Bytes.split?_eq_some_iff.1 hs
        have := congrArg List.length hb
        simp only [List.length_drop, List.length_append, headerLength] at this hlen
        split at h
        · cases h
        · split at h
          · cases h; omega
          · cases h

theorem length_of_parse_fault {magic : UInt8} {bytes rest : Bytes} {e : FrameFault}
    (h : parse magic bytes = .fault e rest) (hc : e.consumed = true) :
    rest.length < bytes.length := by
  unfold parse at h
  split at h
  · cases h
  · next hd hdec =>
    have hlen := Header.length_of_decode? hdec
    split at h
    · cases h; simp [FrameFault.consumed] at hc
    · split at h
      · cases h
      · next hs =>
        obtain ⟨hb, -⟩ := Bytes.split?_eq_some_iff.1 hs
        have := congrArg List.length hb
        simp only [List.length_drop, List.length_append, headerLength] at this hlen
        split at h
        · cases h; omega
        · split at h
          · cases h
          · cases h; omega

/-- Parses frames off the front of `bytes` until only the start of one is left, or a fault that
leaves the buffer as it is. Gives what was found, in order, and the bytes left over. -/
def drain (magic : UInt8) (bytes : Bytes) : List (Except FrameFault Frame) × Bytes :=
  match _h : parse magic bytes with
  | .incomplete => ([], bytes)
  | .frame f rest =>
    let (found, left) := drain magic rest
    (.ok f :: found, left)
  | .fault e rest =>
    if _hc : e.consumed = true then
      let (found, left) := drain magic rest
      (.error e :: found, left)
    else ([.error e], bytes)
termination_by bytes.length
decreasing_by
  · exact length_of_parse_frame _h
  · exact length_of_parse_fault _h _hc

end Frame

end ShardedCache.Wire

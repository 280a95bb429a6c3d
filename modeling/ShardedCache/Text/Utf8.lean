import ShardedCache.Bytes

/-!
# UTF-8 text

A byte string is text when it is well-formed UTF-8. `decode` accepts exactly the encodings of
strings and names the first fault of every other byte string: where it starts, and how many bytes
can be told to be wrong, unless the text merely stops in the middle of a character. `lossy` reads
any byte string, with U+FFFD for every faulty stretch.
-/

namespace ShardedCache.Text.Utf8

def encode (s : String) : Bytes := s.toUTF8.data.toList

/-- What stands at the front of a byte string. -/
inductive Front where
  /-- A character of `width` bytes. -/
  | char (width : Nat)
  /-- `width` bytes that no character starts with, or that the next byte does not continue. -/
  | invalid (width : Nat)
  /-- The start of a character whose other bytes are missing. -/
  | unfinished
  deriving DecidableEq, Repr

/-- Reads the `owed` bytes that a character still needs; the next one lies from `low` to `high`,
those after it are plain continuation bytes. -/
def follow (read : Nat) : (owed : Nat) → (low high : UInt8) → Bytes → Front
  | 0, _, _, _ => .char read
  | _ + 1, _, _, [] => .unfinished
  | owed + 1, low, high, b :: rest =>
    if low ≤ b ∧ b ≤ high then follow (read + 1) owed 0x80 0xBF rest else .invalid read

/-- Classifies the front of `b :: rest`. -/
def front (b : UInt8) (rest : Bytes) : Front :=
  if b < 0x80 then .char 1
  else if b < 0xC2 then .invalid 1
  else if b < 0xE0 then follow 1 1 0x80 0xBF rest
  else if b = 0xE0 then follow 1 2 0xA0 0xBF rest
  else if b = 0xED then follow 1 2 0x80 0x9F rest
  else if b < 0xF0 then follow 1 2 0x80 0xBF rest
  else if b = 0xF0 then follow 1 3 0x90 0xBF rest
  else if b < 0xF4 then follow 1 3 0x80 0xBF rest
  else if b = 0xF4 then follow 1 3 0x80 0x8F rest
  else .invalid 1

/-- Why a byte string is not text. -/
structure Fault where
  /-- Where the faulty stretch starts. -/
  index : Nat
  /-- Its width, or nothing when the text stops in the middle of a character. -/
  width : Option Nat
  deriving DecidableEq, Repr

def Fault.message (fault : Fault) : String :=
  match fault.width with
  | some width =>
    "invalid utf-8 sequence of " ++ toString width ++ " bytes from index " ++ toString fault.index
  | none => "incomplete utf-8 byte sequence from index " ++ toString fault.index

/-- The first fault, `index` bytes into the text and with `skip` bytes of a character to pass. -/
def faultFrom (index : Nat) : (skip : Nat) → Bytes → Option Fault
  | _, [] => none
  | skip + 1, _ :: rest => faultFrom (index + 1) skip rest
  | 0, b :: rest =>
    match front b rest with
    | .char width => faultFrom (index + 1) (width - 1) rest
    | .invalid width => some ⟨index, some width⟩
    | .unfinished => some ⟨index, none⟩

/-- The text that a byte string encodes, or its first fault. -/
def decode (bytes : Bytes) : Except Fault String :=
  match String.fromUTF8? ⟨bytes.toArray⟩ with
  | some s => .ok s
  | none => .error ((faultFrom 0 0 bytes).getD ⟨0, none⟩)

/-- The character spelled by a first byte and the continuation bytes after it. -/
def charOf (b : UInt8) (tail : Bytes) : Char :=
  let lead := match tail.length with
    | 0 => b.toNat
    | 1 => b.toNat % 32
    | 2 => b.toNat % 16
    | _ => b.toNat % 8
  Char.ofNat (tail.foldl (fun code b => code * 64 + b.toNat % 64) lead)

/-- The characters of a byte string after `skip` bytes of a character, faults replaced. -/
def lossyFrom : (skip : Nat) → Bytes → List Char
  | _, [] => []
  | skip + 1, _ :: rest => lossyFrom skip rest
  | 0, b :: rest =>
    match front b rest with
    | .char width => charOf b (rest.take (width - 1)) :: lossyFrom (width - 1) rest
    | .invalid width => '\uFFFD' :: lossyFrom (width - 1) rest
    | .unfinished => ['\uFFFD']

/-- Reads a byte string as text, with U+FFFD for every faulty stretch. -/
def lossy (bytes : Bytes) : String := String.ofList (lossyFrom 0 bytes)

/-! ## Decoding is the inverse of encoding -/

theorem decode_encode (s : String) : decode (encode s) = .ok s := by
  have h : (⟨(encode s).toArray⟩ : ByteArray) = s.toByteArray := by simp [encode]
  simp [decode, h, String.fromUTF8?, s.isValidUTF8, String.fromUTF8]

theorem encode_of_decode {bytes : Bytes} {s : String} (h : decode bytes = .ok s) :
    encode s = bytes := by
  unfold decode String.fromUTF8? at h
  by_cases hv : (⟨bytes.toArray⟩ : ByteArray).IsValidUTF8
  · simp only [hv, dite_true, Except.ok.injEq] at h
    subst h
    simp [encode, String.fromUTF8]
  · simp [hv] at h

end ShardedCache.Text.Utf8

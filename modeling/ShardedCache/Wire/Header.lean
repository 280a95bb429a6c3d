import ShardedCache.Bytes

/-!
# Frame headers

Every request and response starts with 24 bytes: magic, opcode, the lengths of key and extras, a
data type, the status (unused in requests), the length of the whole body, the correlation tag and
the version number of the item. Words are big-endian.
-/

namespace ShardedCache.Wire

def headerLength : Nat := 24

def requestMagic : UInt8 := 0x80

def responseMagic : UInt8 := 0x81

structure Header where
  magic : UInt8
  opcode : UInt8
  keyLength : UInt16
  extrasLength : UInt8
  dataType : UInt8
  status : UInt16
  bodyLength : UInt32
  /-- Ties a response to the request it answers. -/
  tag : UInt32
  cas : UInt64
  deriving DecidableEq, Repr

namespace Header

def encode (h : Header) : Bytes :=
  bigEndian 1 h.magic.toNat ++ bigEndian 1 h.opcode.toNat ++ bigEndian 2 h.keyLength.toNat
    ++ bigEndian 1 h.extrasLength.toNat ++ bigEndian 1 h.dataType.toNat
    ++ bigEndian 2 h.status.toNat ++ bigEndian 4 h.bodyLength.toNat ++ bigEndian 4 h.tag.toNat
    ++ bigEndian 8 h.cas.toNat

/-- Reads a header off the front of `bytes`. -/
def decode? (bytes : Bytes) : Option Header := do
  let (magic, bytes) ← Bytes.u8? bytes
  let (opcode, bytes) ← Bytes.u8? bytes
  let (keyLength, bytes) ← Bytes.u16? bytes
  let (extrasLength, bytes) ← Bytes.u8? bytes
  let (dataType, bytes) ← Bytes.u8? bytes
  let (status, bytes) ← Bytes.u16? bytes
  let (bodyLength, bytes) ← Bytes.u32? bytes
  let (tag, bytes) ← Bytes.u32? bytes
  let (cas, _) ← Bytes.u64? bytes
  some { magic, opcode, keyLength, extrasLength, dataType, status, bodyLength, tag, cas }

/-- What the body holds besides key and extras; nothing when those two do not fit in it. -/
def valueLength? (h : Header) : Option Nat :=
  let around := h.keyLength.toNat + h.extrasLength.toNat
  if around ≤ h.bodyLength.toNat then some (h.bodyLength.toNat - around) else none

theorem length_of_decode? {bytes : Bytes} {h : Header} (hd : decode? bytes = some h) :
    headerLength ≤ bytes.length := by
  simp only [decode?, bind, Option.bind_eq_some_iff, Bytes.u8?, Bytes.u16?, Bytes.u32?,
    Bytes.u64?, Option.map_eq_some_iff, Prod.exists] at hd
  obtain ⟨_, _, ⟨_, _, h₁, e₁⟩, _, _, ⟨_, _, h₂, e₂⟩, _, _, ⟨_, _, h₃, e₃⟩, _, _,
    ⟨_, _, h₄, e₄⟩, _, _, ⟨_, _, h₅, e₅⟩, _, _, ⟨_, _, h₆, e₆⟩, _, _, ⟨_, _, h₇, e₇⟩, _, _,
    ⟨_, _, h₈, e₈⟩, _, _, ⟨_, _, h₉, e₉⟩, -⟩ := hd
  cases e₁; cases e₂; cases e₃; cases e₄; cases e₅; cases e₆; cases e₇; cases e₈; cases e₉
  have := Bytes.length_of_word? h₁
  have := Bytes.length_of_word? h₂
  have := Bytes.length_of_word? h₃
  have := Bytes.length_of_word? h₄
  have := Bytes.length_of_word? h₅
  have := Bytes.length_of_word? h₆
  have := Bytes.length_of_word? h₇
  have := Bytes.length_of_word? h₈
  have := Bytes.length_of_word? h₉
  simp only [headerLength]
  omega

@[simp] theorem length_encode (h : Header) : h.encode.length = headerLength := by
  simp [encode, headerLength]

end Header

end ShardedCache.Wire

/-!
# Byte strings

Everything that crosses a connection is a list of bytes. Words are written most significant byte
first: `bigEndian width n` writes the `width` low bytes of `n`, and `ofBigEndian` reads a word of
any width back. The readers take a word off the front of a byte string and return what follows
it, or nothing when the string is too short.
-/

namespace ShardedCache

/-- A byte string. -/
abbrev Bytes := List UInt8

/-- The `width` low bytes of `n`, most significant first. -/
def bigEndian : (width : Nat) → (n : Nat) → Bytes
  | 0, _ => []
  | width + 1, n => bigEndian width (n / 256) ++ [UInt8.ofNat n]

/-- How many words of `width` bytes there are. -/
def wordCount : (width : Nat) → Nat
  | 0 => 1
  | width + 1 => 256 * wordCount width

/-- The number that a byte string spells, most significant byte first. -/
def ofBigEndian (bytes : Bytes) : Nat :=
  bytes.foldl (fun n b => n * 256 + b.toNat) 0

namespace Bytes

/-- The first `n` bytes and the rest, if there are that many. -/
def split? (n : Nat) (bytes : Bytes) : Option (Bytes × Bytes) :=
  if (bytes.take n).length = n then some (bytes.take n, bytes.drop n) else none

/-- Reads a word of `width` bytes. -/
def word? (width : Nat) (bytes : Bytes) : Option (Nat × Bytes) :=
  (split? width bytes).map fun (front, rest) => (ofBigEndian front, rest)

def u8? (bytes : Bytes) : Option (UInt8 × Bytes) :=
  (word? 1 bytes).map fun (n, rest) => (UInt8.ofNat n, rest)

def u16? (bytes : Bytes) : Option (UInt16 × Bytes) :=
  (word? 2 bytes).map fun (n, rest) => (UInt16.ofNat n, rest)

def u32? (bytes : Bytes) : Option (UInt32 × Bytes) :=
  (word? 4 bytes).map fun (n, rest) => (UInt32.ofNat n, rest)

def u64? (bytes : Bytes) : Option (UInt64 × Bytes) :=
  (word? 8 bytes).map fun (n, rest) => (UInt64.ofNat n, rest)

/-- The two digits of a byte in base sixteen, from the alphabet `digits`. -/
def hexPair (digits : Array Char) (b : UInt8) : List Char :=
  [digits.getD (b.toNat / 16) '0', digits.getD (b.toNat % 16) '0']

def lowerHexDigits : Array Char :=
  #['0', '1', '2', '3', '4', '5', '6', '7', '8', '9', 'a', 'b', 'c', 'd', 'e', 'f']

def upperHexDigits : Array Char :=
  #['0', '1', '2', '3', '4', '5', '6', '7', '8', '9', 'A', 'B', 'C', 'D', 'E', 'F']

/-- Two lower-case hexadecimal digits a byte. -/
def lowerHex (bytes : Bytes) : String :=
  String.ofList (bytes.flatMap (hexPair lowerHexDigits))

/-- Two upper-case hexadecimal digits a byte. -/
def upperHex (bytes : Bytes) : String :=
  String.ofList (bytes.flatMap (hexPair upperHexDigits))

/-- The bytes in lower-case hexadecimal, parted by blanks. -/
def hexDump (bytes : Bytes) : String :=
  " ".intercalate (bytes.map fun b => String.ofList (hexPair lowerHexDigits b))

/-- The value of a hexadecimal digit. -/
def hexDigit? (c : Char) : Option Nat :=
  match lowerHexDigits.idxOf? c with
  | some n => some n
  | none => upperHexDigits.idxOf? c

/-- The bytes that pairs of hexadecimal digits spell, up to the first pair that spells none. -/
def ofHexDigits : List Char → Bytes
  | a :: b :: rest =>
    match hexDigit? a, hexDigit? b with
    | some high, some low => .ofNat (high * 16 + low) :: ofHexDigits rest
    | _, _ => []
  | _ => []

def ofHex (text : String) : Bytes := ofHexDigits text.toList

end Bytes

/-! ## Words are read back as they were written -/

@[simp] theorem length_bigEndian (width n : Nat) : (bigEndian width n).length = width := by
  induction width generalizing n with
  | zero => rfl
  | succ width ih => simp [bigEndian, ih]

theorem ofBigEndian_append_singleton (front : Bytes) (b : UInt8) :
    ofBigEndian (front ++ [b]) = ofBigEndian front * 256 + b.toNat := by
  simp [ofBigEndian]

theorem ofBigEndian_bigEndian (width n : Nat) :
    ofBigEndian (bigEndian width n) = n % wordCount width := by
  induction width generalizing n with
  | zero => simp [bigEndian, ofBigEndian, wordCount, Nat.mod_one]
  | succ width ih =>
    rw [bigEndian, ofBigEndian_append_singleton, ih, wordCount, Nat.mod_mul, UInt8.toNat_ofNat']
    omega

theorem bigEndian_ofBigEndian_append (front : Bytes) (b : UInt8) :
    bigEndian (front.length + 1) (ofBigEndian (front ++ [b])) =
      bigEndian front.length (ofBigEndian front) ++ [b] := by
  have hb := b.toNat_lt
  rw [bigEndian, ofBigEndian_append_singleton]
  congr 1
  · congr 1
    omega
  · congr 1
    apply UInt8.toNat_inj.1
    rw [UInt8.toNat_ofNat']
    omega

namespace Bytes

theorem split?_eq_some_iff {n : Nat} {bytes front rest : Bytes} :
    split? n bytes = some (front, rest) ↔ bytes = front ++ rest ∧ front.length = n := by
  unfold split?
  constructor
  · intro h
    split at h
    · next hn =>
      simp only [Option.some.injEq, Prod.mk.injEq] at h
      obtain ⟨rfl, rfl⟩ := h
      exact ⟨(List.take_append_drop n bytes).symm, hn⟩
    · cases h
  · rintro ⟨rfl, rfl⟩
    simp

@[simp] theorem split?_append (front rest : Bytes) :
    split? front.length (front ++ rest) = some (front, rest) :=
  split?_eq_some_iff.2 ⟨rfl, rfl⟩

theorem length_of_word? {width n : Nat} {bytes rest : Bytes}
    (h : word? width bytes = some (n, rest)) : bytes.length = width + rest.length := by
  simp only [word?, Option.map_eq_some_iff, Prod.exists, Prod.mk.injEq] at h
  obtain ⟨front, _, hs, -, rfl⟩ := h
  obtain ⟨rfl, rfl⟩ := split?_eq_some_iff.1 hs
  simp

theorem word?_bigEndian (width n : Nat) (rest : Bytes) :
    word? width (bigEndian width n ++ rest) = some (n % wordCount width, rest) := by
  have h := split?_append (bigEndian width n) rest
  rw [length_bigEndian] at h
  simp [word?, h, ofBigEndian_bigEndian]

end Bytes

end ShardedCache

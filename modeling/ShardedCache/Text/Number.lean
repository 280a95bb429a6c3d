/-!
# Numbers in text

Unsigned numbers as users write them: digits of the base, with an optional plus sign in front. The
first character at which reading fails decides the error: it is no digit, or the number has grown
past its limit there.
-/

namespace ShardedCache.Text

inductive NumberError where
  | empty
  | invalidDigit
  | tooLarge
  deriving DecidableEq, Repr

def NumberError.message : NumberError → String
  | .empty => "cannot parse integer from empty string"
  | .invalidDigit => "invalid digit found in string"
  | .tooLarge => "number too large to fit in target type"

/-- The value of a digit in base `base`; letters of either case go on after nine. -/
def digit? (base : Nat) (c : Char) : Option Nat :=
  let value :=
    if '0' ≤ c ∧ c ≤ '9' then some (c.toNat - '0'.toNat)
    else if 'a' ≤ c ∧ c ≤ 'z' then some (c.toNat - 'a'.toNat + 10)
    else if 'A' ≤ c ∧ c ≤ 'Z' then some (c.toNat - 'A'.toNat + 10)
    else none
  value.filter (· < base)

/-- Reads digits onto `value`; no value on the way may exceed `limit`. -/
def readDigits (base limit : Nat) : (value : Nat) → List Char → Except NumberError Nat
  | value, [] => .ok value
  | value, c :: rest =>
    match digit? base c with
    | none => .error .invalidDigit
    | some d =>
      if value * base + d ≤ limit then readDigits base limit (value * base + d) rest
      else .error .tooLarge

/-- Reads an unsigned number of at most `limit`. -/
def readNumber (base limit : Nat) (text : List Char) : Except NumberError Nat :=
  match text with
  | [] => .error .empty
  | ['+'] => .error .invalidDigit
  | '+' :: digits => readDigits base limit 0 digits
  | digits => readDigits base limit 0 digits

/-- Reads a decimal number that fits 64 bits. -/
def readU64 (text : String) : Except NumberError UInt64 :=
  (readNumber 10 (UInt64.size - 1) text.toList).map UInt64.ofNat

/-- Reads a decimal number that fits 32 bits. -/
def readU32 (text : String) : Except NumberError UInt32 :=
  (readNumber 10 (UInt32.size - 1) text.toList).map UInt32.ofNat

/-- Reads a decimal integer that fits 64 bits with a sign. -/
def readInt64? (text : String) : Option Int :=
  match text.toList with
  | '-' :: '+' :: _ => none
  | '-' :: digits => (readNumber 10 (UInt64.size / 2) digits).toOption.map fun n => -(n : Int)
  | digits => (readNumber 10 (UInt64.size / 2 - 1) digits).toOption.map fun n => (n : Int)

end ShardedCache.Text

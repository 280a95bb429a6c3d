import ShardedCache.OrderKey
import ShardedCache.Text.Number
import ShardedCache.Text.Quoted
import ShardedCache.Text.Utf8

/-!
# Order keys in text

Users write a number in decimal, or bytes as pairs of hexadecimal digits after `0x`.
-/

namespace ShardedCache

/-- Why text is no order key. -/
inductive OrderKeyFault where
  | oddDigits (text : String)
  | invalidBytes (text : String)
  /-- A pair of digits would end inside a character. The reading breaks off. -/
  | splitsCharacter (text : String)
  | invalidNumber (text : String) (error : Text.NumberError)
  deriving DecidableEq, Repr

/-- What is wrong, and after it the reason where there is one. A reading that broke off has no
message. -/
def OrderKeyFault.messages : OrderKeyFault → List String
  | oddDigits text => ["hex bkey " ++ Text.quoted text ++ " has an odd number of digits"]
  | invalidBytes text =>
    ["invalid hex bkey " ++ Text.quoted text, Text.NumberError.message .invalidDigit]
  | splitsCharacter _ => []
  | invalidNumber text error => ["invalid bkey " ++ Text.quoted text, error.message]

namespace OrderKey

/-- The byte that a pair of digits stands for. A plus sign may take the place of the first. -/
def pairByte? (first second : UInt8) : Option UInt8 := do
  let digit? (b : UInt8) : Option Nat := Text.digit? 16 (Char.ofNat b.toNat)
  let low ← digit? second
  let high ← if first = '+'.toUInt8 then some 0 else digit? first
  some (.ofNat (high * 16 + low))

/-- Whether a byte goes on with a character of UTF-8 text. -/
def isContinuation (b : UInt8) : Bool := 0x80 ≤ b && b < 0xc0

/-- The bytes that pairs of digits stand for, or the fault of the first pair that is none. -/
def pairBytes (text : String) : Bytes → Except OrderKeyFault Bytes
  | first :: second :: rest =>
    if rest.head?.any isContinuation then .error (.splitsCharacter text)
    else
      match pairByte? first second with
      | some b => (pairBytes text rest).map (b :: ·)
      | none => .error (.invalidBytes text)
  | _ => .ok []

/-- Reads what a user wrote. -/
def ofText (text : String) : Except OrderKeyFault OrderKey :=
  match text.toList with
  | '0' :: 'x' :: digits =>
    let digits := Text.Utf8.encode (String.ofList digits)
    if digits.length % 2 = 1 then .error (.oddDigits text)
    else (pairBytes text digits).map .bytes
  | _ =>
    match Text.readU64 text with
    | .ok n => .ok (.number n)
    | .error error => .error (.invalidNumber text error)

end OrderKey

end ShardedCache

import ShardedCache.Json.Basic
import ShardedCache.Text.Number

/-!
# Reading JSON

Text is first parted into tokens. A machine with a stack of unfinished arrays and objects then
takes one token at a time, so that reading ends with the tokens. Read strictly, arrays and objects
may not be nested more than 127 deep and strings must be text; a value that is only passed over is
read leniently.
-/

namespace ShardedCache.Json

/-! ## Tokens -/

inductive Token where
  | openArray | closeArray | openObject | closeObject | colon | comma | null
  | bool (b : Bool)
  | int (n : Int)
  /-- Whether a finite number of 64 bits comes near it is told by `finite`. -/
  | decimal (text : String) (finite : Bool)
  /-- Nothing when the content is no text. -/
  | string (content : Option String)
  deriving DecidableEq, Repr

def byte (c : Char) : UInt8 := UInt8.ofNat c.toNat

def isDigit (b : UInt8) : Bool := byte '0' ≤ b && b ≤ byte '9'

def isBlank (b : UInt8) : Bool := b == 32 || b == 9 || b == 10 || b == 13

/-- The content of a string up to its closing quote, escapes untouched, and what follows. Control
characters have to be escaped. -/
def stringContent : Bytes → Option (Bytes × Bytes)
  | [] => none
  | 34 :: rest => some ([], rest)
  | 92 :: b :: rest => (stringContent rest).map fun (content, rest) => (92 :: b :: content, rest)
  | b :: rest =>
    if b < 32 then none
    else (stringContent rest).map fun (content, rest) => (b :: content, rest)

/-- The UTF-16 unit that four hexadecimal digits spell. -/
def hexUnit? (a b c d : UInt8) : Option Nat :=
  [a, b, c, d].foldlM
    (fun unit digit => (Text.digit? 16 (Char.ofNat digit.toNat)).map (unit * 16 + ·)) 0

/-- A piece of the content of a string. -/
inductive Piece where
  | byte (b : UInt8)
  /-- A UTF-16 unit written as an escape. -/
  | unit (n : Nat)
  deriving DecidableEq, Repr

/-- Resolves the escapes of a string; nothing when one of them is malformed. -/
def pieces? : Bytes → Option (List Piece)
  | [] => some []
  | 92 :: 117 :: a :: b :: c :: d :: rest => do
    let unit ← hexUnit? a b c d
    (pieces? rest).map (.unit unit :: ·)
  | 92 :: b :: rest =>
    let plain : Option UInt8 := match Char.ofNat b.toNat with
      | '"' | '\\' | '/' => some b
      | 'b' => some 8
      | 'f' => some 12
      | 'n' => some 10
      | 'r' => some 13
      | 't' => some 9
      | _ => none
    plain.bind fun b => (pieces? rest).map (.byte b :: ·)
  | [92] => none
  | b :: rest => (pieces? rest).map (.byte b :: ·)

def isHighSurrogate (unit : Nat) : Bool := 0xD800 ≤ unit && unit < 0xDC00

def isLowSurrogate (unit : Nat) : Bool := 0xDC00 ≤ unit && unit < 0xE000

/-- The UTF-8 bytes of a string's content; nothing when a surrogate stands alone. -/
def bytes? : List Piece → Option Bytes
  | [] => some []
  | .byte b :: rest => (bytes? rest).map (b :: ·)
  | .unit high :: .unit low :: rest =>
    if isHighSurrogate high && isLowSurrogate low then
      let code := 0x10000 + (high - 0xD800) * 0x400 + (low - 0xDC00)
      (bytes? rest).map (Text.Utf8.encode (Char.ofNat code).toString ++ ·)
    else if isHighSurrogate high || isLowSurrogate high then none
    else (bytes? (.unit low :: rest)).map (Text.Utf8.encode (Char.ofNat high).toString ++ ·)
  | .unit unit :: rest =>
    if isHighSurrogate unit || isLowSurrogate unit then none
    else (bytes? rest).map (Text.Utf8.encode (Char.ofNat unit).toString ++ ·)

/-- The text of a string's content; nothing when it is malformed, `some none` when it is no
text. -/
def content? (raw : Bytes) : Option (Option String) :=
  (pieces? raw).map fun pieces => (bytes? pieces).bind fun bytes => (Text.Utf8.decode bytes).toOption

def asciiText (bytes : Bytes) : String := String.ofList (bytes.map fun b => Char.ofNat b.toNat)

def natOfDigits (digits : Bytes) : Nat := digits.foldl (fun n b => n * 10 + (b.toNat - 48)) 0

/-- Whether `digits · 10 ^ exponent` rounds to a finite number of 64 bits. -/
def isFinite (digits : Bytes) (exponent : Int) : Bool :=
  let n := natOfDigits digits
  let limit := Nat.pow 2 1024 - Nat.pow 2 970
  if n = 0 then true
  else if 400 < exponent then false
  else if 0 ≤ exponent then n * Nat.pow 10 exponent.toNat < limit
  else if digits.length < 300 then true
  else n < limit * Nat.pow 10 (min (-exponent).toNat digits.length)

/-- The exponent of a number, after its letter: its sign and its digits, and what follows. -/
def exponent? (src : Bytes) : Option (Int × Bytes) :=
  let (negative, src) := match src with
    | 43 :: rest => (false, rest)
    | 45 :: rest => (true, rest)
    | src => (false, src)
  match src.span isDigit with
  | ([], _) => none
  | (digits, rest) =>
    let n := (natOfDigits digits : Int)
    some (if negative then -n else n, rest)

/-- An unsigned number at the front of `src`: its digits, the power of ten that they are multiplied
by if it is no integer, and what follows. -/
def magnitude? (src : Bytes) : Option (Bytes × Option Int × Bytes) := do
  let (whole, rest) := src.span isDigit
  if whole.isEmpty || (whole.head? == some 48 && 1 < whole.length) then none
  let (fraction, rest) ← match rest with
    | 46 :: rest =>
      match rest.span isDigit with
      | ([], _) => none
      | (digits, rest) => some (some digits, rest)
    | rest => some (none, rest)
  let (exponent, rest) ← match rest with
    | 101 :: rest | 69 :: rest => (exponent? rest).map fun (e, rest) => (some e, rest)
    | rest => some (none, rest)
  let scale := match fraction, exponent with
    | none, none => none
    | _, _ => some (exponent.getD 0 - (fraction.getD []).length)
  some (whole ++ fraction.getD [], scale, rest)

/-- A number at the front of `src`. -/
def number? (src : Bytes) : Option (Token × Bytes) := do
  let (negative, unsigned) := match src with
    | 45 :: rest => (true, rest)
    | src => (false, src)
  let (digits, scale, rest) ← magnitude? unsigned
  let n := natOfDigits digits
  let isInt := scale.isNone && if negative then 0 < n && n ≤ UInt64.size / 2 else n < UInt64.size
  if isInt then some (.int (if negative then -n else n), rest)
  else
    let text := asciiText (src.take (src.length - rest.length))
    some (.decimal text (isFinite digits (scale.getD 0)), rest)

/-- A word of the language at the front of `src`. -/
def word? (src : Bytes) : Option (Token × Bytes) :=
  [("true", Token.bool true), ("false", .bool false), ("null", .null)].findSome? fun (word, token) =>
    let word := Text.Utf8.encode word
    if src.take word.length = word then some (token, src.drop word.length) else none

/-- The token at the front of `src`, which does not start with a blank. -/
def token? (src : Bytes) : Option (Token × Bytes) :=
  match src with
  | [] => none
  | b :: rest =>
    match Char.ofNat b.toNat with
    | '[' => some (.openArray, rest)
    | ']' => some (.closeArray, rest)
    | '\x7b' => some (.openObject, rest)
    | '\x7d' => some (.closeObject, rest)
    | ':' => some (.colon, rest)
    | ',' => some (.comma, rest)
    | '"' => do
      let (raw, rest) ← stringContent rest
      some (.string (← content? raw), rest)
    | _ => if isDigit b || b == 45 then number? src else word? src

/-- Parts a text into tokens. -/
def tokens? (src : Bytes) : Option (List Token) :=
  match src with
  | [] => some []
  | b :: rest =>
    if isBlank b then tokens? rest
    else
      match token? (b :: rest) with
      | some (token, after) =>
        if _h : after.length ≤ rest.length then (tokens? after).map (token :: ·) else none
      | none => none
termination_by src.length

/-! ## Values -/

/-- An array or object whose end has not been reached. -/
inductive Frame where
  /-- The items so far, last first. -/
  | array (items : List Json)
  /-- The members so far, last first. -/
  | object (members : List (String × Json))
  /-- The same, and the name of the member whose value is being read. -/
  | member (members : List (String × Json)) (name : String)
  deriving Repr

/-- What may come next. -/
inductive Expect where
  | value
  /-- A value or the end of an empty array. -/
  | firstItem
  /-- A name or the end of an empty object. -/
  | firstName
  | name
  | colon
  /-- A comma or the end. -/
  | rest
  deriving DecidableEq, Repr

/-- How far reading has come. -/
inductive Progress where
  | done (value : Json)
  | reading (stack : List Frame) (expect : Expect)

/-- Puts a finished value into the innermost array or object. -/
def finish (value : Json) : List Frame → Option Progress
  | [] => some (.done value)
  | .array items :: stack => some (.reading (.array (value :: items) :: stack) .rest)
  | .member members name :: stack =>
    some (.reading (.object ((name, value) :: members) :: stack) .rest)
  | .object _ :: _ => none

/-- How deep arrays and objects may be nested. -/
def maxDepth : Nat := 127

/-- Opens an array or object. -/
def enter (strict : Bool) (stack : List Frame) (frame : Frame) (expect : Expect) :
    Option Progress :=
  if strict && maxDepth ≤ stack.length then none else some (.reading (frame :: stack) expect)

/-- Takes one token. -/
def step (strict : Bool) (stack : List Frame) : Expect → Token → Option Progress
  | .firstItem, .closeArray | .rest, .closeArray =>
    match stack with
    | .array items :: stack => finish (.array items.reverse) stack
    | _ => none
  | .firstName, .closeObject | .rest, .closeObject =>
    match stack with
    | .object members :: stack => finish (ofMembers members.reverse) stack
    | _ => none
  | .rest, .comma =>
    match stack with
    | .array _ :: _ => some (.reading stack .value)
    | .object _ :: _ => some (.reading stack .name)
    | _ => none
  | .firstName, .string content | .name, .string content =>
    match stack, content with
    | .object members :: stack, some name => some (.reading (.member members name :: stack) .colon)
    | .object members :: stack, none =>
      if strict then none else some (.reading (.member members "" :: stack) .colon)
    | _, _ => none
  | .colon, .colon => some (.reading stack .value)
  | .value, token | .firstItem, token =>
    match token with
    | .null => finish .null stack
    | .bool b => finish (.bool b) stack
    | .int n => finish (.int n) stack
    | .decimal text finite => if strict && !finite then none else finish (.decimal text) stack
    | .string (some s) => finish (.string s) stack
    | .string none => if strict then none else finish .null stack
    | .openArray => enter strict stack (.array []) .firstItem
    | .openObject => enter strict stack (.object []) .firstName
    | _ => none
  | _, _ => none

/-- Takes tokens until a value is complete. Gives the value and the tokens left. -/
def run (strict : Bool) : List Frame → Expect → List Token → Option (Json × List Token)
  | _, _, [] => none
  | stack, expect, token :: rest =>
    match step strict stack expect token with
    | some (.done value) => some (value, rest)
    | some (.reading stack expect) => run strict stack expect rest
    | none => none

/-- The value at the front of some tokens. -/
def ofTokens (strict : Bool) (tokens : List Token) : Option (Json × List Token) :=
  run strict [] .value tokens

/-- Reads a text that holds one value. -/
def read? (src : Bytes) : Option Json := do
  match ← ofTokens true (← tokens? src) with
  | (value, []) => some value
  | _ => none

end ShardedCache.Json

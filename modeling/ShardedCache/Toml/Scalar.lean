import ShardedCache.Config.Value
import ShardedCache.Toml.Text

/-!
# Numbers, dates and words of TOML

A scalar that is no string is a run of characters up to the next blank, line end, comma or closing
bracket. It is a word, an integer of 64 bits, a float, or a moment: a date, a time, or both.
-/

namespace ShardedCache.Toml

/-- Digits with single underscores between them; gives the digits. -/
def grouped? (base : Nat) : List Char → Option (List Char)
  | [] => none
  | [c] => (Text.digit? base c).map fun _ => [c]
  | c :: '_' :: rest => (Text.digit? base c).bind fun _ => (grouped? base rest).map (c :: ·)
  | c :: rest => (Text.digit? base c).bind fun _ => (grouped? base rest).map (c :: ·)

def natOf (base : Nat) (digits : List Char) : Nat :=
  digits.foldl (fun n c => n * base + (Text.digit? base c).getD 0) 0

/-- The sign of a number and the rest of it. -/
def signed : List Char → Bool × List Char
  | '-' :: rest => (true, rest)
  | '+' :: rest => (false, rest)
  | src => (false, src)

/-- Decimal digits that do not start with a needless zero. -/
def decimal? (src : List Char) : Option Nat := do
  let digits ← grouped? 10 src
  if digits.head? == some '0' && 1 < digits.length then none else some (natOf 10 digits)

/-- An integer that fits 64 bits with a sign. -/
def int? (src : List Char) : Option Int := do
  let n : Int ← match src with
    | '0' :: 'x' :: rest => (grouped? 16 rest).map fun d => (natOf 16 d : Int)
    | '0' :: 'o' :: rest => (grouped? 8 rest).map fun d => (natOf 8 d : Int)
    | '0' :: 'b' :: rest => (grouped? 2 rest).map fun d => (natOf 2 d : Int)
    | src =>
      let (negative, digits) := signed src
      (decimal? digits).map fun n => if negative then -(n : Int) else n
  let half : Int := (UInt64.size / 2 : Nat)
  if -half ≤ n ∧ n < half then some n else none

/-- The exponent of a float, after its letter; leading zeros are allowed. -/
def exponent? (src : List Char) : Option Int := do
  let (negative, digits) := signed src
  let n : Int := natOf 10 (← grouped? 10 digits)
  some (if negative then -n else n)

/-- `digits · 10 ^ exponent` as a float. -/
def floatOf (digits : Nat) (exponent : Int) : Float :=
  let bounded := max (-100000) (min exponent 100000)
  if 0 ≤ bounded then Float.ofScientific digits false bounded.toNat
  else Float.ofScientific digits true (-bounded).toNat

def negateIf (negative : Bool) (x : Float) : Float := if negative then -x else x

def float? (src : List Char) : Option Float := do
  let (negative, src) := signed src
  if src = ['i', 'n', 'f'] then return negateIf negative (1 / 0)
  if src = ['n', 'a', 'n'] then return 0 / 0
  let isExponent (c : Char) : Bool := c == 'e' || c == 'E'
  let (number, power) := src.span (!isExponent ·)
  let exponent ← if power.isEmpty then some 0 else exponent? power.tail
  let (whole, fraction) := number.span (· != '.')
  if fraction.isEmpty && power.isEmpty then none
  let n ← decimal? whole
  let places ← if fraction.isEmpty then some [] else grouped? 10 fraction.tail
  some (negateIf negative
    (floatOf (n * Nat.pow 10 places.length + natOf 10 places) (exponent - places.length)))

/-! ## Moments -/

/-- A number of exactly `n` digits. -/
def digits? (n : Nat) (src : List Char) : Option (Nat × List Char) :=
  let front := src.take n
  if front.length = n && front.all (·.isDigit) then some (natOf 10 front, src.drop n) else none

def expect? (c : Char) : List Char → Option (List Char)
  | d :: rest => if c = d then some rest else none
  | [] => none

def daysIn (year month : Nat) : Nat :=
  if month = 2 then
    if year % 4 = 0 ∧ (year % 100 ≠ 0 ∨ year % 400 = 0) then 29 else 28
  else if month = 4 ∨ month = 6 ∨ month = 9 ∨ month = 11 then 30
  else 31

/-- Drops a date at the front. -/
def date? (src : List Char) : Option (List Char) := do
  let (year, rest) ← digits? 4 src
  let (month, rest) ← digits? 2 (← expect? '-' rest)
  let (day, rest) ← digits? 2 (← expect? '-' rest)
  if 1 ≤ month ∧ month ≤ 12 ∧ 1 ≤ day ∧ day ≤ daysIn year month then some rest else none

/-- Drops a time of day at the front. -/
def time? (src : List Char) : Option (List Char) := do
  let (hour, rest) ← digits? 2 src
  let (minute, rest) ← digits? 2 (← expect? ':' rest)
  let (second, rest) ← digits? 2 (← expect? ':' rest)
  if 23 < hour ∨ 59 < minute ∨ 60 < second then none
  else if rest.head? = some '.' then
    let places := rest.tail.takeWhile (·.isDigit)
    if places.isEmpty then none else some (rest.tail.drop places.length)
  else some rest

/-- Drops the offset from universal time that may end a moment. -/
def offset? : List Char → Option (List Char)
  | [] => some []
  | 'Z' :: rest | 'z' :: rest => some rest
  | '+' :: rest | '-' :: rest => do
    let (hour, rest) ← digits? 2 rest
    let (minute, rest) ← digits? 2 (← expect? ':' rest)
    if 23 < hour ∨ 59 < minute then none else some rest
  | _ => none

def isMoment (src : List Char) : Bool :=
  let after := match date? src with
    | some [] => some []
    | some (c :: rest) =>
      if c = 'T' ∨ c = 't' ∨ c = ' ' then (time? rest).bind offset? else none
    | none => time? src
  after == some []

/-! ## Scalars -/

def endsScalar (c : Char) : Bool := [' ', '\t', '\n', '\r', ',', ']', '\x7d', '#'].contains c

/-- The run of characters that makes a scalar. A date and a time may have a space in between. -/
def scalarRun (src : List Char) : List Char × List Char :=
  let (run, rest) := src.span (!endsScalar ·)
  match date? run, rest with
  | some [], ' ' :: after =>
    match digits? 2 after with
    | some (_, ':' :: _) =>
      let (time, rest) := after.span (!endsScalar ·)
      (run ++ ' ' :: time, rest)
    | _ => (run, rest)
  | _, _ => (run, rest)

/-- A scalar that is no string. -/
def scalar? (src : List Char) : Option (ConfigValue × List Char) :=
  let (run, rest) := scalarRun src
  let value : Option ConfigValue :=
    if run = "true".toList then some (.flag true)
    else if run = "false".toList then some (.flag false)
    else
      ((int? run).map .int).or
        (((float? run).map .float).or
          (if isMoment run then some (.moment (String.ofList run)) else none))
  value.map (·, rest)

end ShardedCache.Toml

/-!
# Floating-point numbers in decimal

A finite number of 64 bits is written with the fewest digits that read back as the same number, and
of those with the digits nearest to it, without an exponent. The search is exact: the number is
`m · 2 ^ q`, the reals that round to it form an interval around it, and the grids of 1, 2, … digits
are tried until one has a point there.
-/

namespace ShardedCache.Text.Shortest

/-- A positive finite number, `mantissa · 2 ^ exponent`. -/
structure Binary where
  mantissa : Nat
  exponent : Int
  /-- The next smaller number is only half as far away as the next greater one. -/
  narrowBelow : Bool
  deriving DecidableEq, Repr

/-- A positive number, `digits · 10 ^ exponent`. -/
structure Decimal where
  digits : Nat
  exponent : Int
  deriving DecidableEq, Repr

/-- `base ^ e` as a fraction. -/
def power (base : Nat) (e : Int) : Nat × Nat :=
  if 0 ≤ e then (Nat.pow base e.toNat, 1) else (1, Nat.pow base (-e).toNat)

/-- Compares `a · 2 ^ p` with `b · 10 ^ e`. -/
def compareScaled (a : Nat) (p : Int) (b : Nat) (e : Int) : Ordering :=
  let (pn, pd) := power 2 p
  let (en, ed) := power 10 e
  compare (a * pn * ed) (b * en * pd)

/-- `a · 2 ^ p / 10 ^ e`, rounded down. -/
def floorScaled (a : Nat) (p e : Int) : Nat :=
  let (pn, pd) := power 2 p
  let (en, ed) := power 10 e
  a * pn * ed / (pd * en)

/-- The `k` for which the number lies from `10 ^ (k - 1)` up to but not including `10 ^ k`. -/
def magnitude (b : Binary) : Int :=
  let (n, d) := power 2 b.exponent
  let guess : Int := (toString (b.mantissa * n)).length - (toString d).length
  if compareScaled b.mantissa b.exponent 1 guess = .lt then guess else guess + 1

/-- Whether `d` rounds to the number; in quarters of the last binary place the interval reaches
two upwards, and two or one downwards. A bound belongs to it when the mantissa is even. -/
def rounds (b : Binary) (d : Decimal) : Bool :=
  let quarter := b.exponent - 2
  let above := compareScaled (4 * b.mantissa + 2) quarter d.digits d.exponent
  let below :=
    compareScaled (4 * b.mantissa - if b.narrowBelow then 1 else 2) quarter d.digits d.exponent
  if b.mantissa % 2 = 0 then above != .lt && below != .gt else above == .gt && below == .lt

/-- The point of the grid of `n` digits that reads back, the nearer one should there be two. -/
def onGrid? (b : Binary) (n : Nat) : Option Decimal :=
  let e := magnitude b - n
  let low := floorScaled b.mantissa b.exponent e
  let candidates := [low, low + 1].filter fun c => rounds b ⟨c, e⟩
  match candidates with
  | [c, d] =>
    -- twice the number against the sum of its neighbours
    if compareScaled (2 * b.mantissa) b.exponent (c + d) e = .gt then some ⟨d, e⟩ else some ⟨c, e⟩
  | [c] => some ⟨c, e⟩
  | _ => none

/-- The shortest decimal that reads back. Seventeen digits always do. -/
def ofBinary (b : Binary) : Decimal :=
  ((List.range 17).findSome? fun n => onGrid? b (n + 1)).getD ⟨0, 0⟩

/-- Drops trailing zeros of the digits. -/
def Decimal.trim (fuel : Nat) (d : Decimal) : Decimal :=
  match fuel with
  | 0 => d
  | fuel + 1 =>
    if d.digits % 10 = 0 ∧ d.digits ≠ 0 then
      Decimal.trim fuel { digits := d.digits / 10, exponent := d.exponent + 1 }
    else d

def zeros (n : Nat) : String := String.ofList (List.replicate n '0')

/-- The number without an exponent. -/
def Decimal.text (d : Decimal) : String :=
  let digits := (toString d.digits).toList
  if 0 ≤ d.exponent then String.ofList digits ++ zeros d.exponent.toNat
  else
    let places := (-d.exponent).toNat
    if places < digits.length then
      String.ofList (digits.take (digits.length - places)) ++ "."
        ++ String.ofList (digits.drop (digits.length - places))
    else "0." ++ zeros (places - digits.length) ++ String.ofList digits

/-- How many values the 52 bits of a fraction take. -/
def fractionSize : Nat := 0x10000000000000

/-- The number that 63 bits stand for; nothing for zero. -/
def ofBits? (bits : Nat) : Option Binary :=
  let field : Nat := bits / fractionSize
  let fraction : Nat := bits % fractionSize
  if field = 0 then
    if fraction = 0 then none
    else some { mantissa := fraction, exponent := -1074, narrowBelow := false }
  else
    some
      { mantissa := fractionSize + fraction, exponent := (field : Int) - 1075
        narrowBelow := fraction == 0 && decide (1 < field) }

/-- A floating-point number in decimal. -/
def text (x : Float) : String :=
  let bits := x.toBits.toNat
  let magnitude := bits % (UInt64.size / 2)
  let sign := if UInt64.size / 2 ≤ bits then "-" else ""
  if magnitude / fractionSize = 2047 then
    if magnitude % fractionSize = 0 then sign ++ "inf" else "NaN"
  else
    match ofBits? magnitude with
    | none => sign ++ "0"
    | some b => sign ++ ((ofBinary b).trim 20).text

end ShardedCache.Text.Shortest

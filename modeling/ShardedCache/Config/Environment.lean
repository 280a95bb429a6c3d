import ShardedCache.Config.Lenient
import ShardedCache.Toml.Scalar

/-!
# Settings from the environment

A variable whose name starts with `PIPECACHE_` sets the field that the rest of its name spells, in
letters of either case; two underscores lead into a table. What its text looks like decides
whether it is a flag, a number, a list of servers or plain text.
-/

namespace ShardedCache

/-- Fields and their values. -/
abbrev Settings := List (String × ConfigValue)

namespace Environment

/-! ## Numbers -/

/-- The value of decimal digits, if they are no others; no digits are zero. -/
def digits? (src : List Char) : Option Nat :=
  if src.all (·.isDigit) then some (Toml.natOf 10 src) else none

/-- A decimal number with digits before or after its point and perhaps an exponent. -/
def decimal? (src : List Char) : Option Float := do
  let isExponent (c : Char) : Bool := c == 'e' || c == 'E'
  let (number, power) := src.span (!isExponent ·)
  let (whole, fraction) := number.span (· != '.')
  let places := fraction.tail
  let n ← digits? whole
  let m ← digits? places
  let (negative, exponentDigits) := Toml.signed power.tail
  let exponent ← digits? exponentDigits
  if (whole.isEmpty && places.isEmpty) || (!power.isEmpty && exponentDigits.isEmpty) then none
  else
    let exponent : Int := if negative then -(exponent : Int) else exponent
    some (Toml.floatOf (n * Nat.pow 10 places.length + m) (exponent - places.length))

/-- A decimal number, or a word for what is no number. -/
def float? (text : String) : Option Float :=
  let (negative, src) := Toml.signed text.toList
  let word := Reading.lowercase (String.ofList src)
  let value := if word = "inf" ∨ word = "infinity" then some (1 / 0)
    else if word = "nan" then some (0 / 0)
    else decimal? src
  value.map (Toml.negateIf negative)

/-! ## Variables -/

/-- The value that the text of a variable stands for. -/
def value (field text : String) : ConfigValue :=
  if Reading.lowercase text = "true" then .flag true
  else if Reading.lowercase text = "false" then .flag false
  else
    match Text.readInt64? text, float? text with
    | some n, _ => .int n
    | none, some x => .float x
    | none, none =>
      if field = "servers" then .list ((text.splitOn ",").map .text) else .text text

/-- What the name of a variable has to start with, in lower case. -/
def namePrefix : String := "pipecache_"

/-- A character in lower case. The Kelvin sign is a capital letter of the Latin `k`. -/
def lower (c : Char) : Char := if c = '\u212A' then 'k' else c.toLower

/-- Names of fields are the same in letters of either case. -/
def lowerName (name : String) : String := name.map lower

/-- The field that a variable sets, its table in front of it. -/
def field? (name : String) : Option String :=
  let name := lowerName name
  if name.startsWith namePrefix then
    some (".".intercalate ((name.drop namePrefix.length).copy.splitOn "__"))
  else none

/-- Whether text can be one part of the path to a field. -/
def isPathPart (part : String) : Bool :=
  !part.isEmpty && part.all fun c => c.isAlphanum || c == '_' || c == '-' || c == ' '

/-! ## Layers -/

/-- Sets a field, over whatever was there. -/
def setEntry (field : String) (v : ConfigValue) : Settings → Settings
  | [] => [(field, v)]
  | (f, old) :: rest => if f = field then (f, v) :: rest else (f, old) :: setEntry field v rest

/-- Sets the field at the end of a path. What is on the way and is no table makes room for one. -/
def setPath (v : ConfigValue) : (path : List String) → Settings → Settings
  | [], settings => settings
  | [field], settings => setEntry field v settings
  | field :: path, settings =>
    let inner := match settings.lookup field with
      | some (.table inner) => inner
      | _ => []
    setEntry field (.table (setPath v path inner)) settings

mutual

/-- The single values inside a value, each with the names that lead to it. -/
def leaves : ConfigValue → List (List String × ConfigValue)
  | .table (entry :: entries) => leavesOf (entry :: entries)
  | v => [([], v)]

/-- The single values inside the entries of a table. -/
def leavesOf : Settings → List (List String × ConfigValue)
  | [] => []
  | (name, v) :: entries =>
    (leaves v).map (fun (path, leaf) => (lowerName name :: path, leaf)) ++ leavesOf entries

end

/-- The path that a name with dots spells. A name that spells none stands for itself. -/
def pathOf (field : String) : List String :=
  let path := field.splitOn "."
  (if path.all isPathPart then path else [field]).map lowerName

/-- Sets the field of a name with dots, and in a table only the fields that are there. -/
def setField (settings : Settings) (field : String) (v : ConfigValue) : Settings :=
  (leaves v).foldl
    (fun settings (inner, leaf) => setPath leaf (pathOf field ++ inner) settings)
    settings

/-- Puts the variables of the environment over settings. -/
def apply (environment : List (String × String)) (settings : Settings) : Settings :=
  environment.foldl
    (fun settings (name, text) =>
      match field? name with
      | some field => setField settings field (value field text)
      | none => settings)
    settings

end Environment

end ShardedCache

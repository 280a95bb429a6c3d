import ShardedCache.Config.Value
import ShardedCache.Text.Shortest

/-!
# Lenient reading

Values that come from the environment have no types of their own, so a reader takes what makes
sense: numbers and flags turn into each other and into text, and words stand for flags.
-/

namespace ShardedCache.Reading

/-- Letters of the Latin alphabet in lower case. -/
def lowercase (s : String) : String := s.map (·.toLower)

def yesWords : List String := ["true", "on", "yes"]

def noWords : List String := ["false", "off", "no"]

/-- Numbers are rounded, words count as one and zero. -/
def sizeOf? : ConfigValue → Option Nat
  | .flag b => some (if b then 1 else 0)
  | .int n => if 0 ≤ n then some n.toNat else none
  | .float x => some x.round.toUInt64.toNat
  | .text s | .moment s =>
    if yesWords.contains (lowercase s) then some 1
    else if noWords.contains (lowercase s) then some 0
    else (Text.readU64 s).toOption.map (·.toNat)
  | .list _ | .table _ => none

/-- Numbers are true unless they are zero. -/
def flagOf? : ConfigValue → Option Bool
  | .flag b => some b
  | .int n => some (n != 0)
  | .float x => some (x != 0)
  | .text s | .moment s =>
    if ("1" :: yesWords).contains (lowercase s) then some true
    else if ("0" :: noWords).contains (lowercase s) then some false
    else none
  | .list _ | .table _ => none

def textOf? : ConfigValue → Option String
  | .flag b => some (if b then "true" else "false")
  | .int n => some (toString n)
  | .float x => some (Text.Shortest.text x)
  | .text s | .moment s => some s
  | .list _ | .table _ => none

/-- One single value is turned into another where that makes sense. -/
def lenient : Reading where
  size? := sizeOf?
  flag? := flagOf?
  text? := textOf?

end ShardedCache.Reading

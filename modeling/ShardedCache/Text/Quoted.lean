import ShardedCache.Bytes
import ShardedCache.Text.Printable

/-!
# Quoted text

Messages show a key, an address or an argument between double quotes, so that a reader can tell
where it ends. Quotes and backslashes are escaped, the usual control characters have short
escapes, and every other character that is not printable is written by its code point.
-/

namespace ShardedCache.Text

/-- The digits of `n` in base sixteen, lower case and without leading zeros. -/
def hexDigits (n : Nat) : String := String.ofList (Nat.toDigits 16 n)

/-- A character as it stands in quoted text. -/
def escapeChar (c : Char) : String :=
  match c with
  | '\x00' => "\\0"
  | '\t' => "\\t"
  | '\n' => "\\n"
  | '\r' => "\\r"
  | '"' => "\\\""
  | '\\' => "\\\\"
  | c => if isPrintable c then c.toString else "\\u\x7b" ++ hexDigits c.toNat ++ "\x7d"

/-- The text between double quotes, escaped. -/
def quoted (s : String) : String := "\"" ++ String.join (s.toList.map escapeChar) ++ "\""

end ShardedCache.Text

import ShardedCache.Text.Utf8

/-!
# JSON values

Values as they are stored in the cache. The members of an object are kept in the order of their
names, each name once. Integers are exact; any other number is kept as it was written.
-/

namespace ShardedCache

inductive Json where
  | null
  | bool (b : Bool)
  | int (n : Int)
  /-- A number that is no integer of 64 bits, as it was written. -/
  | decimal (text : String)
  | string (s : String)
  | array (items : List Json)
  | object (members : List (String × Json))
  deriving Repr, BEq

namespace Json

/-- Puts a member into an object; a member of the same name gives way. -/
def insert (name : String) (value : Json) : List (String × Json) → List (String × Json)
  | [] => [(name, value)]
  | (n, v) :: rest =>
    match compare name n with
    | .lt => (name, value) :: (n, v) :: rest
    | .eq => (name, value) :: rest
    | .gt => (n, v) :: insert name value rest

/-- An object with the given members; of two of one name the later stays. -/
def ofMembers (members : List (String × Json)) : Json :=
  object (members.foldl (fun object (name, value) => insert name value object) [])

/-! ## Writing -/

def hexDigit (n : Nat) : Char := (Nat.toDigits 16 n).headD '0'

/-- A character inside a string: quotes, backslashes and control characters are escaped. -/
def escapeChar (c : Char) : List Char :=
  match c with
  | '"' => ['\\', '"']
  | '\\' => ['\\', '\\']
  | '\n' => ['\\', 'n']
  | '\r' => ['\\', 'r']
  | '\t' => ['\\', 't']
  | '\x08' => ['\\', 'b']
  | '\x0c' => ['\\', 'f']
  | c =>
    if c.toNat < 32 then
      ['\\', 'u', '0', '0', hexDigit (c.toNat / 16), hexDigit (c.toNat % 16)]
    else [c]

def renderString (s : String) : List Char := '"' :: s.toList.flatMap escapeChar ++ ['"']

mutual

/-- The value without blanks. -/
def render : Json → List Char
  | null => "null".toList
  | bool true => "true".toList
  | bool false => "false".toList
  | int n => (toString n).toList
  | decimal text => text.toList
  | string s => renderString s
  | array items => '[' :: renderItems items ++ [']']
  | object members => '\x7b' :: renderMembers members ++ ['\x7d']

/-- The items with commas in between. -/
def renderItems : List Json → List Char
  | [] => []
  | [item] => render item
  | item :: items => render item ++ ',' :: renderItems items

/-- The members with commas in between. -/
def renderMembers : List (String × Json) → List Char
  | [] => []
  | [(name, value)] => renderString name ++ ':' :: render value
  | (name, value) :: members =>
    renderString name ++ ':' :: render value ++ ',' :: renderMembers members

end

end Json

end ShardedCache

import ShardedCache.Text.Number

/-!
# Keys and strings of TOML

Readers take something off the front of the characters left, or fail. Basic strings resolve
escapes, literal strings have none; written over several lines, both drop a line end right after
the opening quotes, and a basic string drops a line end after a backslash with all blanks around
it.
-/

namespace ShardedCache.Toml

/-- Takes something off the front. -/
abbrev Reader (α : Type) := List Char → Option (α × List Char)

def isBlank (c : Char) : Bool := c == ' ' || c == '\t'

def skipBlanks (src : List Char) : List Char := src.dropWhile isBlank

/-- A line end at the front. -/
def lineEnd? : List Char → Option (List Char)
  | '\n' :: rest => some rest
  | '\r' :: '\n' :: rest => some rest
  | _ => none

/-- Whether a character may stand in a comment or a string as it is. -/
def isPlain (c : Char) : Bool := c == '\t' || (' ' ≤ c && c != '\x7f')

/-- Drops a comment at the front, up to the end of its line. -/
def skipComment (src : List Char) : List Char :=
  match src with
  | '#' :: rest => rest.dropWhile isPlain
  | src => src

/-- Drops blanks, line ends and comments; `comment` tells whether we are inside one. -/
def skipLines : (comment : Bool) → List Char → List Char
  | _, [] => []
  | _, '\n' :: rest => skipLines false rest
  | _, '\r' :: '\n' :: rest => skipLines false rest
  | true, c :: rest => if isPlain c then skipLines true rest else c :: rest
  | false, c :: rest =>
    if isBlank c then skipLines false rest
    else if c == '#' then skipLines true rest
    else c :: rest

/-! ## Strings -/

/-- A character by the digits of its code point. -/
def codePoint? (digits : List Char) : Option Char := do
  let code ← digits.foldlM (fun n c => (Text.digit? 16 c).map (n * 16 + ·)) 0
  if h : code.isValidChar then some ⟨code.toUInt32, by
    have := h
    simp only [Nat.isValidChar] at this
    simp only [UInt32.isValidChar, Nat.isValidChar, Nat.toUInt32, UInt32.toNat_ofNat']
    omega⟩
  else none

/-- The character that an escape stands for, and how many characters follow its backslash. -/
def escape? : List Char → Option (Char × Nat)
  | 'b' :: _ => some ('\x08', 1)
  | 't' :: _ => some ('\t', 1)
  | 'n' :: _ => some ('\n', 1)
  | 'f' :: _ => some ('\x0c', 1)
  | 'r' :: _ => some ('\r', 1)
  | '"' :: _ => some ('"', 1)
  | '\\' :: _ => some ('\\', 1)
  | 'u' :: rest =>
    if (rest.take 4).length = 4 then (codePoint? (rest.take 4)).map (·, 5) else none
  | 'U' :: rest =>
    if (rest.take 8).length = 8 then (codePoint? (rest.take 8)).map (·, 9) else none
  | _ => none

/-- The content up to the closing quotes when `n` quotes stand together in a string over several
lines: three close it, one or two more belong to the content. -/
def closing (quote : Char) (src : List Char) : Option (List Char × List Char) :=
  let n := min (src.takeWhile (· == quote)).length 5
  if n < 3 then none else some (List.replicate (n - 3) quote, src.drop n)

/-- The content of a basic string after its opening quotes. `skip` characters have been dealt with;
after a backslash at a line end all blanks are dropped. -/
def basic (lines : Bool) : (skip : Nat) → (trimming : Bool) → Reader (List Char)
  | _, _, [] => none
  | skip + 1, trimming, _ :: rest => basic lines skip trimming rest
  | 0, trimming, c :: rest =>
    let keep (c : Char) (skip : Nat) : Option (List Char × List Char) :=
      (basic lines skip false rest).map fun (content, rest) => (c :: content, rest)
    if trimming && (isBlank c || (lineEnd? (c :: rest)).isSome) then
      basic lines 0 true rest
    else if trimming && c == '\n' then basic lines 0 true rest
    else if c == '"' then
      if !lines then some ([], rest)
      else
        match closing '"' (c :: rest) with
        | some found => some found
        | none => keep c 0
    else if c == '\\' then
      if lines && (lineEnd? (skipBlanks rest)).isSome then basic lines 0 true rest
      else
        match escape? rest with
        | some (c, skip) => keep c skip
        | none => none
    else if c == '\n' then if lines then keep c 0 else none
    else if c == '\r' then
      if lines && rest.head? == some '\n' then keep '\n' 1 else none
    else if isPlain c then keep c 0
    else none

/-- The content of a literal string after its opening quotes. -/
def literal (lines : Bool) : (skip : Nat) → Reader (List Char)
  | _, [] => none
  | skip + 1, _ :: rest => literal lines skip rest
  | 0, c :: rest =>
    let keep (c : Char) (skip : Nat) : Option (List Char × List Char) :=
      (literal lines skip rest).map fun (content, rest) => (c :: content, rest)
    if c == '\'' then
      if !lines then some ([], rest)
      else
        match closing '\'' (c :: rest) with
        | some found => some found
        | none => keep c 0
    else if c == '\n' then if lines then keep c 0 else none
    else if c == '\r' then
      if lines && rest.head? == some '\n' then keep '\n' 1 else none
    else if isPlain c then keep c 0
    else none

/-- Drops a line end. -/
def dropLineEnd (src : List Char) : List Char := (lineEnd? src).getD src

/-- A string of any kind. -/
def string? : Reader String
  | '"' :: '"' :: '"' :: rest =>
    (basic true 0 false (dropLineEnd rest)).map fun (s, rest) => (String.ofList s, rest)
  | '"' :: rest => (basic false 0 false rest).map fun (s, rest) => (String.ofList s, rest)
  | '\'' :: '\'' :: '\'' :: rest =>
    (literal true 0 (dropLineEnd rest)).map fun (s, rest) => (String.ofList s, rest)
  | '\'' :: rest => (literal false 0 rest).map fun (s, rest) => (String.ofList s, rest)
  | _ => none

/-! ## Keys -/

def isBare (c : Char) : Bool := c.isAlphanum || c == '_' || c == '-'

/-- One part of a key. -/
def keyPart? (src : List Char) : Option (String × List Char) :=
  match src with
  | '"' :: rest => (basic false 0 false rest).map fun (s, rest) => (String.ofList s, rest)
  | '\'' :: rest => (literal false 0 rest).map fun (s, rest) => (String.ofList s, rest)
  | src =>
    match src.span isBare with
    | ([], _) => none
    | (part, rest) => some (String.ofList part, rest)

/-- A key: its parts, with dots in between, and the blanks after it. -/
def key? : (fuel : Nat) → Reader (List String)
  | 0, _ => none
  | fuel + 1, src => do
    let (part, rest) ← keyPart? (skipBlanks src)
    match skipBlanks rest with
    | '.' :: rest =>
      let (parts, rest) ← key? fuel rest
      some (part :: parts, rest)
    | rest => some ([part], rest)

end ShardedCache.Toml

import ShardedCache.Toml.Scalar

/-!
# TOML documents

A document is read line by line into a tree that remembers how each table came about, because that
decides what may be added to it later: a table is opened by a header once at most, keys with dots
extend only tables that keys with dots have made, and values are closed.
-/

namespace ShardedCache.Toml

/-- How a table came about. -/
inductive Origin where
  /-- On the way to the table of a header. -/
  | implied
  | header
  /-- By a key with dots. -/
  | dotted
  deriving DecidableEq, Repr

inductive Node where
  /-- A value, closed to additions. -/
  | value (v : ConfigValue)
  | table (origin : Origin) (entries : List (String × Node))
  /-- Tables under one name; the last is the one being filled. -/
  | tables (all : List (List (String × Node)))

abbrev Entries := List (String × Node)

mutual

def Node.toValue : Node → ConfigValue
  | .value v => v
  | .table _ entries => .table (entriesToValues entries)
  | .tables all => .list (tablesToValues all)

def entriesToValues : List (String × Node) → List (String × ConfigValue)
  | [] => []
  | (key, node) :: rest => (key, node.toValue) :: entriesToValues rest

def tablesToValues : List (List (String × Node)) → List ConfigValue
  | [] => []
  | entries :: rest => .table (entriesToValues entries) :: tablesToValues rest

end

/-- How deep arrays and tables may be nested. -/
def maxDepth : Nat := 79

/-- Puts an entry in its place, or at the end. -/
def setEntry (key : String) (node : Node) : Entries → Entries
  | [] => [(key, node)]
  | (k, n) :: rest => if k = key then (key, node) :: rest else (k, n) :: setEntry key node rest

/-- Adds an entry with a new key. -/
def addNew? (key : String) (v : ConfigValue) (entries : Entries) : Option Entries :=
  if (entries.lookup key).isSome then none else some (entries ++ [(key, .value v)])

/-- Adds a value under a key with dots. `origin` is how the table came about. -/
def addDotted? (v : ConfigValue) : (path : List String) → (origin : Option Origin) → Entries →
    Option Entries
  | [], _, _ => none
  | [key], origin, entries =>
    match origin with
    | some .implied | some .header => none
    | none | some .dotted => addNew? key v entries
  | key :: path, _, entries =>
    match entries.lookup key with
    | none => do
      let inner ← addDotted? v path (some .dotted) []
      some (entries ++ [(key, .table .dotted inner)])
    | some (.table .header _) => none
    | some (.table origin inner) => do
      let inner ← addDotted? v path (some origin) inner
      some (setEntry key (.table origin inner) entries)
    | some _ => none

/-- Changes the table that a header names, `path` below `entries`. -/
def atPath? (f : Entries → Option Entries) : (path : List String) → Entries → Option Entries
  | [], entries => f entries
  | key :: path, entries =>
    match entries.lookup key with
    | none => do
      let inner ← atPath? f path []
      some (entries ++ [(key, .table .implied inner)])
    | some (.table origin inner) => do
      let inner ← atPath? f path inner
      some (setEntry key (.table origin inner) entries)
    | some (.tables all) => do
      let inner ← atPath? f path (all.getLast?.getD [])
      some (setEntry key (.tables (all.dropLast ++ [inner])) entries)
    | some (.value _) => none

/-- Opens the table that a header names. -/
def openTable? (key : String) (entries : Entries) : Option Entries :=
  match entries.lookup key with
  | none => some (entries ++ [(key, .table .header [])])
  | some (.table .implied inner) => some (setEntry key (.table .header inner) entries)
  | some _ => none

/-- Opens a further table under a name. -/
def openElement? (key : String) (entries : Entries) : Option Entries :=
  match entries.lookup key with
  | none => some (entries ++ [(key, .tables [[]])])
  | some (.tables all) => some (setEntry key (.tables (all ++ [[]])) entries)
  | some _ => none

/-! ## Values -/

/-- The items of an array, from after its bracket or a comma. -/
def items? (value? : Reader ConfigValue) : (fuel : Nat) → Reader (List ConfigValue)
  | 0, _ => none
  | fuel + 1, src =>
    match skipLines false src with
    | ']' :: rest => some ([], rest)
    | src => do
      let (item, rest) ← value? src
      match skipLines false rest with
      | ']' :: rest => some ([item], rest)
      | ',' :: rest =>
        let (items, rest) ← items? value? fuel rest
        some (item :: items, rest)
      | _ => none

/-- A key, an equals sign and a value. -/
def pair? (value? : Reader ConfigValue) : Reader (List String × ConfigValue) := fun src => do
  let (key, rest) ← key? (maxDepth + 1) src
  let (v, rest) ← value? (skipBlanks (← expect? '=' rest))
  some ((key, v), rest)

/-- The pairs of an inline table, the first of them not yet read. -/
def pairs? (value? : Reader ConfigValue) : (fuel : Nat) → Entries → Reader Entries
  | 0, _, _ => none
  | fuel + 1, entries, src => do
    let ((key, v), rest) ← pair? value? src
    let entries ← addDotted? v key none entries
    match skipBlanks rest with
    | '\x7d' :: rest => some (entries, rest)
    | ',' :: rest => pairs? value? fuel entries rest
    | _ => none

/-- A value, nested at most `depth` deep. -/
def value? : (depth : Nat) → Reader ConfigValue
  | depth, '[' :: rest =>
    match depth with
    | 0 => none
    | depth + 1 => (items? (value? depth) rest.length rest).map fun (items, rest) =>
        (.list items, rest)
  | depth, '\x7b' :: rest =>
    match depth, skipBlanks rest with
    | 0, _ => none
    | _ + 1, '\x7d' :: rest => some (.table [], rest)
    | depth + 1, rest => (pairs? (value? depth) rest.length [] rest).map fun (entries, rest) =>
        (.table (entriesToValues entries), rest)
  | _, src =>
    match src with
    | '"' :: _ | '\'' :: _ => (string? src).map fun (s, rest) => (.text s, rest)
    | src => scalar? src

/-! ## Lines -/

/-- What is left of a line that has said all it has to say, from its line end on. -/
def endOfLine? (src : List Char) : Option (List Char) :=
  match skipComment (skipBlanks src) with
  | [] => some []
  | src => lineEnd? src

/-- A document as far as it has been read, and the path of the table being filled. -/
structure Document where
  root : Entries := []
  path : List String := []

namespace Document

/-- The header of a table, or of an element of an array of tables. -/
def header? (d : Document) (element : Bool) (src : List Char) :
    Option (Document × List Char) := do
  let (path, rest) ← key? (maxDepth + 1) src
  let rest ← expect? ']' rest
  let rest ← if element then expect? ']' rest else some rest
  let name := path.getLast?.getD ""
  let opening := if element then openElement? name else openTable? name
  let root ← atPath? opening path.dropLast d.root
  some ({ root, path }, rest)

/-- One line that is not blank. -/
def line? (d : Document) (src : List Char) : Option (Document × List Char) :=
  match src with
  | '[' :: '[' :: rest => d.header? true rest
  | '[' :: rest => d.header? false rest
  | src => do
    let ((key, v), rest) ← pair? (value? maxDepth) src
    let root ← atPath? (addDotted? v key none) d.path d.root
    some ({ d with root }, rest)

/-- Reads line after line. -/
def lines? : (fuel : Nat) → Document → List Char → Option Document
  | 0, _, _ => none
  | fuel + 1, d, src =>
    match skipLines false src with
    | [] => some d
    | src => do
      let (d, rest) ← d.line? src
      lines? fuel d (← endOfLine? rest)

end Document

/-- Reads a document. -/
def read? (text : String) : Option (List (String × ConfigValue)) :=
  let src := match text.toList with
    | '\uFEFF' :: rest => rest
    | src => src
  (Document.lines? (src.length + 1) {} src).map fun d => entriesToValues d.root

end ShardedCache.Toml

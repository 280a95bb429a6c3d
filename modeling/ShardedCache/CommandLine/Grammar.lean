import ShardedCache.Text.Number

/-!
# Grammars of arguments

A program takes options, a command, and then the options and words of the command. An option is
written `--name` or with its letter as `-n`; its value follows after an equals sign or as the next
argument, and `--` ends the options. A value is checked only when something follows it or the
arguments end, which decides which of two faults is reported.
-/

namespace ShardedCache.CommandLine

/-- Why arguments do not say what to do. -/
inductive UsageError where
  /-- The user asked for help. -/
  | help
  /-- The user asked for the version of the program. -/
  | version
  /-- There is nothing at all. -/
  | nothing
  | missingCommand
  | unknownCommand
  | unknownArgument
  | missingArgument
  | missingValue
  | invalidValue
  /-- An option that takes no value has one. -/
  | unwantedValue
  /-- An option that may occur once occurs again. -/
  | repeated
  deriving DecidableEq, Repr

def UsageError.name : UsageError → String
  | help => "DisplayHelp"
  | version => "DisplayVersion"
  | nothing => "DisplayHelpOnMissingArgumentOrSubcommand"
  | missingCommand => "MissingSubcommand"
  | unknownCommand => "InvalidSubcommand"
  | unknownArgument => "UnknownArgument"
  | missingArgument => "MissingRequiredArgument"
  | missingValue => "InvalidValue"
  | invalidValue => "ValueValidation"
  | unwantedValue => "TooManyValues"
  | repeated => "ArgumentConflict"

/-! ## Rules -/

/-- What the value of an option can be. -/
inductive ValueType where
  | text
  /-- Text that is not empty. -/
  | path
  /-- A number of at most 32 bits; zero may have a sign. -/
  | word
  /-- A number of at most 64 bits. -/
  | size
  deriving DecidableEq, Repr

def ValueType.check (type : ValueType) (value : String) : Except UsageError Unit :=
  match type with
  | .text => .ok ()
  | .path => if value.isEmpty then .error .missingValue else .ok ()
  | .word =>
    if (Text.readInt64? value).any fun n : Int => decide (0 ≤ n ∧ n < UInt32.size) then .ok ()
    else .error .invalidValue
  | .size => (Text.readU64 value).mapError (fun _ => .invalidValue) |>.map fun _ => ()

/-- What an option does. -/
inductive OptionForm where
  | help
  | version
  /-- No value, and once at most. -/
  | switch
  /-- One value, and once at most. -/
  | single (type : ValueType)
  /-- Values with commas in between, as often as one likes. -/
  | list
  deriving DecidableEq, Repr

structure OptionRule where
  name : String
  letter : Option Char := none
  form : OptionForm
  isRequired : Bool := false
  deriving DecidableEq, Repr

def OptionRule.takesValue (o : OptionRule) : Bool :=
  match o.form with
  | .single _ | .list => true
  | .help | .version | .switch => false

structure CommandRule where
  name : String
  options : List OptionRule
  /-- The words that must be there, in order. -/
  words : List String := []
  deriving DecidableEq, Repr

/-- The options of a program and its commands. -/
structure Grammar where
  options : List OptionRule
  commands : List CommandRule
  deriving DecidableEq, Repr

/-- The command that shows the help of another. -/
def helpCommand : String := "help"

def Grammar.command? (g : Grammar) (name : String) : Option CommandRule :=
  g.commands.find? (·.name == name)

def Grammar.isCommand (g : Grammar) (name : String) : Bool :=
  name == helpCommand || (g.command? name).isSome

/-! ## What has been given -/

structure Given where
  /-- Every option that was given, with its values. -/
  options : List (String × List String) := []
  words : List String := []
  deriving DecidableEq, Repr

namespace Given

def has (g : Given) (name : String) : Bool := (g.options.lookup name).isSome

/-- All values of an option. -/
def values (g : Given) (name : String) : List String :=
  g.options.flatMap fun (n, values) => if n = name then values else []

def value? (g : Given) (name : String) : Option String := (g.values name).head?

def add (g : Given) (name : String) (values : List String) : Given :=
  { g with options := g.options ++ [(name, values)] }

/-- Adds an option once its value, if it has one, is known. -/
def take (g : Given) (o : OptionRule) (value : Option String) : Except UsageError Given :=
  match o.form, value with
  | .help, _ => .error .help
  | .version, _ => .error .version
  | .switch, _ => if g.has o.name then .error .repeated else .ok (g.add o.name [])
  | .single _, none | .list, none => .error .missingValue
  | .single type, some v =>
    if g.has o.name then .error .repeated else (type.check v).map fun _ => g.add o.name [v]
  | .list, some v => .ok (g.add o.name (v.splitOn ","))

end Given

/-! ## Reading -/

/-- Arguments as far as they have been read. -/
structure Parsing where
  given : Given := {}
  /-- The last option, which waits for its value or has just got it. -/
  pending : Option (OptionRule × Option String) := none
  /-- Only words follow. -/
  onlyWords : Bool := false
  deriving DecidableEq, Repr

namespace Parsing

/-- Takes the pending option. -/
def settle (p : Parsing) : Except UsageError Parsing :=
  match p.pending with
  | none => .ok p
  | some (o, value) => (p.given.take o value).map fun given => { p with given, pending := none }

/-- Takes an option whose value, if any, stands in the same argument. -/
def take (p : Parsing) (o : OptionRule) (value : Option String) : Except UsageError Parsing := do
  let p ← p.settle
  return { p with given := ← p.given.take o value }

/-- Lets an option wait for its value. -/
def await (p : Parsing) (o : OptionRule) : Except UsageError Parsing := do
  return { ← p.settle with pending := some (o, none) }

def isWaiting (p : Parsing) : Bool := p.pending.any (·.2.isNone)

/-- An argument after two dashes. -/
def long (p : Parsing) (options : List OptionRule) (text : List Char) :
    Except UsageError Parsing :=
  let (name, value) := text.span (· != '=')
  match options.find? (·.name == String.ofList name) with
  | none => .error .unknownArgument
  | some o =>
    match o.takesValue, value with
    | true, [] => p.await o
    | true, _ :: value => p.take o (some (String.ofList value))
    | false, [] => p.take o none
    | false, _ :: _ => .error .unwantedValue

/-- Letters after one dash; the first that takes a value has the rest of them, if there is any. -/
def letters (options : List OptionRule) : List Char → Parsing → Except UsageError Parsing
  | [], p => .ok p
  | c :: rest, p =>
    match options.find? (·.letter == some c) with
    | none => .error .unknownArgument
    | some o =>
      if o.takesValue then
        match rest with
        | [] => p.await o
        | '=' :: value => p.take o (some (String.ofList value))
        | value => p.take o (some (String.ofList value))
      else do letters options rest (← p.take o none)

/-- A word, of which there may be `limit`. -/
def word (p : Parsing) (limit : Nat) (tooMany : UsageError) (text : String) :
    Except UsageError Parsing :=
  if p.given.words.length < limit then do
    let p ← p.settle
    return { p with given := { p.given with words := p.given.words ++ [text] } }
  else .error tooMany

/-- One argument of a command, or of the program in front of its command. -/
def argument (p : Parsing) (options : List OptionRule) (limit : Nat) (tooMany : UsageError)
    (text : String) : Except UsageError Parsing :=
  if p.onlyWords then p.word limit tooMany text
  else
    match text.toList with
    | ['-', '-'] => .ok { p with onlyWords := true }
    | '-' :: '-' :: rest => p.long options rest
    | '-' :: c :: rest => p.letters options (c :: rest)
    | _ =>
      match p.pending with
      | some (o, none) => .ok { p with pending := some (o, some text) }
      | _ => p.word limit tooMany text

end Parsing

/-- Reads the arguments of a command. -/
def CommandRule.read (rule : CommandRule) (arguments : List String) : Except UsageError Given := do
  let p ← arguments.foldlM
    (fun (p : Parsing) text => p.argument rule.options rule.words.length .unknownArgument text) {}
  let given := (← p.settle).given
  if given.words.length < rule.words.length
      || rule.options.any fun o => o.isRequired && !given.has o.name then
    .error .missingArgument
  else return given

/-- What was asked for: the options of the program, and the command with what it was given. -/
structure Request where
  program : Given
  command : String
  given : Given
  deriving DecidableEq, Repr

namespace Grammar

/-- The command `help` shows the help of the program or of one command. -/
def readHelp (g : Grammar) : List String → UsageError
  | [] => .help
  | [name] => if g.isCommand name then .help else .unknownCommand
  | _ => .unknownCommand

/-- Reads the options of the program up to its command, and then the command. -/
def read (g : Grammar) : Parsing → List String → Except UsageError Request
  | p, [] => do
    let p ← p.settle
    .error (if p.given.options.isEmpty then .nothing else .missingCommand)
  | p, text :: rest =>
    if p.onlyWords then .error (if g.isCommand text then .unknownArgument else .unknownCommand)
    else if p.isWaiting then do read g (← p.argument g.options 0 .unknownCommand text) rest
    else if text = helpCommand then .error (g.readHelp rest)
    else
      match g.command? text with
      | some rule => do
        let given ← rule.read rest
        return { program := (← p.settle).given, command := rule.name, given }
      | none => do read g (← p.argument g.options 0 .unknownCommand text) rest

end Grammar

end ShardedCache.CommandLine

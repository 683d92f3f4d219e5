import TesterSetup.OrderedMap
import TesterSetup.Text.Numeral

/-!
# Requests

What the arguments of the program ask for. A command is followed by its options and operands in
any order: `--name value` or `--name=value`, `-v` for a flag that has a letter, and after `--`
nothing but operands. An option that takes several values takes all arguments up to the next
option and may be repeated; every other option is given once at most. What starts with a minus
sign is no value unless an equals sign or `--` stands in front.
-/

set_option autoImplicit false

namespace TesterSetup

/-- What the program is asked to do. -/
inductive Request where
  | init (name : Option String)
  | levels (eqnset specset levelset : Nat) (file format : Option String)
  | timing (eqnset specset timingset : Nat) (file format : Option String)
  | multiport (specification : String) (timingsets : List Nat) (file format : Option String)
  | label (name : String) (patterns : Option String) (perPin : Bool) (format : Option String)
  deriving DecidableEq, Repr

/-- What arguments mean. -/
inductive Invocation where
  /-- Nothing that the program understands. -/
  | usage
  | version
  | request (r : Request)
  deriving DecidableEq, Repr

/-! ### Options and operands -/

/-- How many values an option takes. -/
inductive Arity where
  | none
  | one
  | many
  deriving DecidableEq, Repr

/-- An option of a command. -/
structure CommandOption where
  name : String
  letter : Option Char
  arity : Arity
  deriving DecidableEq, Repr

/-- What has been read of a command's arguments. -/
structure Arguments where
  /-- The options that were given, with their values. -/
  options : OrderedMap String (List String)
  operands : List String
  /-- The option whose values may follow, with those that have. -/
  pending : Option (CommandOption × List String)
  /-- Whether only operands may follow. -/
  closed : Bool

namespace Arguments

/-- The arguments before any is read. -/
def start : Arguments :=
  ⟨.empty, [], none, false⟩

/-- Ends the option whose values may follow, which has to have one. -/
def settle (a : Arguments) : Option Arguments :=
  match a.pending with
  | none => some a
  | some (_, []) => none
  | some (o, values) =>
    let before := (a.options.get? o.name).getD []
    some { a with options := a.options.insert o.name (before ++ values), pending := none }

/-- Takes an option with the value that an equals sign gives it. -/
def takeOption (a : Arguments) (o : CommandOption) (value : Option String) : Option Arguments := do
  let a ← a.settle
  if o.arity ≠ .many ∧ a.options.contains o.name = true then none
  else
    match o.arity, value with
    | .none, none => some { a with options := a.options.insert o.name [] }
    | .none, some _ => none
    | _, none => some { a with pending := some (o, []) }
    | _, some value => settle { a with pending := some (o, [value]) }

/-- Takes an argument that is neither an option nor `--`. -/
def takeWord (a : Arguments) (word : String) : Option Arguments :=
  match a.pending with
  | none => some { a with operands := a.operands ++ [word] }
  | some (o, values) =>
    let a := { a with pending := some (o, values ++ [word]) }
    if o.arity = .many then some a else a.settle

/-- Takes the letters behind a minus sign. -/
def takeLetters (form : List CommandOption) (a : Arguments) : List Char → Option Arguments
  | [] => some a
  | c :: rest => do
    let o ← form.find? fun o => o.letter == some c
    let a ← a.takeOption o none
    a.takeLetters form rest

/-- Reads an argument of a command with a form. -/
def read (form : List CommandOption) (a : Arguments) (argument : String) : Option Arguments :=
  if a.closed then do return { ← a.settle with operands := a.operands ++ [argument] }
  else
    match argument.toList with
    | ['-', '-'] => some { a with closed := true }
    | '-' :: '-' :: option => do
      let name := option.takeWhile (· != '=')
      let o ← form.find? fun o => o.name.toList == name
      let value :=
        match option.dropWhile (· != '=') with
        | [] => none
        | _ :: value => some (String.ofList value)
      a.takeOption o value
    | '-' :: c :: letters => a.takeLetters form (c :: letters)
    | _ => a.takeWord argument

/-- Reads the arguments of a command. -/
def ofList? (form : List CommandOption) (arguments : List String) : Option Arguments := do
  (← arguments.foldlM (read form) start).settle

/-- The value of an option that may be missing. -/
def value? (a : Arguments) (name : String) : Option String :=
  (a.options.get? name).bind List.head?

/-- The number that a value is: a numeral below `2 ^ 32`, or a zero with a minus sign. -/
def numberOf? (text : String) : Option Nat :=
  match text.toList with
  | '-' :: digits => (Text.readDigits? digits).filter (· = 0)
  | _ => Text.readNat? (Text.widthBound 32) text

/-- The number of an option that has to be given. -/
def number? (a : Arguments) (name : String) : Option Nat :=
  (a.value? name).bind numberOf?

end Arguments

/-! ### Commands -/

/-- The flag that every command has. -/
def verboseFlag : CommandOption := ⟨"verbose", some 'v', .none⟩

/-- An option that takes one value. -/
def valueOption (name : String) : CommandOption := ⟨name, none, .one⟩

/-- The commands. -/
inductive CommandName where
  | init
  | levels
  | timing
  | multiport
  | label
  deriving DecidableEq, Repr

namespace CommandName

/-- The command with a name. -/
def ofText? (s : String) : Option CommandName :=
  if s = "init" then some init
  else if s = "levels" then some levels
  else if s = "timing" then some timing
  else if s = "multiport" then some multiport
  else if s = "label" then some label
  else none

/-- The options of a command. -/
def options : CommandName → List CommandOption
  | init => [verboseFlag]
  | levels => verboseFlag :: ["eqnset", "specset", "levelset", "file", "format"].map valueOption
  | timing => verboseFlag :: ["eqnset", "specset", "timingset", "file", "format"].map valueOption
  | multiport =>
    [verboseFlag, valueOption "specification", ⟨"timingset", none, .many⟩, valueOption "file",
      valueOption "format"]
  | label =>
    [verboseFlag, valueOption "pmf", ⟨"per-pin", none, .none⟩, valueOption "format"]

/-- What a command with its arguments asks for. -/
def request? (a : Arguments) : CommandName → Option Request
  | init =>
    match a.operands with
    | [] => some (.init none)
    | [name] => some (.init (some name))
    | _ => none
  | levels => do
    guard a.operands.isEmpty
    return .levels (← a.number? "eqnset") (← a.number? "specset") (← a.number? "levelset")
      (a.value? "file") (a.value? "format")
  | timing => do
    guard a.operands.isEmpty
    return .timing (← a.number? "eqnset") (← a.number? "specset") (← a.number? "timingset")
      (a.value? "file") (a.value? "format")
  | multiport => do
    guard a.operands.isEmpty
    let timingsets ← (← a.options.get? "timingset").mapM Arguments.numberOf?
    return .multiport (← a.value? "specification") timingsets (a.value? "file")
      (a.value? "format")
  | label =>
    match a.operands with
    | [name] =>
      some (.label name (a.value? "pmf") (a.options.contains "per-pin") (a.value? "format"))
    | _ => none

end CommandName

namespace Invocation

/-- What a command with the arguments behind it means. -/
def ofCommand (name : String) (arguments : List String) : Invocation :=
  let request := do
    let command ← CommandName.ofText? name
    command.request? (← Arguments.ofList? command.options arguments)
  match request with
  | some r => .request r
  | none => .usage

/-- Takes letters in front of the command and goes on with what follows, which depends on whether
the verbose flag was given. -/
def takeLetters (next : Bool → Invocation) (verbose : Bool) : List Char → Invocation
  | [] => next verbose
  | 'v' :: rest => if verbose then .usage else takeLetters next true rest
  | 'V' :: _ => .version
  | _ => .usage

/-- What arguments mean after the options in front of them. -/
def ofArguments (verbose : Bool) : List String → Invocation
  | [] => .usage
  | argument :: rest =>
    if argument = "--verbose" then if verbose then .usage else ofArguments true rest
    else if argument = "--version" then .version
    else
      match argument.toList with
      | '-' :: '-' :: _ => .usage
      | '-' :: c :: letters => takeLetters (ofArguments · rest) verbose (c :: letters)
      | _ => ofCommand argument rest

/-- What the arguments of the program mean. -/
def ofList (arguments : List String) : Invocation :=
  ofArguments false arguments

end Invocation

end TesterSetup

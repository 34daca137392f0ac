import TraitWeaver.Path

/-!
# Arguments of the command line

What the arguments of a call ask for. Options may stand before and after the input; after a double
dash every argument is an input, whatever it looks like. The first argument that is not understood,
or that asks for the version or for help, decides what comes out.
-/

namespace TraitWeaver

/-- What can be done with the declarations of a round. -/
inductive Command where
  /-- Generates the files of the round into a directory. -/
  | generate (input : Path) (out config : Option Path)
  /-- Generates in memory, for the diagnostics only. -/
  | check (input : Path) (config : Option Path)
deriving DecidableEq, Repr

/-- What a call asks for. -/
inductive Invocation where
  | run (command : Command) (verbosity : Nat)
  | version
  | help
deriving DecidableEq, Repr

/-- Why a call is not understood. -/
inductive UsageError where
  | missingCommand
  | unknownCommand (name : String)
  | unknownOption (option : String)
  | missingValue (option : String)
  | unexpectedValue (option : String)
  | repeatedOption (option : String)
  | missingInput
  | unexpectedInput (text : String)
deriving DecidableEq, Repr

def UsageError.message : UsageError → String
  | missingCommand => "a command is missing"
  | unknownCommand name => s!"unrecognized command '{name}'"
  | unknownOption option => s!"unexpected option '{option}'"
  | missingValue option => s!"option '--{option}' needs a value"
  | unexpectedValue option => s!"option '--{option}' takes no value"
  | repeatedOption option => s!"option '--{option}' is given more than once"
  | missingInput => "the input is missing"
  | unexpectedInput text => s!"unexpected argument '{text}'"

/-- An argument by its form. -/
inductive Argument where
  /-- Two dashes alone. -/
  | separator
  /-- An option with a long name, and what stands behind its equals sign. -/
  | long (name : String) (value : Option String)
  /-- Options of one letter, behind a single dash. -/
  | short (letters : List Char)
  | plain (text : String)
deriving DecidableEq, Repr

namespace Argument

/-- An option with a long name, from the characters after its dashes. -/
def ofLong (cs : List Char) : Argument :=
  let name := cs.takeWhile (· != '=')
  let value :=
    match cs.drop name.length with
    | [] => none
    | _ :: value => some (String.ofList value)
  .long (String.ofList name) value

/-- The argument that a text is. A single dash is no option. -/
def ofText (text : String) : Argument :=
  match text.toList with
  | ['-', '-'] => separator
  | '-' :: '-' :: cs => ofLong cs
  | ['-'] => plain text
  | '-' :: letters => short letters
  | _ => plain text

end Argument

namespace CommandLine

/-! ## Options without a value -/

/-- Where an argument stands: `--version` is understood only before the command. -/
inductive Place where
  | beforeCommand
  | afterCommand
deriving DecidableEq, Repr

/-- What an option without a value comes to: a new verbosity, or the end of the call. -/
abbrev FlagResult : Type := Except UsageError (Nat ⊕ Invocation)

def readLetters (place : Place) (verbosity : Nat) : List Char → FlagResult
  | [] => .ok (.inl verbosity)
  | c :: rest =>
    if c = 'v' then readLetters place (verbosity + 1) rest
    else if c = 'h' then .ok (.inr .help)
    else if c = 'V' && place = .beforeCommand then .ok (.inr .version)
    else .error (.unknownOption s!"-{c}")

/-- Reads an option with a long name that takes no value. -/
def readFlag (place : Place) (verbosity : Nat) (name : String) (value : Option String) :
    FlagResult := do
  let result : Nat ⊕ Invocation ←
    if name = "verbose" then pure (.inl (verbosity + 1))
    else if name = "help" then pure (.inr .help)
    else if name = "version" && place = .beforeCommand then pure (.inr .version)
    else throw (.unknownOption s!"--{name}")
  if value.isSome then throw (.unexpectedValue name)
  return result

/-! ## Arguments of a command -/

/-- Which command it is. -/
inductive CommandName where
  | generate
  | check
deriving DecidableEq, Repr

/-- What has been read of a command. -/
structure PartialCommand where
  name : CommandName
  input : Option Path
  out : Option Path
  config : Option Path
  verbosity : Nat
  /-- The option whose value is the next argument. -/
  awaiting : Option String
  /-- A separator has been read, so that every further argument is an input. -/
  isSeparated : Bool
deriving DecidableEq, Repr

namespace PartialCommand

def start (name : CommandName) (verbosity : Nat) : PartialCommand :=
  { name, verbosity
    input := none, out := none, config := none, awaiting := none, isSeparated := false }

/-- The options that the command takes with a value. -/
def options (c : PartialCommand) : List String :=
  match c.name with
  | .generate => ["out", "config"]
  | .check => ["config"]

def addInput (c : PartialCommand) (text : String) : Except UsageError PartialCommand :=
  if c.input.isSome then .error (.unexpectedInput text) else .ok { c with input := some ⟨text⟩ }

def set (c : PartialCommand) (option value : String) : Except UsageError PartialCommand :=
  let c := { c with awaiting := none }
  if option = "out" then
    if c.out.isSome then .error (.repeatedOption option) else .ok { c with out := some ⟨value⟩ }
  else
    if c.config.isSome then .error (.repeatedOption option)
    else .ok { c with config := some ⟨value⟩ }

/-- Goes on after an option without a value. -/
def withFlag (c : PartialCommand) (result : FlagResult) :
    Except UsageError (PartialCommand ⊕ Invocation) :=
  result.map fun
    | .inl verbosity => .inl { c with verbosity }
    | .inr invocation => .inr invocation

def step (c : PartialCommand) (text : String) :
    Except UsageError (PartialCommand ⊕ Invocation) :=
  if c.isSeparated then (c.addInput text).map .inl
  else
    match c.awaiting, Argument.ofText text with
    | some option, .plain value => (c.set option value).map .inl
    | some option, _ => .error (.missingValue option)
    | none, .separator => .ok (.inl { c with isSeparated := true })
    | none, .plain text => (c.addInput text).map .inl
    | none, .short letters => c.withFlag (readLetters .afterCommand c.verbosity letters)
    | none, .long name value =>
      if name ∈ c.options then
        match value with
        | some value => (c.set name value).map .inl
        | none => .ok (.inl { c with awaiting := some name })
      else c.withFlag (readFlag .afterCommand c.verbosity name value)

def finish (c : PartialCommand) : Except UsageError Invocation :=
  match c.awaiting, c.input with
  | some option, _ => .error (.missingValue option)
  | none, none => .error .missingInput
  | none, some input =>
    .ok (.run (match c.name with
      | .generate => .generate input c.out c.config
      | .check => .check input c.config) c.verbosity)

def read (c : PartialCommand) : List String → Except UsageError Invocation
  | [] => c.finish
  | text :: rest =>
    match c.step text with
    | .error e => .error e
    | .ok (.inl c) => c.read rest
    | .ok (.inr invocation) => .ok invocation

end PartialCommand

/-! ## Arguments of a call -/

/-- Reads what stands after the command `help`: the name of a command, if anything. -/
def readHelp : List String → Except UsageError Invocation
  | [] => .ok .help
  | [name] =>
    if name ∈ ["generate", "check", "help"] then .ok .help else .error (.unknownCommand name)
  | _ :: text :: _ => .error (.unknownCommand text)

def readCommand (verbosity : Nat) (name : String) (args : List String) :
    Except UsageError Invocation :=
  match name with
  | "generate" => (PartialCommand.start .generate verbosity).read args
  | "check" => (PartialCommand.start .check verbosity).read args
  | "help" => readHelp args
  | _ => .error (.unknownCommand name)

def readCall (verbosity : Nat) : List String → Except UsageError Invocation
  | [] => .error .missingCommand
  | text :: rest =>
    let goOn : FlagResult → Except UsageError Invocation
      | .error e => .error e
      | .ok (.inl verbosity) => readCall verbosity rest
      | .ok (.inr invocation) => .ok invocation
    match Argument.ofText text with
    | .separator => .error .missingCommand
    | .plain name => readCommand verbosity name rest
    | .short letters => goOn (readLetters .beforeCommand verbosity letters)
    | .long name value => goOn (readFlag .beforeCommand verbosity name value)

end CommandLine

def Invocation.ofArguments (args : List String) : Except UsageError Invocation :=
  CommandLine.readCall 0 args

end TraitWeaver

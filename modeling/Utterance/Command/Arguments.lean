import Utterance.Expansion.Collection

/-!
# Arguments of the command line

An option is written with two hyphens and its long name or one hyphen and
its letter; letters may be joined. A value follows an option as the next
argument or is attached to it, after an equals sign if need be. After two
hyphens alone everything is an operand. Options and operands may come in
any order. What an option may be given, and how often, and how many
operands there may be is said by the form of a command, and reading the
arguments is one function for all commands (`CommandForm.scan`). The first
argument that is wrong, or that asks for help, decides.
-/

namespace Utterance

/-- Why arguments are refused. -/
inductive UsageError where
  /-- There is no command. -/
  | missingCommand
  /-- The word is no command. -/
  | unknownCommand (word : Text)
  /-- The option is unknown. -/
  | unknownOption (argument : Text)
  /-- An option without its value. -/
  | missingValue (name : Text)
  /-- A value that must not be empty. -/
  | emptyValue (name : Text)
  /-- A value for an option that takes none. -/
  | unexpectedValue (name : Text)
  /-- An option that may be given only once. -/
  | repeatedOption (name : Text)
  /-- An operand too many. -/
  | unexpectedOperand (argument : Text)
  /-- An operand too few. -/
  | missingOperand (name : Text)
  /-- A build that writes nothing. -/
  | missingOutput
  deriving Repr, DecidableEq

namespace UsageError

/-- What is wrong with the arguments. -/
def message : UsageError → String
  | missingCommand => "a command is wanted: build, expand or list"
  | unknownCommand word => s!"unknown command '{word.str}'"
  | unknownOption argument => s!"unknown option '{argument.str}'"
  | missingValue name => s!"option '--{name.str}' wants a value"
  | emptyValue name => s!"'{name.str}' must not be empty"
  | unexpectedValue name => s!"option '--{name.str}' takes no value"
  | repeatedOption name => s!"option '--{name.str}' is given more than once"
  | unexpectedOperand argument => s!"unexpected argument '{argument.str}'"
  | missingOperand name => s!"'{name.str}' is missing"
  | missingOutput => "at least one of '--alexa' and '--dialogflow' is wanted"

end UsageError

/-- What an option may be given. -/
inductive Arity where
  /-- No value, once. -/
  | flag
  /-- A path that is not empty, once. -/
  | path
  /-- Any text, any number of times. -/
  | texts
  deriving Repr, DecidableEq

/-- An option of a command. -/
structure OptionSpec where
  /-- The long name. -/
  long : Text
  /-- The letter. -/
  short : Option Char := none
  /-- What it may be given. -/
  arity : Arity
  /-- Whether what comes after it is not read any more. -/
  final : Bool := false
  deriving Repr, DecidableEq

/-- The options of a command. -/
abbrev OptionTable := List OptionSpec

/-- The operands of a command. -/
structure OperandSpec where
  /-- What they are called. -/
  name : Text
  /-- How many there may be at most. -/
  limit : Option Nat := none
  /-- What each may be. -/
  arity : Arity
  deriving Repr, DecidableEq

/-- What a command may be given. -/
structure CommandForm where
  /-- Its options. -/
  options : OptionTable
  /-- Its operands. -/
  operands : OperandSpec
  deriving Repr, DecidableEq

/-- What was read: the options with their values, a flag with an empty
one, and the operands, all in order. -/
structure Scanned where
  /-- The options by long name, with their values. -/
  options : List (Text × Text) := []
  /-- The operands. -/
  operands : List Text := []
  /-- Whether a final option was read. -/
  finished : Bool := false
  deriving Repr, DecidableEq

namespace Scanned

/-- The values that an option was given. -/
def values (s : Scanned) (long : Text) : List Text :=
  (s.options.filter fun (name, _) => name == long).map Prod.snd

/-- The value that an option was given. -/
def value? (s : Scanned) (long : Text) : Option Text :=
  (s.values long).head?

/-- Whether an option was given. -/
def has (s : Scanned) (long : Text) : Bool :=
  !(s.values long).isEmpty

end Scanned

/-- Whether an argument is an option and no value or operand. A single
hyphen is a value. -/
def looksLikeOption (argument : Text) : Bool :=
  argument.head? == some '-' && argument != ['-']

namespace OptionTable

/-- Note an option with its value. -/
def record (spec : OptionSpec) (value : Text) (s : Scanned) : Except UsageError Scanned :=
  if spec.arity != .texts && s.has spec.long then .error (.repeatedOption spec.long)
  else if spec.arity == .path && value.isEmpty then .error (.emptyValue spec.long)
  else .ok { s with options := s.options ++ [(spec.long, value)], finished := spec.final }

/-- Read a cluster of letters: what was read, and the option that still
wants a value. -/
def scanLetters (table : OptionTable) (s : Scanned) :
    Text → Except UsageError (Scanned × Option OptionSpec)
  | [] => .ok (s, none)
  | letter :: rest =>
    match table.find? fun spec => spec.short == some letter with
    | none => .error (.unknownOption ['-', letter])
    | some spec =>
      if spec.arity == .flag then do
        let s ← record spec [] s
        if s.finished then return (s, none)
        scanLetters table s rest
      else
        match rest with
        -- the value is the next argument
        | [] => .ok (s, some spec)
        -- or the rest of this one, after an equals sign or without it
        | '=' :: value => (record spec value s).map (·, none)
        | value => (record spec value s).map (·, none)

/-- Read a long option, after its two hyphens: what was read, and the
option that still wants a value. -/
def scanLong (table : OptionTable) (s : Scanned) (argument : Text) :
    Except UsageError (Scanned × Option OptionSpec) :=
  let name := argument.takeWhile (· ≠ '=')
  let attached := argument.dropWhile (· ≠ '=')
  match table.find? fun spec => spec.long == name with
  | none => .error (.unknownOption ('-' :: '-' :: argument))
  | some spec =>
    match spec.arity, attached with
    | .flag, [] => (record spec [] s).map (·, none)
    | .flag, _ => .error (.unexpectedValue name)
    | _, [] => .ok (s, some spec)
    | _, _ :: value => (record spec value s).map (·, none)

end OptionTable

namespace CommandForm

/-- Note an operand. -/
def recordOperand (form : CommandForm) (s : Scanned) (operand : Text) :
    Except UsageError Scanned :=
  if form.operands.limit = some s.operands.length then .error (.unexpectedOperand operand)
  else if form.operands.arity == .path && operand.isEmpty then
    .error (.emptyValue form.operands.name)
  else .ok { s with operands := s.operands ++ [operand] }

/-- **Read arguments**, given the option that wants the next one as its
value. -/
def scan (form : CommandForm) (s : Scanned) (wanting : Option OptionSpec) :
    List Text → Except UsageError Scanned
  | [] =>
    match wanting with
    | some spec => .error (.missingValue spec.long)
    | none => .ok s
  | argument :: rest => do
    match wanting with
    | some spec =>
      if looksLikeOption argument then throw (.missingValue spec.long)
      let s ← OptionTable.record spec argument s
      scan form s none rest
    | none =>
      match argument with
      -- two hyphens end the options
      | ['-', '-'] => rest.foldlM form.recordOperand s
      | '-' :: '-' :: long =>
        let (s, wanting) ← form.options.scanLong s long
        if s.finished then return s
        scan form s wanting rest
      | '-' :: letter :: letters =>
        let (s, wanting) ← form.options.scanLetters s (letter :: letters)
        if s.finished then return s
        scan form s wanting rest
      | operand =>
        let s ← form.recordOperand s operand
        scan form s none rest

end CommandForm

/-- A command with what it is given. -/
inductive Command where
  /-- Compile sources and write documents. -/
  | build (sources : List Text) (alexa dialogflow : Option Text) (order : Order)
  /-- Expand one template. -/
  | expand (template : Text) (definitions slots : List Text) (order : Order)
  /-- List the collections of sources. -/
  | list (sources : List Text)
  deriving Repr, DecidableEq

/-- What the arguments ask for. -/
inductive Request where
  /-- A command, with or without its progress in the log. -/
  | run (verbose : Bool) (command : Command)
  /-- The version. -/
  | version
  /-- How to use the program. -/
  | help
  deriving Repr, DecidableEq

namespace Request

/-- The option that shows progress. -/
def verboseOption : OptionSpec := { long := "verbose".toList, short := some 'v', arity := .flag }

/-- The option that asks for help. -/
def helpOption : OptionSpec :=
  { long := "help".toList, short := some 'h', arity := .flag, final := true }

/-- The option that asks for the version. -/
def versionOption : OptionSpec :=
  { long := "version".toList, short := some 'V', arity := .flag, final := true }

/-- The option that keeps sentences in the order they are found. -/
def noOrderOption : OptionSpec := { long := "no-order".toList, arity := .flag }

/-- What a build may be given. -/
def buildForm : CommandForm where
  options :=
    [{ long := "alexa".toList, short := some 'a', arity := .path },
      { long := "dialogflow".toList, short := some 'd', arity := .path },
      noOrderOption, verboseOption, helpOption]
  operands := { name := "SOURCES".toList, arity := .path }

/-- What an expansion may be given. -/
def expandForm : CommandForm where
  options :=
    [{ long := "var".toList, arity := .texts }, { long := "slot".toList, arity := .texts },
      noOrderOption, verboseOption, helpOption]
  operands := { name := "TEMPLATE".toList, limit := some 1, arity := .texts }

/-- What a listing may be given. -/
def listForm : CommandForm where
  options := [verboseOption, helpOption]
  operands := { name := "SOURCES".toList, arity := .path }

/-- The order that the options ask for. -/
def order (s : Scanned) : Order :=
  if s.has noOrderOption.long then .found else .ascending

/-- The build that was asked for. -/
def readBuild (s : Scanned) : Except UsageError Command := do
  if s.operands.isEmpty then throw (.missingOperand buildForm.operands.name)
  let alexa := s.value? "alexa".toList
  let dialogflow := s.value? "dialogflow".toList
  if alexa.isNone && dialogflow.isNone then throw .missingOutput
  return .build s.operands alexa dialogflow (order s)

/-- The expansion that was asked for. -/
def readExpand (s : Scanned) : Except UsageError Command :=
  match s.operands with
  | [] => .error (.missingOperand expandForm.operands.name)
  | template :: _ =>
    .ok (.expand template (s.values "var".toList) (s.values "slot".toList) (order s))

/-- The listing that was asked for, of the current folder by default. -/
def readList (s : Scanned) : Except UsageError Command :=
  .ok (.list (if s.operands.isEmpty then [['.']] else s.operands))

/-- A command by its own form. -/
def readCommand (verbose : Bool) (form : CommandForm)
    (read : Scanned → Except UsageError Command) (arguments : List Text) :
    Except UsageError Request := do
  let s ← form.scan {} none arguments
  if s.has helpOption.long then return .help
  let command ← read s
  return .run (verbose || s.has verboseOption.long) command

/-- The names of the commands. -/
def commandNames : List Text :=
  ["build".toList, "expand".toList, "list".toList, "help".toList]

/-- Help, on a command or on all of them. No command has commands of its
own. -/
def readHelp : List Text → Except UsageError Request
  | [] => .ok .help
  | [word] => if commandNames.contains word then .ok .help else .error (.unknownCommand word)
  | _ :: word :: _ => .error (.unknownCommand word)

/-- The options before the command; the ones that ask for something else
than a command answer at once. -/
def readLeading (s : Scanned) : Except UsageError (Option Request) :=
  if s.has versionOption.long then .ok (some .version)
  else if s.has helpOption.long then .ok (some .help)
  else .ok none

/-- **What the arguments ask for.** The options before the command are the
verbose one and those that ask for help or the version. -/
def read (s : Scanned) : List Text → Except UsageError Request
  | [] => .error .missingCommand
  | argument :: rest => do
    if looksLikeOption argument then
      if argument == ['-', '-'] then throw .missingCommand
      let (s, _) ← match argument with
        | '-' :: '-' :: long =>
          OptionTable.scanLong [verboseOption, helpOption, versionOption] s long
        | _ => OptionTable.scanLetters [verboseOption, helpOption, versionOption] s argument.tail
      match ← readLeading s with
      | some request => return request
      | none => read s rest
    else
      let verbose := s.has verboseOption.long
      match commandNames.idxOf argument with
      | 0 => readCommand verbose buildForm readBuild rest
      | 1 => readCommand verbose expandForm readExpand rest
      | 2 => readCommand verbose listForm readList rest
      | 3 => readHelp rest
      | _ => .error (.unknownCommand argument)

end Request

end Utterance

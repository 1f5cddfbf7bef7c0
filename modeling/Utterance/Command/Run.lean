import Utterance.Command.Arguments
import Utterance.Command.Assignment
import Utterance.Export.Writing
import Utterance.Report.Excerpt
import Utterance.Report.Summary

/-!
# Running a command

A command reads sources, expands, writes what it was asked for and prints
a summary. It runs in any monad with access to files, so that what it
does is a function on file trees as well as an action on the real ones.
The answer is the exit code, what is printed, and what is printed as
errors: the log from a level upwards, and the report of the failure.
-/

namespace Utterance

namespace Command

open Export

variable {m : Type → Type} [Monad m]

/-- The outcome of an expansion, which does not end when a variable leads
back to itself. -/
def ended {α : Type} : Option α → Action m α
  | some value => return value
  | none => throw (.engine "Expansion does not end")

variable [FileAccess m]

/-- Whether a file that was found is a source: one that was named is, one
that was met in a folder is when its name says so. -/
def isSource (path : Text) (explicit : Bool) : Bool :=
  explicit || Path.extension? path == some "dry".toList

/-- Load one file. -/
def loadFile (w : Workspace) (path : Text) : Action m Workspace := do
  tell (.reading path)
  match ← (FileAccess.read path : m (Except FileError Text)) with
  | .error e => throw (.engine e.message)
  | .ok text =>
    match ← telling (w.add text path) with
    | .ok w => return w
    | .error e => throw e

/-- Load what a search met, if it is a source. -/
def loadFound (w : Workspace) : Found → Action m Workspace
  | .file path explicit => if isSource path explicit then loadFile w path else return w
  | .refused path e => throw (.engine s!"IO error for operation on {path.str}: {e.message}")

/-- Load the sources at or below a path. -/
def loadPath (w : Workspace) (path : Text) : Action m Workspace := do
  (← (FileAccess.find path : m (List Found))).foldlM loadFound w

/-- Load the sources at or below some paths, one after another. -/
def load (paths : List Text) : Action m Workspace :=
  paths.foldlM loadPath {}

/-- Compile sources and write the documents asked for. -/
def runBuild (fuel : Nat) (sources : List Text) (alexa dialogflow : Option Text) (order : Order) :
    Action m String := do
  let w ← load sources
  let compiled ← telling (← ended (w.compile fuel order))
  let first ← match alexa with
    | some folder => (fun path => [path]) <$> writeAlexa compiled folder
    | none => pure []
  let second ← match dialogflow with
    | some folder => writeDialogflow compiled folder
    | none => pure []
  let written := first ++ second
  tell (.wrote written.length)
  return Summary.build w.sources.length compiled written

/-- Expand one template. Placeholders are checked when slots are named. -/
def runExpand (fuel : Nat) (template : Text) (definitions slots : List Text) (order : Order) :
    Action m String := do
  match Variables.ofAssignments definitions with
  | .error e => throw (.engine e.message)
  | .ok vars =>
    let table := if slots.isEmpty then none else some (slots.map fun name => { name : Slot })
    let run ← ended (Run.of fuel vars table none { text := template })
    modify (run.events.reverse ++ ·)
    return Summary.sentences (order.arrange id run.sentences)

/-- List the collections of sources. -/
def runList (fuel : Nat) (sources : List Text) : Action m String := do
  let w ← load sources
  let compiled ← telling (← ended (w.compile fuel .ascending))
  tell (.listing w.collections.length)
  return Summary.workspace w.sources.length w.sources (Summary.rows w compiled)

/-- **Run a command**; what it prints is its value. -/
def run (fuel : Nat) : Command → Action m String
  | .build sources alexa dialogflow order => runBuild fuel sources alexa dialogflow order
  | .expand template definitions slots order => runExpand fuel template definitions slots order
  | .list sources => runList fuel sources

end Command

/-- What the program answers. -/
structure Answer where
  /-- The exit code. -/
  code : Nat
  /-- What is printed. -/
  output : String
  /-- The log, as far as it is shown. -/
  log : String := ""
  /-- What went wrong. -/
  report : String := ""
  deriving Repr, DecidableEq

namespace Answer

/-- What is printed as errors: the log, then what went wrong. -/
def errorOutput (answer : Answer) : String :=
  answer.log ++ answer.report

/-- How to use the program. -/
def usage : String :=
  "Don't repeat yourself when writing voice assistant utterances.\n\n" ++
    "Usage: dryvac [-v] build SOURCES... [-a DIR] [-d DIR] [--no-order]\n" ++
    "       dryvac [-v] expand TEMPLATE [--var NAME=DEFINITION]... [--slot NAME]... [--no-order]\n" ++
    "       dryvac [-v] list [SOURCES]...\n"

/-- The lines of the log from a level upwards, the last event first. -/
def logText (level : Level) (events : List Event) : String :=
  (events.reverse.filter fun e => level.rank ≤ e.level.rank).foldl
    (fun out e => out ++ e.line ++ "\n") ""

/-- The answer of a command that is over, with its events in reverse. -/
def ofOutcome (verbose : Bool) : Except Error String × List Event → Answer
  | (outcome, events) =>
    let log := logText (if verbose then .debug else .warn) events
    match outcome with
    | .ok output => { code := 0, output := output, log := log }
    | .error e => { code := 1, output := "", log := log, report := e.report ++ "\n" }

/-- **What the program answers to its arguments.** -/
def toArguments {m : Type → Type} [Monad m] [FileAccess m] (fuel : Nat) (arguments : List Text) :
    m Answer := do
  match Request.read {} arguments with
  | .error e => return { code := 2, output := "", report := s!"error: {e.message}\n\n{usage}" }
  | .ok .help => return { code := 0, output := usage }
  | .ok .version => return { code := 0, output := "dryvac 0.1.0\n" }
  | .ok (.run verbose command) => do
    let action : Action m String := command.run fuel
    return ofOutcome verbose (← (action.run).run [])

end Answer

end Utterance

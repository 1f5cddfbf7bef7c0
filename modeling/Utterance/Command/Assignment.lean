import Utterance.Text.Blank
import Utterance.Variables

/-!
# Definitions on the command line

A variable is defined by an argument of the form `name=definition`. The
first equals sign divides the two, and blanks around them are dropped.
-/

namespace Utterance

/-- Why an argument defines no variable. -/
inductive AssignmentError where
  /-- It has no equals sign. -/
  | missingSign (argument : Text)
  /-- Nothing stands before the sign. -/
  | missingName (argument : Text)
  deriving Repr, DecidableEq

namespace AssignmentError

/-- What is wrong with the argument. -/
def message : AssignmentError → String
  | missingSign argument => s!"Invalid variable '{argument.str}': expected name=definition"
  | missingName argument => s!"Invalid variable '{argument.str}': name is empty"

end AssignmentError

namespace Variables

/-- The name and definition in an argument. -/
def readAssignment (argument : Text) : Except AssignmentError (Text × Text) :=
  match argument.dropWhile (· ≠ '=') with
  | [] => .error (.missingSign argument)
  | _ :: definition =>
    let name := Text.trim (argument.takeWhile (· ≠ '='))
    if name.isEmpty then .error (.missingName argument) else .ok (name, Text.trim definition)

/-- **The variables that a list of arguments defines**, or the first
argument that defines none. -/
def ofAssignments (arguments : List Text) : Except AssignmentError Variables :=
  (arguments.mapM readAssignment).map ofList

end Variables

end Utterance

import Utterance.Line.Grammar

/-!
# Errors — why a source is refused, or output cannot be written

The error of a line says what is wrong with it and where it stands. A
fault is a cause; its words and its advice are functions of the cause.
The errors of a source with several bad lines are collected in one error.
-/

namespace Utterance

/-- What is wrong with a line. -/
inductive Fault where
  /-- It begins with a keyword and does not have the keyword's form. -/
  | malformed (keyword : Keyword) (expected : Expected)
  /-- It has no keyword and is no line at all. -/
  | unrecognized (expected : Expected)
  /-- A slot is declared where no intent is open. -/
  | slotOutsideIntent (slot : Text)
  /-- A sentence stands before every intent and entity. -/
  | sentenceOutside
  /-- Something else, in the words of whoever found it. -/
  | other (message : String) (advice : Option String)
  deriving Repr, DecidableEq

namespace Fault

/-- What is wrong. -/
def message : Fault → String
  | malformed keyword expected =>
    s!"Malformed {keyword.word.str} declaration: {expected.message}"
  | unrecognized expected => s!"Unrecognized line: {expected.message}"
  | slotOutsideIntent slot => s!"Slot '{slot.str}' declared outside of an intent"
  | sentenceOutside => "Sentence appears before any intent or entity declaration"
  | other message _ => message

/-- What to do about it. -/
def advice : Fault → Option String
  | malformed keyword _ => some s!"Expected `{keyword.form}`"
  | unrecognized _ => none
  | slotOutsideIntent _ => some "Declare slots after an `INTENT: Name` line"
  | sentenceOutside => some "Start a collection with `INTENT: Name` or `ENTITY: Name`"
  | other _ advice => advice

end Fault

/-- A bad line with its place. -/
structure LineError where
  /-- What is wrong. -/
  fault : Fault
  /-- Where the line stands. -/
  span : Span
  /-- The name of the source. -/
  source : Text
  /-- The text of the source. -/
  sourceText : Text
  deriving Repr, DecidableEq

namespace LineError

/-- The fault, the advice and the place in one line. -/
def message (e : LineError) : String :=
  let advice := (e.fault.advice.map fun a => s!" (suggestion: {a})").getD ""
  s!"Parse error: {e.fault.message}{advice} at {e.source.str}:{e.span.line}:{e.span.column}"

end LineError

/-- A limit that was passed. -/
structure LimitError where
  /-- The name of the limit. -/
  name : String
  /-- What is allowed. -/
  limit : String
  /-- What was met. -/
  actual : String
  /-- What to do about it. -/
  advice : String
  deriving Repr, DecidableEq

namespace LimitError

/-- The number of bytes in a mebibyte. -/
def mebibyte : Nat := 1024 * 1024

/-- A number divided by another, rounded to the nearest whole number, and
from the middle to the even one. -/
def divideToEven (n d : Nat) : Nat :=
  let q := n / d
  let twice := 2 * (n % d)
  if twice < d then q else if d < twice then q + 1 else q + q % 2

/-- A size in mebibytes with two decimals. -/
def mebibytes (bytes : Nat) : String :=
  let hundredths := divideToEven (bytes * 100) mebibyte
  let decimals := hundredths % 100
  s!"{hundredths / 100}.{decimals / 10}{decimals % 10}"

/-- A source is larger than the limit allows. -/
def sourceSize (limit actual : Nat) : LimitError where
  name := "max_file_size_bytes"
  limit := s!"{limit} bytes ({limit / mebibyte} MB)"
  actual := s!"{actual} bytes ({mebibytes actual} MB)"
  advice := "Reduce file size or split into multiple source files"

end LimitError

/-- Why an operation failed. -/
inductive Error where
  /-- A bad line. -/
  | line (e : LineError)
  /-- Output cannot be produced. -/
  | engine (message : String)
  /-- A limit was passed. -/
  | limit (e : LimitError)
  /-- The system refused to read or write. -/
  | io (message : String)
  /-- Several errors together. -/
  | several (errors : List Error)

namespace Error

mutual

/-- The text of an error, after a text. -/
def write (out : String) : Error → String
  | line e => out ++ e.message
  | engine text => out ++ s!"Engine error: {text}"
  | limit e =>
    out ++ s!"Resource limit exceeded: {e.name} (limit: {e.limit}, actual: {e.actual}). {e.advice}"
  | io text => out ++ s!"IO error: {text}"
  | several errors => writeNumbered (out ++ "Multiple errors:") 1 errors

/-- The texts of several errors, each on a line of its own after its
number. -/
def writeNumbered (out : String) (number : Nat) : List Error → String
  | [] => out
  | e :: rest => writeNumbered (e.write (out ++ s!"\n  {number}. ")) (number + 1) rest

end

/-- The text of an error. -/
def message (e : Error) : String :=
  e.write ""

/-- One error stands for itself, several are put together. -/
def ofList : List Error → Error
  | [e] => e
  | errors => several errors

theorem ofList_of_two_le {errors : List Error} (h : 2 ≤ errors.length) :
    ofList errors = several errors := by
  rcases errors with _ | ⟨first, _ | ⟨second, errors⟩⟩
  · cases h
  · exact absurd h (by simp)
  · rfl

end Error

end Utterance

import Utterance.Error
import Utterance.Text.Blank
import Utterance.Text.Columns

/-!
# Excerpts — a bad line shown in its source

An error of a line is reported with the part of the source it concerns. A
part within one line is underlined, and a pointer leads from the middle
of it to a label (`inlineRows`). A part that runs over several lines is
held by a bracket, and the label follows its last line (`bracketRows`).

The lines of an excerpt end at every character that breaks a line on a
page, which are more than those that end a line of a source. The margin
is as wide as the last number in it wants. A tab fills up to the next
multiple of four, counted from its place in the line, in the line as in
the rows below it.
-/

namespace Utterance

namespace Excerpt

/-- Whether a character breaks a line. -/
def breaksLine (c : Char) : Bool :=
  c == '\n' || c == '\r' || c == '\x0b' || c == '\x0c' || c == '\x85' || c == '\u2028' ||
    c == '\u2029'

/-- The lines of a text after one more character in front. A carriage
return and the line feed after it are one break. -/
def putBefore (c : Char) : List Text → List Text
  | [] => [[c]]
  | line :: rest =>
    if c = '\r' ∧ line = ['\n'] then (c :: line) :: rest
    else if breaksLine c then [c] :: line :: rest
    else (c :: line) :: rest

/-- A line of a source, with the break it ends in. -/
structure PlacedLine where
  /-- The offset of its first character. -/
  offset : Nat
  /-- Its characters. -/
  text : Text
  deriving Repr, DecidableEq

namespace PlacedLine

/-- The offset after its last character. -/
def stop (line : PlacedLine) : Nat :=
  line.offset + line.text.length

/-- Whether an offset falls into the line. -/
def contains (line : PlacedLine) (offset : Nat) : Bool :=
  line.offset ≤ offset && offset < line.stop

end PlacedLine

/-- The lines of a source. -/
def placedLines (s : Text) : List PlacedLine :=
  let step := fun (offset, placed) (line : Text) =>
    (offset + line.length, PlacedLine.mk offset line :: placed)
  ((s.foldr putBefore []).foldl step (0, [])).2.reverse

/-- The line that an offset falls into, with its index. The offset after
the last character falls into the last line. -/
def lineAt? (offset : Nat) (index : Nat) : List PlacedLine → Option (Nat × PlacedLine)
  | [] => none
  | [line] => if offset ≤ line.stop then some (index, line) else none
  | line :: rest => if offset < line.stop then some (index, line) else lineAt? offset (index + 1) rest

/-- How many columns a character of a line takes at its place. Every blank
but the tab is shown as one space. -/
def width (column : Nat) (c : Char) : Nat :=
  if c = '\t' then 4 - column % 4 else if isBlank c then 1 else Columns.ofChar c

/-- A character of a line as it is shown: blanks as spaces. -/
def shown (c : Char) (column : Nat) : Text :=
  if isBlank c then List.replicate (width column c) ' ' else [c]

/-- The text of a line as it is shown, without blanks at its end. -/
def shownLine (line : Text) : Text :=
  line.trimEnd.zipIdx.flatMap fun (c, column) => shown c column

/-- A row under a line: for each character a mark and what fills up the
room of a wider one; under a character without a column stands nothing.
Places after the shown text are one column wide. -/
def row (line : Text) (columns : Nat) (mark : Nat → Char × Char) : Text :=
  -- blanks at the end of the line are not shown, so nothing widens there
  let widths := (line.trimEnd.take columns).zipIdx.map fun (c, column) => width column c
  let all := widths ++ List.replicate (columns - widths.length) 1
  all.zipIdx.flatMap fun (room, column) =>
    let (first, fill) := mark column
    if room = 0 then [] else first :: List.replicate (room - 1) fill

/-- The row that underlines a part of a line, with a junction in it. A
part without characters has the junction alone. -/
def underlineRow (line : Text) (start stop middle : Nat) : Text :=
  row line (stop + 2) fun column =>
    if column = middle then (if start < stop then ('┬', '─') else ('│', ' '))
    else if start ≤ column && column < stop then ('─', '─') else (' ', ' ')

/-- The row that leads from the junction to the label. -/
def pointerRow (line : Text) (stop middle : Nat) : Text :=
  row line (stop + 2) fun column =>
    if column < middle then (' ', ' ') else if column = middle then ('╰', '─') else ('─', '─')

/-- The margin beside a line, for numbers of some digits. -/
def numbered (digits index : Nat) : String :=
  let number := (index + 1).repr
  String.ofList (List.replicate (digits + 1 - number.length) ' ') ++ number ++ " │ "

/-- The margin beside everything else. -/
def blankMargin (digits : Nat) : String :=
  String.ofList (List.replicate (digits + 2) ' ')

/-- The rows of a part within one line. -/
def inlineRows (digits index : Nat) (line : PlacedLine) (start stop : Nat) : String :=
  let margin := blankMargin digits
  let middle := (start + stop) / 2 - line.offset
  let start := start - line.offset
  let stop := stop - line.offset
  s!"{numbered digits index}{(shownLine line.text).str}\n" ++
    s!"{margin}│ {(underlineRow line.text start stop middle).str}\n" ++
    s!"{margin}│ {(pointerRow line.text stop middle).str} this line\n"

/-- The rows of a part that runs over several lines, written after a text.
Of the lines between the first and the last one a gap is shown. -/
def bracketRows (digits start last : Nat) (out : String) (index : Nat) (inGap : Bool) :
    List PlacedLine → String
  | [] => out
  | line :: rest =>
    let margin := blankMargin digits
    let fill := fun (c : Char) => (row line.text (line.text.length + 2) fun _ => (c, c)).str
    -- the first line of the part, then its last one, then those between
    if line.contains start then
      let out := out ++ s!"{numbered digits index}╭─▶ {(shownLine line.text).str}\n"
      bracketRows digits start last out (index + 1) false rest
    else if line.contains last then
      let out := out ++ s!"{numbered digits index}├─▶ {(shownLine line.text).str}\n" ++
        margin ++ "│ │   " ++ fill ' ' ++ "\n" ++ margin ++ "│ ╰───" ++ fill '─' ++ " this line\n"
      bracketRows digits start last out (index + 1) false rest
    else
      let out := if inGap then out else out ++ s!"{margin}┆ ┆   \n"
      bracketRows digits start last out (index + 1) true rest

/-- What stands before the advice: room for the bracket, which is drawn
there once more when the part begins right after the first line. -/
def bracketRoom (start : Nat) (lines : List PlacedLine) : String :=
  if (lines.head?.map PlacedLine.stop) = some start then "│   " else "    "

end Excerpt

namespace LineError

open Excerpt in
/-- The excerpt of a part that lies in the lines from one to another. A
part that goes beyond the end of its only line is not drawn. -/
def excerpt (e : LineError) (lines : List PlacedLine) (firstIndex lastIndex : Nat)
    (first : PlacedLine) : String :=
  let start := e.span.start
  let digits := (lastIndex + 1).repr.length
  let margin := blankMargin digits
  let (rows, room) :=
    if firstIndex < lastIndex then
      let part := (lines.drop firstIndex).take (lastIndex + 1 - firstIndex)
      let last := max start (e.span.stop - 1)
      (bracketRows digits start last "" firstIndex false part, bracketRoom start lines)
    else if e.span.stop ≤ first.stop then
      (inlineRows digits firstIndex first start e.span.stop, "")
    else (s!"{margin}│ \n", "")
  let advice := match e.fault.advice with
    | some advice => s!"{margin}│ {room}\n{margin}│ {room}Help: {advice}\n"
    | none => ""
  s!"{margin}╭─[{e.source.str}:{firstIndex + 1}:{start - first.offset + 1}]\n{margin}│\n" ++
    rows ++ advice ++ String.ofList (List.replicate (digits + 2) '─') ++ "╯\n"

open Excerpt in
/-- **The report of a bad line.** Without an excerpt when the part lies
outside the source. -/
def report (e : LineError) : String :=
  let lines := placedLines e.sourceText
  let first? := lineAt? e.span.start 0 lines
  let last? := lineAt? (max e.span.start (e.span.stop - 1)) 0 lines
  let shown := match first?, last? with
    | some (firstIndex, first), some (lastIndex, _) => e.excerpt lines firstIndex lastIndex first
    | _, _ => ""
  s!"Error: Parse error: {e.fault.message} (file {e.source.str}:{e.span.line})\n" ++ shown

end LineError

namespace Error

mutual

/-- Write the report of an error after a text. -/
def writeReport (out : String) : Error → String
  | line e => out ++ e.report
  | engine text => out ++ s!"Error: {text}"
  | limit e =>
    out ++ s!"Resource limit exceeded: {e.name}\n  Limit: {e.limit}\n" ++
      s!"  Actual: {e.actual}\n  {e.advice}"
  | io text => out ++ s!"IO error: {text}"
  | several errors => writeReports (out ++ s!"{errors.length} errors occurred:\n\n") errors

/-- Write the reports of several errors, with an empty line after each. -/
def writeReports (out : String) : List Error → String
  | [] => out
  | e :: rest => writeReports (e.writeReport out ++ "\n\n") rest

end

/-- **The report of an error** on the command line. -/
def report (e : Error) : String :=
  e.writeReport ""

end Error

end Utterance

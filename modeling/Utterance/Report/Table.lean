import Utterance.Text.Basic

/-!
# Tables

A table is drawn with box characters. Each column is as wide as its
longest cell and a space on each side; the header is set off by a double
rule and the rows by dotted ones.
-/

namespace Utterance

/-- Where a cell stands in its column. -/
inductive Alignment where
  /-- At the left. -/
  | left
  /-- At the right. -/
  | right
  deriving Repr, DecidableEq

/-- A column of a table. -/
structure Column where
  /-- The title. -/
  title : Text
  /-- Where its cells stand. -/
  alignment : Alignment
  deriving Repr, DecidableEq

/-- A table with its rows, each of as many cells as there are columns. -/
structure Table where
  /-- The columns. -/
  columns : List Column
  /-- The rows. -/
  rows : List (List Text)
  deriving Repr, DecidableEq

namespace Table

/-- The length of the longest cell of each column. -/
def widths (t : Table) : List Nat :=
  t.rows.foldl (fun widths row => (widths.zip row).map fun (w, cell) => max w cell.length)
    (t.columns.map fun column => column.title.length)

/-- A cell filled up to a width, with a space on each side. -/
def cell (alignment : Alignment) (width : Nat) (text : Text) : Text :=
  let fill := List.replicate (width - text.length) ' '
  match alignment with
  | .left => ' ' :: text ++ fill ++ [' ']
  | .right => ' ' :: fill ++ text ++ [' ']

/-- A row between the outer and inner walls. -/
def rowLine (t : Table) (cells : List Text) : Text :=
  let filled := (t.columns.zip (t.widths.zip cells)).map fun (column, width, text) =>
    cell column.alignment width text
  '│' :: ['┆'].intercalate filled ++ ['│']

/-- A rule made of one character, with its ends and its crossings. -/
def rule (t : Table) (left dash cross right : Char) : Text :=
  left :: [cross].intercalate (t.widths.map fun w => List.replicate (w + 2) dash) ++ [right]

/-- The lines of the drawing. -/
def lines (t : Table) : List Text :=
  let rows := (t.rows.map t.rowLine).intersperse (t.rule '├' '╌' '┼' '┤')
  [t.rule '┌' '─' '┬' '┐', t.rowLine (t.columns.map Column.title), t.rule '╞' '═' '╪' '╡'] ++
    rows ++ [t.rule '└' '─' '┴' '┘']

/-- The drawing. -/
def draw (t : Table) : Text :=
  ['\n'].intercalate t.lines

end Table

end Utterance

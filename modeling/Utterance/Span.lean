import Utterance.Text.Blank

/-!
# Spans — where a line stands in its source

A span is a range of bytes together with the number of its line and the
column, both counted from one. The span of a line leaves out the blanks
at both ends (`Span.ofLine`).
-/

namespace Utterance

/-- A range of bytes of a source, `stop` exclusive, with the line it is on
and the byte column it starts at. -/
structure Span where
  /-- The first byte. -/
  start : Nat
  /-- The byte after the last one. -/
  stop : Nat
  /-- The line, counted from one. -/
  line : Nat
  /-- The column in bytes, counted from one. -/
  column : Nat
  deriving Repr, DecidableEq

namespace Span

/-- The span of the raw text of a line, which starts at a given byte of
the source, without the blanks at both ends. -/
def ofLine (lineStart : Nat) (raw : Text) (line : Nat) : Span :=
  let indent := raw.indent.byteSize
  { start := lineStart + indent
    stop := lineStart + indent + raw.trim.byteSize
    line
    column := indent + 1 }

end Span

end Utterance

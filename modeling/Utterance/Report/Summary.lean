import Utterance.Report.Table
import Utterance.Workspace

/-!
# Summaries

What the commands print when all went well: the sentences of a template,
the numbers of a build, and the table of the collections of a workspace.
-/

namespace Utterance

namespace Summary

/-- One sentence on a line. -/
def sentences (items : List Text) : String :=
  items.foldl (fun out s => out ++ s.str ++ "\n") ""

/-- The numbers of a build, and the documents it wrote. -/
def build (files : Nat) (c : Compiled) (written : List Text) : String :=
  let warnings := c.diagnostics.length
  let head := s!"Compiled {files} files: {c.intents.length} intents, " ++
    s!"{c.entities.length} entities, {c.sentenceCount} sentences\n"
  let warned := if warnings = 0 then "" else s!"{warnings} warnings\n"
  written.foldl (fun out path => out ++ s!"  wrote {path.str}\n") (head ++ warned)

/-- A row of the table of collections: a collection with its expansion. -/
structure Row where
  /-- The collection. -/
  collection : Collection
  /-- Its expansion. -/
  expanded : Expanded

/-- A number in a cell. -/
def number (n : Nat) : Text :=
  n.repr.toList

/-- The cells of a row. -/
def Row.cells (row : Row) : List Text :=
  [row.collection.kind.name.toList, row.collection.name, number row.collection.templates.length,
    number row.collection.slots.length, number row.expanded.sentences.length,
    number row.expanded.diagnostics.length]

/-- The table of collections. -/
def table (rows : List Row) : Table where
  columns :=
    [⟨"Kind".toList, .left⟩, ⟨"Name".toList, .left⟩, ⟨"Templates".toList, .right⟩,
      ⟨"Slots".toList, .right⟩, ⟨"Sentences".toList, .right⟩, ⟨"Warnings".toList, .right⟩]
  rows := rows.map Row.cells

/-- The rows of a compiled workspace: each expanded collection with the
collection of its kind and name. -/
def rows (w : Workspace) (c : Compiled) : List Row :=
  c.collections.filterMap fun expanded =>
    (w.model.collection? expanded.kind expanded.name).map fun collection =>
      ⟨collection, expanded⟩

/-- The sources of a workspace and its collections. -/
def workspace (files : Nat) (sources : List Text) (rows : List Row) : String :=
  let head := s!"Workspace contains {files} files, {rows.length} collections\n"
  let listed := sources.foldl (fun out source => out ++ s!"  {source.str}\n") head
  if rows.isEmpty then listed else listed ++ "\n" ++ (table rows).draw.str ++ "\n"

end Summary

end Utterance

import Utterance.Line.Grammar

/-!
# Parse trees

The parse tree of a line names the rule of every part, with the byte the
part starts at and its text. The tree of a line has two branches, the
declaration or sentence and the empty end of the line.
-/

namespace Utterance

/-- A part of a line, with its rule and its own parts. -/
inductive ParseTree where
  /-- The rule, the first byte, the text and the parts. -/
  | node (rule : Rule) (start : Nat) (text : Text) (parts : List ParseTree)

namespace Line

open ParseTree

/-- A part without parts of its own. -/
def leaf (rule : Rule) (start : Nat) (text : Text) : ParseTree :=
  node rule start text []

/-- A part that follows spaces. -/
def leafAfter (rule : Rule) (start : Nat) (part : Spaced) : ParseTree :=
  leaf rule (start + part.gap.byteSize) part.text

/-- A part that a sign introduces and that holds one other part. -/
def signed (sign : Char) (outer inner : Rule) (start : Nat) (part : Spaced) : ParseTree :=
  node outer start (sign :: part.full) [leafAfter inner (start + sign.utf8Size) part]

/-- The branch of the declaration or sentence. -/
def branch : Line → ParseTree
  | invocation keyword name =>
    node .invocation 0 (keyword ++ name.full) [leafAfter .text keyword.byteSize name]
  | language keyword code =>
    node .language 0 (keyword ++ code.full) [leafAfter .languageCode keyword.byteSize code]
  | opening kind keyword name =>
    let rule := match kind with
      | .intent => Rule.intent
      | .entity => Rule.entity
    node rule 0 (keyword ++ name.full) [leafAfter .identifier keyword.byteSize name]
  | l@(slot keyword name beforeType type beforeExample «example») =>
    let typeStart := (keyword ++ name.full ++ beforeType).byteSize
    let typeSize := (type.map fun t => Text.byteSize (':' :: t.full)).getD 0
    let exampleStart := typeStart + typeSize + beforeExample.byteSize
    node .slot 0 l.text <|
      leafAfter .identifier keyword.byteSize name ::
        (type.map (signed ':' .slotType .typeName typeStart)).toList ++
        (example.map (signed '~' .slotExample .text exampleStart)).toList
  | l@(definition name beforeSign text) =>
    node .variableDefinition 0 l.text
      [leaf .variableName 0 name,
        leafAfter .definition ((name ++ beforeSign).byteSize + 1) text]
  | sentence text => leaf .sentence 0 text

/-- The parse tree of a line. -/
def tree (l : Line) : ParseTree :=
  node .line 0 l.text [l.branch, leaf .endOfLine l.text.byteSize []]

end Line

end Utterance

import Utterance.Expansion.Collection
import Utterance.Json

/-!
# Dialogflow documents

An intent makes two documents, its definition with the parameters and its
training phrases; an entity makes its definition and its entries. A
phrase is a sentence cut into literal runs and slot runs (`parts`). A slot
run shows the slot's example, or else its name, and carries the name and
the type.
-/

namespace Utterance

namespace Dialogflow

/-- A run of a phrase. -/
inductive Part where
  /-- Text outside every placeholder. -/
  | literal (text : Text)
  /-- A placeholder: the text shown, the slot it names and its type. -/
  | slot (text name type : Text)
  deriving Repr, DecidableEq

/-- The run of a placeholder, given the declared slots. A slot without a
declaration stands for its own type. -/
def slotPart (slots : List Slot) (name : Text) : Part :=
  match Slot.find? slots name with
  | some slot => .slot (slot.example.getD name) name slot.typeName
  | none => .slot name name name

/-- A piece of a sentence in front of the runs after it. -/
def putPiece (slots : List Slot) : Piece → List Part → List Part
  | .char c, .literal text :: rest => .literal (c :: text) :: rest
  | .char c, rest => .literal [c] :: rest
  | .slot name, rest => slotPart slots name :: rest

/-- **The runs of a sentence**, as long as can be. -/
def parts (slots : List Slot) (sentence : Text) : List Part :=
  (Sentence.pieces sentence).foldr (putPiece slots) []

/-- A parameter of an intent. -/
structure Parameter where
  /-- The name. -/
  name : Text
  /-- The type, after an at sign. -/
  dataType : Text
  /-- The value, after a dollar sign. -/
  value : Text
  deriving Repr, DecidableEq

/-- The definition of an intent. -/
structure IntentDefinition where
  /-- The name. -/
  name : Text
  /-- The parameters. -/
  parameters : List Parameter
  deriving Repr, DecidableEq

/-- The definition of an intent, with a parameter for each slot. -/
def intentDefinition (intent : Expanded) : IntentDefinition where
  name := intent.name
  parameters := intent.slots.map fun slot => ⟨slot.name, '@' :: slot.typeName, '$' :: slot.name⟩

/-- The training phrases of an intent. -/
def userSays (intent : Expanded) : List (List Part) :=
  intent.sentences.map (parts intent.slots)

/-- A run as JSON. -/
def Part.toJson : Part → Json
  | .literal text => .obj [("text", .str text), ("userDefined", .bool false)]
  | .slot text name type =>
    .obj [("text", .str text), ("alias", .str name), ("meta", .str ('@' :: type)),
      ("userDefined", .bool true)]

/-- The definition of an intent as JSON. -/
def IntentDefinition.toJson (d : IntentDefinition) : Json :=
  let parameter (p : Parameter) : Json :=
    .obj [("name", .str p.name), ("dataType", .str p.dataType), ("value", .str p.value),
      ("isList", .bool false)]
  .obj [("name", .str d.name), ("auto", .bool true),
    ("responses", .arr [.obj [("parameters", .arr (d.parameters.map parameter))]])]

/-- The training phrases of an intent as JSON. -/
def userSaysJson (phrases : List (List Part)) : Json :=
  let phrase (parts : List Part) : Json :=
    .obj [("id", .str []), ("data", .arr (parts.map Part.toJson)), ("isTemplate", .bool false),
      ("count", .num 0), ("updated", .num 0)]
  .arr (phrases.map phrase)

/-- The definition of an entity as JSON. -/
def entityJson (entity : Expanded) : Json :=
  .obj [("name", .str entity.name), ("isOverridable", .bool true), ("isEnum", .bool false),
    ("automatedExpansion", .bool false)]

/-- The entries of an entity as JSON: each value is its own only synonym. -/
def entriesJson (entity : Expanded) : Json :=
  let entry (value : Text) : Json :=
    .obj [("value", .str value), ("synonyms", .arr [.str value])]
  .arr (entity.sentences.map entry)

end Dialogflow

end Utterance

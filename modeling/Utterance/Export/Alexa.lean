import Utterance.Expansion.Collection
import Utterance.Event
import Utterance.Json

/-!
# The Alexa interaction model

One document holds the invocation name, the intents with their slots and
samples, and the entities as value types. A sample is a sentence with its
placeholders between braces. An intent without slots or samples leaves
the list out, as built-in intents want.
-/

namespace Utterance

namespace Alexa

/-- A piece of a sentence as it stands in a sample. -/
def samplePiece : Piece → Text
  | .char c => [c]
  | .slot name => '\x7b' :: name ++ ['\x7d']

/-- A sentence with its placeholders between braces. -/
def sample (sentence : Text) : Text :=
  (Sentence.pieces sentence).flatMap samplePiece

/-- A slot of an intent. -/
structure SlotEntry where
  /-- The name. -/
  name : Text
  /-- The type. -/
  type : Text
  deriving Repr, DecidableEq

/-- An intent. -/
structure IntentEntry where
  /-- The name. -/
  name : Text
  /-- The slots. -/
  slots : List SlotEntry
  /-- The samples. -/
  samples : List Text
  deriving Repr, DecidableEq

/-- A value type. -/
structure TypeEntry where
  /-- The name. -/
  name : Text
  /-- The values. -/
  values : List Text
  deriving Repr, DecidableEq

/-- The interaction model. -/
structure Document where
  /-- The invocation name, empty when there is none. -/
  invocationName : Text
  /-- The intents. -/
  intents : List IntentEntry
  /-- The value types. -/
  types : List TypeEntry
  deriving Repr, DecidableEq

/-- The entry of an intent. -/
def intentEntry (intent : Expanded) : IntentEntry where
  name := intent.name
  slots := intent.slots.map fun slot => ⟨slot.name, slot.typeName⟩
  samples := intent.sentences.map sample

/-- The entry of an entity. -/
def typeEntry (entity : Expanded) : TypeEntry where
  name := entity.name
  values := entity.sentences

/-- **The interaction model of a compiled model**, with a warning when
there is no invocation name. -/
def ofCompiled (c : Compiled) : Logged Document where
  value :=
    { invocationName := c.invocationName.getD []
      intents := c.intents.map intentEntry
      types := c.entities.map typeEntry }
  events := if c.invocationName.isNone then [.invocationMissing] else []

/-- A field that is left out when its list is empty. -/
def listField (name : String) : List Json → List (String × Json)
  | [] => []
  | items => [(name, .arr items)]

/-- The document as JSON. -/
def Document.toJson (d : Document) : Json :=
  let slot (s : SlotEntry) : Json := .obj [("name", .str s.name), ("type", .str s.type)]
  let intent (i : IntentEntry) : Json :=
    .obj (("name", .str i.name) :: listField "slots" (i.slots.map slot) ++
      listField "samples" (i.samples.map .str))
  let value (v : Text) : Json := .obj [("name", .obj [("value", .str v)])]
  let type (t : TypeEntry) : Json :=
    .obj [("name", .str t.name), ("values", .arr (t.values.map value))]
  .obj [("interactionModel", .obj [("languageModel", .obj
    [("invocationName", .str d.invocationName),
      ("intents", .arr (d.intents.map intent)),
      ("types", .arr (d.types.map type))])])]

end Alexa

end Utterance

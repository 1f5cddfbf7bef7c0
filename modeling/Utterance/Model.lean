import Utterance.Collection
import Utterance.Variables

/-!
# The model — everything the sources declare

A model holds the invocation name, the language, the variables and the
two lists of collections. A collection is opened by kind and name and
made when the name is new (`Model.openCollection`), so that a kind has
at most one collection of each name.
-/

namespace Utterance

/-- What the sources loaded so far declare. -/
structure Model where
  /-- What a speaker says to start the application. -/
  invocationName : Option Text := none
  /-- The language code. -/
  language : Text := "en-US".toList
  /-- The variables. -/
  vars : Variables := {}
  /-- The intents in the order they were first opened. -/
  intents : List Collection := []
  /-- The entities in the order they were first opened. -/
  entities : List Collection := []
  deriving Repr, DecidableEq

namespace Model

/-- The collections of a kind. -/
def collections (m : Model) : Kind → List Collection
  | .intent => m.intents
  | .entity => m.entities

/-- The model with other collections of a kind. -/
def withCollections (m : Model) : Kind → List Collection → Model
  | .intent, cs => { m with intents := cs }
  | .entity, cs => { m with entities := cs }

/-- The collection of a kind and name. -/
def collection? (m : Model) (kind : Kind) (name : Text) : Option Collection :=
  (m.collections kind).find? fun c => c.name == name

/-- The place of a name among the collections of a kind, or the place
after the last one. -/
def position (m : Model) (kind : Kind) (name : Text) : Nat :=
  (m.collections kind).findIdx fun c => c.name == name

/-- Open a collection, making it when the name is new. -/
def openCollection (m : Model) (kind : Kind) (name : Text) : Model :=
  if (m.collection? kind name).isSome then m
  else m.withCollections kind (m.collections kind ++ [{ name := name, kind := kind }])

/-- Change the collection of a kind and name. -/
def modifyCollection (m : Model) (kind : Kind) (name : Text)
    (change : Collection → Collection) : Model :=
  m.withCollections kind ((m.collections kind).modify (m.position kind name) change)

/-- The model with a variable defined. -/
def defineVariable (m : Model) (name definition : Text) : Model :=
  { m with vars := m.vars.define name definition }

@[simp] theorem collections_withCollections (m : Model) (kind : Kind) (cs : List Collection) :
    (m.withCollections kind cs).collections kind = cs := by
  cases kind <;> rfl

/-- The collections of one kind do not depend on those of the other. -/
theorem collections_withCollections_of_ne (m : Model) {kind other : Kind} (h : other ≠ kind)
    (cs : List Collection) : (m.withCollections kind cs).collections other = m.collections other := by
  cases kind <;> cases other <;> first | rfl | exact absurd rfl h

end Model

end Utterance

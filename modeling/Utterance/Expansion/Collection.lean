import Utterance.Expansion.Run
import Utterance.Model

/-!
# Expanded collections and compiled models

Expanding a collection expands its templates in order and puts their
sentences and diagnostics one after another. Compiling a model expands
every collection. In sorted order the sentences of a collection ascend,
and so do the names of the collections of a kind, which makes the result
independent of the order of declarations; a stable sort keeps what is
equal in its order.
-/

namespace Utterance

/-- The order of the results of an expansion. -/
inductive Order where
  /-- As they come. -/
  | found
  /-- Sorted. -/
  | ascending
  deriving Repr, DecidableEq

namespace Order

/-- Bring a list into an order, by a key. -/
def arrange {α : Type} (key : α → Text) : Order → List α → List α
  | found, items => items
  | ascending, items => items.mergeSort fun a b => Text.ascending (key a) (key b)

/-- **Ordering loses nothing.** -/
theorem arrange_perm {α : Type} (key : α → Text) (order : Order) (items : List α) :
    (order.arrange key items).Perm items := by
  cases order
  · exact List.Perm.refl _
  · exact List.mergeSort_perm _ _

end Order

/-- An intent or entity after expansion. -/
structure Expanded where
  /-- The name. -/
  name : Text
  /-- Intent or entity. -/
  kind : Kind
  /-- The declared slots. -/
  slots : List Slot
  /-- The sentences. -/
  sentences : List Text
  /-- What was found in the templates. -/
  diagnostics : List Diagnostic
  deriving Repr, DecidableEq

namespace Expanded

/-- The declared slot of a name. -/
def slot? (e : Expanded) (name : Text) : Option Slot :=
  Slot.find? e.slots name

end Expanded

namespace Collection

/-- The runs of the templates, in order. -/
def runs (fuel : Nat) (vars : Variables) (c : Collection) : Option (List Run) :=
  c.templates.mapM (Run.of fuel vars c.slotTable? (some c.name))

/-- What the runs of a collection's templates make of it. -/
def gather (order : Order) (c : Collection) (runs : List Run) : Expanded where
  name := c.name
  kind := c.kind
  slots := c.slots
  sentences := order.arrange id (runs.flatMap Run.sentences)
  diagnostics := runs.flatMap Run.diagnostics

/-- **Expand a collection.** The bound on the number of steps holds for
each template. -/
def expand (fuel : Nat) (vars : Variables) (order : Order) (c : Collection) :
    Option (Logged Expanded) :=
  (c.runs fuel vars).map fun runs =>
    { value := c.gather order runs
      events := .processing c.kind c.name c.templates.length :: runs.flatMap Run.events }

end Collection

/-- A model with all its collections expanded. -/
structure Compiled where
  /-- The invocation name. -/
  invocationName : Option Text
  /-- The language code. -/
  language : Text
  /-- The intents. -/
  intents : List Expanded
  /-- The entities. -/
  entities : List Expanded
  deriving Repr, DecidableEq

namespace Compiled

/-- All collections, the intents first. -/
def collections (c : Compiled) : List Expanded :=
  c.intents ++ c.entities

/-- All diagnostics, those of the intents first. -/
def diagnostics (c : Compiled) : List Diagnostic :=
  c.collections.flatMap Expanded.diagnostics

/-- The number of sentences. -/
def sentenceCount (c : Compiled) : Nat :=
  (c.collections.flatMap Expanded.sentences).length

/-- The expanded collection of a kind and name. -/
def collection? (c : Compiled) (kind : Kind) (name : Text) : Option Expanded :=
  let all := match kind with
    | .intent => c.intents
    | .entity => c.entities
  all.find? fun e => e.name == name

/-- The first two letters of a language code, or a code that has no first
two letters. -/
def shortCode (code : Text) : Text :=
  (code.bytePrefix? 2).getD code

/-- The short language code. -/
def shortLanguage (c : Compiled) : Text :=
  shortCode c.language

end Compiled

namespace Model

/-- **Compile a model.** The bound on the number of steps holds for each
template. -/
def compile (fuel : Nat) (order : Order) (m : Model) : Option (Logged Compiled) := do
  let intents ← m.intents.mapM (Collection.expand fuel m.vars order)
  let entities ← m.entities.mapM (Collection.expand fuel m.vars order)
  let compiled : Compiled :=
    { invocationName := m.invocationName
      language := m.language
      intents := order.arrange Expanded.name (intents.map Logged.value)
      entities := order.arrange Expanded.name (entities.map Logged.value) }
  let summary := Event.compiled compiled.intents.length compiled.entities.length
    compiled.sentenceCount
  return { value := compiled, events := (intents ++ entities).flatMap Logged.events ++ [summary] }

end Model

end Utterance

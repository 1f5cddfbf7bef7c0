import Utterance.Error
import Utterance.Export.Alexa
import Utterance.Export.Dialogflow
import Utterance.Files.Access

/-!
# Writing the exports

The documents of a compiled model are written below a folder that must be
there already. Writing stops at the first refusal, and what was written
before stays. Each writer returns the paths it wrote, in order.
-/

namespace Utterance

/-- Actions that tell events and may fail; the events told before a
failure are kept. The last event comes first. -/
abbrev Action (m : Type → Type) := ExceptT Error (StateT (List Event) m)

namespace Export

variable {m : Type → Type} [Monad m]

/-- Tell an event. -/
def tell (event : Event) : Action m Unit :=
  modify (event :: ·)

/-- Tell the events of an operation and go on with its value. -/
def telling {α : Type} (logged : Logged α) : Action m α := do
  modify (logged.events.reverse ++ ·)
  return logged.value

variable [FileAccess m]

/-- Ask the file system; a refusal is an error. -/
def request {α : Type} (operation : m (Except FileError α)) : Action m α := do
  match ← operation with
  | .ok value => return value
  | .error e => throw (.io e.message)

/-- Fail unless there is a folder at a path. -/
def requireFolder (folder : Text) : Action m Unit := do
  let there ← (FileAccess.isFolder folder : m Bool)
  unless there do
    throw (.engine s!"Output folder does not exist: '{folder.str}'")

/-- Write a JSON document. -/
def writeJson (path : Text) (value : Json) : Action m Unit :=
  request (FileAccess.write path value.document)

/-- **Write the interaction model**, as `<language>.json`. -/
def writeAlexa (c : Compiled) (folder : Text) : Action m Text := do
  requireFolder folder
  let path := Path.join folder (c.language ++ ".json".toList)
  let document ← telling (Alexa.ofCompiled c)
  writeJson path document.toJson
  tell (.writing path)
  return path

/-- Write the two documents of a collection, its definition and its
contents. -/
def writePair (folder name contentsSuffix : Text) (definition contents : Json) :
    Action m (List Text) := do
  let definitionPath := Path.join folder (name ++ ".json".toList)
  writeJson definitionPath definition
  let contentsPath := Path.join folder (name ++ contentsSuffix ++ ".json".toList)
  -- the log names the second document, before it is written
  tell (.writing contentsPath)
  writeJson contentsPath contents
  return [definitionPath, contentsPath]

/-- Write the documents of some collections into a folder of their own,
which is made unless there are none. -/
def writeAll (folder : Text) (collections : List Expanded)
    (writeOne : Expanded → Action m (List Text)) : Action m (List Text) := do
  if collections.isEmpty then return []
  request (FileAccess.makeFolder folder)
  let paths ← collections.mapM writeOne
  return paths.flatten

/-- **Write the agent**: the folders `intents` and `entities` with two
documents for each collection. -/
def writeDialogflow (c : Compiled) (folder : Text) : Action m (List Text) := do
  requireFolder folder
  let intentFolder := Path.join folder "intents".toList
  let entityFolder := Path.join folder "entities".toList
  let intents ← writeAll intentFolder c.intents fun intent =>
    writePair intentFolder intent.name ("_usersays_".toList ++ c.shortLanguage)
      (Dialogflow.intentDefinition intent).toJson
      (Dialogflow.userSaysJson (Dialogflow.userSays intent))
  let entities ← writeAll entityFolder c.entities fun entity =>
    writePair entityFolder entity.name ("_entries_".toList ++ c.shortLanguage)
      (Dialogflow.entityJson entity) (Dialogflow.entriesJson entity)
  return intents ++ entities

end Export

end Utterance

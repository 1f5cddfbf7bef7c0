import Utterance.Expansion.Collection
import Utterance.Loading

/-!
# Workspaces

A workspace accumulates sources under one size limit. A source that is
refused leaves the workspace as it was (`Workspace.add`).
-/

namespace Utterance

/-- The sources loaded so far and the model they make. -/
structure Workspace where
  /-- The model. -/
  model : Model := {}
  /-- The names of the sources, in the order they were loaded. -/
  sources : List Text := []
  /-- The largest source that is accepted, in bytes. -/
  limit : Nat := 5 * 1024 * 1024
  deriving Repr, DecidableEq

namespace Workspace

/-- **Load a source**, and tell how it went. -/
def add (w : Workspace) (text source : Text) : Logged (Except Error Workspace) :=
  let loaded := w.model.load w.limit text (some source)
  match loaded.value with
  | .ok model =>
    { value := .ok { w with model, sources := w.sources ++ [source] }
      events := loaded.events ++ [.loaded source] }
  | .error e => { value := .error e, events := loaded.events }

/-- All collections, the intents first. -/
def collections (w : Workspace) : List Collection :=
  w.model.intents ++ w.model.entities

/-- Compile the model. -/
def compile (fuel : Nat) (order : Order) (w : Workspace) : Option (Logged Compiled) :=
  w.model.compile fuel order

/-- The run of a template of its own, without slots to check. -/
def run (fuel : Nat) (w : Workspace) (template : Text) : Option Run :=
  Run.of fuel w.model.vars none none { text := template }

end Workspace

end Utterance

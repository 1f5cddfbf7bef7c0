import Utterance.Distinct
import Utterance.Event
import Utterance.Expansion.Worklist

/-!
# Runs — what an expansion yields

A run is the list of visits of one template, with what the visits are
read against: the variables, and the slots of the intent when
placeholders are to be checked. Everything an expansion yields is read
off the visits. The sentences are the concrete fragments that are not
empty (`Run.sentences`), the diagnostics are the findings of the visits,
each different one once (`Run.diagnostics`), and the log tells both in
the order of the visits (`Run.events`).
-/

namespace Utterance

/-- A finished expansion of one template. -/
structure Run where
  /-- The template. -/
  template : Template
  /-- The collection the template belongs to. -/
  collection : Option Text
  /-- The variables. -/
  vars : Variables
  /-- The slots that placeholders are checked against. -/
  slots : Option (List Slot)
  /-- The visits, in order. -/
  visits : List Visit

namespace Visit

/-- The sentence that a visit finishes. -/
def sentence? (visit : Visit) : Option Text :=
  match visit.shape with
  | .concrete => if visit.fragment.isEmpty then none else some visit.fragment
  | _ => none

/-- What a visit finds. -/
def findings (vars : Variables) (slots : Option (List Slot)) (visit : Visit) : List Finding :=
  match visit.shape with
  | .concrete =>
    match slots with
    | some slots => (Slot.undeclared slots visit.fragment).map (.undefinedSlot · visit.fragment)
    | none => []
  | .reference _ name _ =>
    match vars.get? name with
    | some _ => []
    | none => [.undefinedVariable name]
  | .choice .. | .optional .. => []
  | .stuck => [.stuckFragment visit.fragment]

/-- Whether a visit ends in an empty text. -/
def isDiscarded (visit : Visit) : Bool :=
  visit.shape = .concrete && visit.fragment.isEmpty

end Visit

namespace Run

/-- Expand a template, with a bound on the number of steps. -/
def of (fuel : Nat) (vars : Variables) (slots : Option (List Slot)) (collection : Option Text)
    (template : Template) : Option Run :=
  (Worklist.visits vars fuel template.text).map fun visits =>
    { template := template, collection := collection, vars := vars, slots := slots,
      visits := visits }

/-- The sentences, in the order in which they were finished. -/
def sentences (run : Run) : List Text :=
  run.visits.filterMap Visit.sentence?

/-- Everything that was found, in order. -/
def findings (run : Run) : List Finding :=
  run.visits.flatMap (Visit.findings run.vars run.slots)

/-- The diagnostics: every finding once, where it first arose. -/
def diagnostics (run : Run) : List Diagnostic :=
  (distinct run.findings).map (Diagnostic.of run.template run.collection)

/-- The part of the log that a visit writes, given what was found before:
the events in reverse, and what is found by then. -/
def tell (run : Run) (log : List Event × Std.HashSet Finding) (visit : Visit) :
    List Event × Std.HashSet Finding :=
  let seen := Event.visited visit.fragment visit.shape :: log.1
  if visit.isDiscarded then (Event.discarded run.template.text :: seen, log.2)
  else
    (visit.findings run.vars run.slots).foldl
      (fun (events, found) finding =>
        -- the same finding is told once for each template
        if found.contains finding then (events, found)
        else
          (Event.diagnosed (Diagnostic.of run.template run.collection finding) :: events,
            found.insert finding))
      (seen, log.2)

/-- The log of a run. -/
def events (run : Run) : List Event :=
  let told := (run.visits.foldl run.tell ([], ∅)).1
  (Event.expanded run.template.text run.visits.length run.sentences.length :: told).reverse

/-- Every finding is reported once, where it first arose. -/
theorem diagnostics_eq (run : Run) :
    run.diagnostics = run.findings.eraseDups.map (Diagnostic.of run.template run.collection) := by
  rw [diagnostics, distinct_eq]

end Run

/-- The sentences of a template without slots, sorted. -/
def expand (fuel : Nat) (vars : Variables) (template : Text) : Option (List Text) :=
  (Run.of fuel vars none none { text := template }).map fun run =>
    run.sentences.mergeSort Text.ascending

end Utterance

import Utterance.Slot
import Utterance.Span

/-!
# Collections — intents and entities with their templates

A template is one sentence pattern with the place it was written at. An
intent or entity is a named list of templates; an intent also declares
slots, each name once: the first declaration wins (`declareSlot`). Sources
add templates one after another, so the last one is kept in front, and
`templates` reads them in order (`templates_addTemplate`).
-/

namespace Utterance

/-- A sentence pattern, with the source it comes from and the place in it
when they are known. -/
structure Template where
  /-- The pattern. -/
  text : Text
  /-- The name of the source. -/
  source : Option Text := none
  /-- The place of its line. -/
  span : Option Span := none
  deriving Repr, DecidableEq

/-- What a collection describes. -/
inductive Kind where
  /-- What a speaker may want. -/
  | intent
  /-- The values of a type. -/
  | entity
  deriving Repr, DecidableEq

namespace Kind

/-- The word for a kind. -/
def name : Kind → String
  | .intent => "intent"
  | .entity => "entity"

end Kind

/-- An intent or entity. -/
structure Collection where
  /-- The name, unique within its kind. -/
  name : Text
  /-- Intent or entity. -/
  kind : Kind
  /-- The templates, the one that was declared last in front. -/
  latestFirst : List Template := []
  /-- The declared slots, of an intent. -/
  slots : List Slot := []
  deriving Repr, DecidableEq

namespace Collection

/-- The declared slot of a name. -/
def slot? (c : Collection) (name : Text) : Option Slot :=
  Slot.find? c.slots name

/-- Declare a slot; a name that is already declared keeps its first
declaration. -/
def declareSlot (c : Collection) (slot : Slot) : Collection :=
  if (c.slot? slot.name).isSome then c else { c with slots := c.slots ++ [slot] }

/-- The templates in the order they were declared. -/
def templates (c : Collection) : List Template :=
  c.latestFirst.reverse

/-- Add a template at the end. -/
def addTemplate (c : Collection) (t : Template) : Collection :=
  { c with latestFirst := t :: c.latestFirst }

/-- The slots that placeholders are checked against; the placeholders of
an entity are taken as they are. -/
def slotTable? (c : Collection) : Option (List Slot) :=
  match c.kind with
  | .intent => some c.slots
  | .entity => none

/-- **A new template comes last.** -/
@[simp] theorem templates_addTemplate (c : Collection) (t : Template) :
    (c.addTemplate t).templates = c.templates ++ [t] := by
  simp [addTemplate, templates]

/-- Declaring a slot leaves the templates as they are. -/
@[simp] theorem templates_declareSlot (c : Collection) (slot : Slot) :
    (c.declareSlot slot).templates = c.templates := by
  unfold declareSlot
  split <;> rfl

/-- Collections are equal when they are called the same and hold the same
templates and slots in the same order. -/
theorem eq_of_templates_eq {c d : Collection} (hname : c.name = d.name) (hkind : c.kind = d.kind)
    (htemplates : c.templates = d.templates) (hslots : c.slots = d.slots) : c = d := by
  obtain ⟨_, _, latest, _⟩ := c
  obtain ⟨_, _, latest', _⟩ := d
  obtain rfl : latest = latest' := List.reverse_inj.1 htemplates
  simp_all

/-- Slot names stay distinct. -/
theorem nodup_declareSlot {c : Collection} (slot : Slot) (h : (c.slots.map Slot.name).Nodup) :
    ((c.declareSlot slot).slots.map Slot.name).Nodup := by
  unfold declareSlot
  split
  · exact h
  · rename_i hn
    have hnot : ∀ s ∈ c.slots, ¬ s.name = slot.name := by
      simpa [slot?, Slot.find?] using hn
    simp only [List.map_append, List.map_cons, List.map_nil]
    refine List.nodup_append.2 ⟨h, by simp, ?_⟩
    simp only [List.mem_map, List.mem_singleton]
    rintro _ ⟨s, hs, rfl⟩ _ rfl
    exact hnot s hs

end Collection

end Utterance

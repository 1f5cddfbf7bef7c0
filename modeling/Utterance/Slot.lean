import Utterance.Sentence

/-!
# Slots

A slot is what a placeholder of an intent stands for. It may have a type
and an example. The slots a sentence uses without a declaration are its
undeclared ones (`Slot.undeclared`).
-/

namespace Utterance

/-- A slot of an intent. -/
structure Slot where
  /-- The name placeholders use. -/
  name : Text
  /-- The declared type. -/
  type : Option Text := none
  /-- A sample value. -/
  «example» : Option Text := none
  deriving Repr, DecidableEq

namespace Slot

/-- The declared type, or else the slot's own name. -/
def typeName (slot : Slot) : Text :=
  slot.type.getD slot.name

/-- The slot of a name in a table. -/
def find? (slots : List Slot) (name : Text) : Option Slot :=
  List.find? (fun slot => slot.name == name) slots

/-- The slots that a sentence names and a table does not declare, in the
order of their first placeholder. -/
def undeclared (slots : List Slot) (sentence : Text) : List Text :=
  ((Sentence.slotNames sentence).filter fun name => (find? slots name).isNone).eraseDups

end Slot

end Utterance

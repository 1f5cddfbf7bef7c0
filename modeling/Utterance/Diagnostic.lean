import Utterance.Collection

/-!
# Diagnostics — what an expansion could not use

A finding is a cause: a placeholder without a declared slot, a variable
without a definition, or a fragment that is stuck. None of them stops an
expansion. A diagnostic ties a finding to the template it arose in.
-/

namespace Utterance

/-- What went wrong while a template was expanded. -/
inductive Finding where
  /-- A finished sentence names a slot that its intent does not declare. -/
  | undefinedSlot (slot sentence : Text)
  /-- A variable without a definition, expanded as an empty group. -/
  | undefinedVariable (name : Text)
  /-- A fragment in which nothing can be resolved; it is dropped. -/
  | stuckFragment (fragment : Text)
  deriving Repr, DecidableEq

namespace Finding

/-- The text of a finding. -/
def message : Finding → String
  | undefinedSlot slot sentence =>
    s!"Undefined slot '{slot.str}' referenced by sentence \"{sentence.str}\""
  | undefinedVariable name => s!"Undefined variable '${name.str}' expanded as empty text"
  | stuckFragment fragment => s!"Cannot parse fragment \"{fragment.str}\""

/-- The hash of a text, from its characters in order. -/
def textHash (s : Text) : UInt64 :=
  s.foldl (fun h c => mixHash h c.toNat.toUInt64) 7

instance : Hashable Finding where
  hash
    | undefinedSlot slot sentence => mixHash (textHash slot) (textHash sentence)
    | undefinedVariable name => mixHash 1 (textHash name)
    | stuckFragment fragment => mixHash 2 (textHash fragment)

end Finding

/-- A finding with the template it arose in. -/
structure Diagnostic where
  /-- What was found. -/
  finding : Finding
  /-- The collection of the template. -/
  collection : Option Text := none
  /-- The text of the template. -/
  template : Text
  /-- The source of the template. -/
  source : Option Text := none
  /-- The place of the template in its source. -/
  span : Option Span := none
  deriving Repr, DecidableEq

namespace Diagnostic

/-- The diagnostic of a finding in a template. -/
def of (template : Template) (collection : Option Text) (finding : Finding) : Diagnostic :=
  { finding, collection, template := template.text, source := template.source,
    span := template.span }

/-- The source and line of the template, as far as they are known; a line
without a source says nothing. -/
def location? (d : Diagnostic) : Option String :=
  d.source.map fun source =>
    match d.span with
    | some span => s!"{source.str}:{span.line}"
    | none => source.str

/-- The text of a diagnostic. -/
def message (d : Diagnostic) : String :=
  let within := (d.collection.map fun name => s!" in '{name.str}'").getD ""
  let location := (d.location?.map fun place => s!" at {place}").getD ""
  s!"{d.finding.message} (template \"{d.template.str}\"{within}{location})"

end Diagnostic

end Utterance

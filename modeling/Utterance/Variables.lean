import Utterance.Text.Lower

/-!
# Variables

A table of variables maps names, compared in lower case, to definitions.
A later definition of a name replaces the earlier one in its place
(`lookup_put`).
-/

namespace Utterance

/-- The definitions of variables, by name in lower case, in the order in
which the names first came up. -/
structure Variables where
  /-- Names in lower case with their definitions. -/
  entries : List (Text × Text) := []
  deriving Repr, DecidableEq

namespace Variables

/-- The table without variables. -/
def empty : Variables := {}

/-- The definition of a name, in whatever case it is written. -/
def get? (vars : Variables) (name : Text) : Option Text :=
  vars.entries.lookup name.lower

/-- The number of variables. -/
def size (vars : Variables) : Nat :=
  vars.entries.length

/-- The entries with one definition added, or replaced in its place. -/
def put (key definition : Text) : List (Text × Text) → List (Text × Text)
  | [] => [(key, definition)]
  | (k, d) :: rest =>
    if key = k then (k, definition) :: rest else (k, d) :: put key definition rest

/-- Define a name, or define it anew. -/
def define (vars : Variables) (name definition : Text) : Variables :=
  ⟨put name.lower definition vars.entries⟩

/-- The table that a list of definitions leaves, made one after another. -/
def ofList (definitions : List (Text × Text)) : Variables :=
  definitions.foldl (fun vars (name, definition) => vars.define name definition) empty

theorem lookup_put (key definition name : Text) (entries : List (Text × Text)) :
    (put key definition entries).lookup name =
      if name = key then some definition else entries.lookup name := by
  induction entries with
  | nil =>
    by_cases h : name = key
    · simp [put, h]
    · simp [put, List.lookup_cons, h, beq_false_of_ne h]
  | cons entry rest ih =>
    obtain ⟨k, d⟩ := entry
    simp only [put]
    by_cases hk : key = k
    · subst hk
      by_cases h : name = key
      · simp [h]
      · simp [List.lookup_cons, h, beq_false_of_ne h]
    · by_cases h : name = key
      · subst h; simp [List.lookup_cons, beq_false_of_ne hk, hk, ih]
      · simp [List.lookup_cons, ih, h, hk]

end Variables

end Utterance

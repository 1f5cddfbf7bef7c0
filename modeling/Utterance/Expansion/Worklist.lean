import Utterance.Fragment
import Utterance.Variables

/-!
# The worklist — which fragments an expansion visits

A template is expanded by a stack of fragments. The fragment on top is
visited: its shape is determined and the construct it names is resolved,
which leaves successors, one for each way to resolve it
(`Shape.successors`). They are pushed in order, so that the last one is
visited next. The run is over when the stack is empty.

A variable may lead back to itself, and then the stack never runs empty.
The run therefore takes an explicit number of steps it may make,
`none` meaning that they did not suffice. How many are allowed does not
matter once they suffice (`run_mono`), and what was visited before plays
no part in what comes after (`run_visited`).
-/

namespace Utterance

/-- The fragments that are left when the next construct of a fragment is
resolved. A definition is put between round brackets, so that a bar in it
stays inside; a variable without a definition leaves an empty group. -/
def Shape.successors (vars : Variables) : Shape → List Text
  | .concrete | .stuck => []
  | .reference before name after =>
    [before ++ '(' :: (vars.get? name).getD [] ++ ')' :: after]
  | .choice before variants after => variants.map fun v => before ++ v ++ after
  | .optional before variants after => (variants ++ [[]]).map fun v => before ++ v ++ after

/-- A fragment that was taken from the stack, with its shape. -/
structure Visit where
  /-- The fragment. -/
  fragment : Text
  /-- Its shape. -/
  shape : Shape
  deriving Repr, DecidableEq

namespace Visit

/-- The visit of a fragment. -/
def of (fragment : Text) : Visit :=
  ⟨fragment, Fragment.classify fragment⟩

/-- The fragments that a visit puts on the stack, the next one first. -/
def next (vars : Variables) (visit : Visit) : List Text :=
  (visit.shape.successors vars).reverse

end Visit

namespace Worklist

/-- Visit the fragments of a stack until it is empty, with a bound on the
number of steps. The visits made so far are kept in reverse. -/
def run (vars : Variables) : (fuel : Nat) → (stack : List Text) → (visited : List Visit) →
    Option (List Visit)
  | _, [], visited => some visited.reverse
  | 0, _ :: _, _ => none
  | fuel + 1, fragment :: rest, visited =>
    let visit := Visit.of fragment
    run vars fuel (visit.next vars ++ rest) (visit :: visited)

/-- The fragment that a template starts from: the template between round
brackets, so that a bar on its top level divides the whole of it. -/
def seed (template : Text) : Text :=
  '(' :: template ++ [')']

/-- More steps than any machine makes. -/
def ampleFuel : Nat := 0x4000000000000000

/-- The visits of a template, in order. -/
def visits (vars : Variables) (fuel : Nat) (template : Text) : Option (List Visit) :=
  run vars fuel [seed template] []

variable {vars : Variables} {fuel : Nat} {stack : List Text} {visited : List Visit}

@[simp] theorem run_nil : run vars fuel [] visited = some visited.reverse := by
  cases fuel <;> rfl

theorem run_cons (fragment : Text) :
    run vars (fuel + 1) (fragment :: stack) visited =
      run vars fuel ((Visit.of fragment).next vars ++ stack) (Visit.of fragment :: visited) := rfl

/-- **Earlier visits play no part in later ones.** -/
theorem run_visited (fuel : Nat) (stack : List Text) (visited : List Visit) :
    run vars fuel stack visited = (run vars fuel stack []).map (visited.reverse ++ ·) := by
  induction fuel generalizing stack visited with
  | zero => cases stack <;> simp [run]
  | succ fuel ih =>
    cases stack with
    | nil => simp
    | cons fragment stack =>
      rw [run_cons, run_cons, ih, ih _ [Visit.of fragment]]
      cases run vars fuel ((Visit.of fragment).next vars ++ stack) [] <;> simp

/-- A run visits the fragment on top and goes on with what it leaves. -/
theorem run_cons_eq_map (fuel : Nat) (fragment : Text) (stack : List Text) :
    run vars (fuel + 1) (fragment :: stack) [] =
      (run vars fuel ((Visit.of fragment).next vars ++ stack) []).map
        (Visit.of fragment :: ·) := by
  rw [run_cons, run_visited]
  rfl

/-- **More steps never change a finished run.** -/
theorem run_mono {more : Nat} {visits : List Visit}
    (h : run vars fuel stack visited = some visits) (hle : fuel ≤ more) :
    run vars more stack visited = some visits := by
  induction fuel generalizing stack visited more with
  | zero =>
    cases stack with
    | nil => simpa using h
    | cons _ _ => simp [run] at h
  | succ fuel ih =>
    cases stack with
    | nil => simpa using h
    | cons fragment stack =>
      obtain ⟨more, rfl⟩ : ∃ m, more = m + 1 := ⟨more - 1, by omega⟩
      rw [run_cons] at h ⊢
      exact ih h (by omega)

end Worklist

end Utterance

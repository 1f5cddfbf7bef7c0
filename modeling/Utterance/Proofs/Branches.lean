import Utterance.Expansion.Run

/-!
# Branches — the stack read as a tree

The worklist is one stack that all pending fragments share. Each fragment
on it is worked off together with all that it leads to before the one
below it is touched, so what is visited from a fragment can be said by
recursion on the fragments it leaves (`Worklist.branch`). A run from a
fragment and the recursion from it end together and visit the same
(`exists_run_iff`), which is how everything about runs is proved here: by
induction on the depth of the recursion.
-/

namespace Utterance

namespace Worklist

/-- The visits of a fragment and of all that it leads to, with a bound on
the depth. -/
def branch (vars : Variables) : (depth : Nat) → Text → Option (List Visit)
  | 0, _ => none
  | depth + 1, f =>
    (((Visit.of f).next vars).mapM (branch vars depth)).map fun parts =>
      Visit.of f :: parts.flatten

/-- The visits of the fragments of a stack, one after another. -/
def branches (vars : Variables) (depth : Nat) (stack : List Text) : Option (List Visit) :=
  (stack.mapM (branch vars depth)).map List.flatten

variable {vars : Variables} {depth : Nat} {visits : List Visit}

@[simp] theorem branches_nil : branches vars depth [] = some [] := rfl

theorem branches_cons {f : Text} {stack : List Text} :
    branches vars depth (f :: stack) = some visits ↔
      ∃ first rest, branch vars depth f = some first ∧ branches vars depth stack = some rest ∧
        visits = first ++ rest := by
  simp only [branches, List.mapM_cons, Option.map_eq_some_iff, Option.bind_eq_bind,
    Option.bind_eq_some_iff, Option.pure_def, Option.some.injEq]
  constructor
  · rintro ⟨_, ⟨first, h1, parts, h2, rfl⟩, rfl⟩
    exact ⟨first, parts.flatten, h1, ⟨parts, h2, rfl⟩, by simp⟩
  · rintro ⟨first, _, h1, ⟨parts, h2, rfl⟩, rfl⟩
    exact ⟨first :: parts, ⟨first, h1, parts, h2, rfl⟩, by simp⟩

theorem branches_singleton (f : Text) : branches vars depth [f] = branch vars depth f := by
  simp only [branches, List.mapM_cons, List.mapM_nil]
  cases branch vars depth f <;> simp

theorem branches_append {upper lower : List Text} :
    branches vars depth (upper ++ lower) = some visits ↔
      ∃ first rest, branches vars depth upper = some first ∧
        branches vars depth lower = some rest ∧ visits = first ++ rest := by
  induction upper generalizing visits with
  | nil => simp
  | cons f upper ih =>
    simp only [List.cons_append, branches_cons, ih]
    constructor
    · rintro ⟨a, _, ha, ⟨b, c, hb, hc, rfl⟩, rfl⟩
      exact ⟨a ++ b, c, ⟨a, b, ha, hb, rfl⟩, hc, by simp⟩
    · rintro ⟨_, c, ⟨a, b, ha, hb, rfl⟩, hc, rfl⟩
      exact ⟨a, b ++ c, ha, ⟨b, c, hb, hc, rfl⟩, by simp⟩

/-- A branch is a visit of its fragment and then the branches of what the
visit leaves. -/
theorem branch_eq (f : Text) :
    branch vars (depth + 1) f =
      (branches vars depth ((Visit.of f).next vars)).map (Visit.of f :: ·) := by
  rw [branch, branches, Option.map_map]
  rfl

theorem branch_succ {f : Text} :
    branch vars (depth + 1) f = some visits ↔
      ∃ rest, branches vars depth ((Visit.of f).next vars) = some rest ∧
        visits = Visit.of f :: rest := by
  rw [branch_eq, Option.map_eq_some_iff]
  exact exists_congr fun rest => and_congr_right fun _ => eq_comm

theorem branches_mono_of {deeper : Nat} {stack : List Text}
    (hmono : ∀ f visits, branch vars depth f = some visits → branch vars deeper f = some visits)
    (h : branches vars depth stack = some visits) : branches vars deeper stack = some visits := by
  induction stack generalizing visits with
  | nil => exact h
  | cons f stack ih =>
    obtain ⟨first, rest, h1, h2, rfl⟩ := branches_cons.1 h
    exact branches_cons.2 ⟨first, rest, hmono f first h1, ih h2, rfl⟩

/-- **A greater depth never changes a finished branch.** -/
theorem branch_mono {deeper : Nat} {f : Text} (h : branch vars depth f = some visits)
    (hle : depth ≤ deeper) : branch vars deeper f = some visits := by
  induction depth generalizing f visits deeper with
  | zero => simp [branch] at h
  | succ depth ih =>
    obtain ⟨deeper, rfl⟩ : ∃ m, deeper = m + 1 := ⟨deeper - 1, by omega⟩
    obtain ⟨rest, hrest, rfl⟩ := branch_succ.1 h
    exact branch_succ.2
      ⟨rest, branches_mono_of (fun f visits h => ih h (by omega)) hrest, rfl⟩

/-- What a fragment leads to does not depend on the bound. -/
theorem branch_unique {other : Nat} {visits' : List Visit} {f : Text}
    (h : branch vars depth f = some visits) (h' : branch vars other f = some visits') :
    visits = visits' := by
  have h1 := branch_mono h (Nat.le_max_left depth other)
  have h2 := branch_mono h' (Nat.le_max_right depth other)
  exact Option.some.inj (h1.symm.trans h2)

theorem branches_mono {deeper : Nat} {stack : List Text}
    (h : branches vars depth stack = some visits) (hle : depth ≤ deeper) :
    branches vars deeper stack = some visits :=
  branches_mono_of (fun _ _ h => branch_mono h hle) h

/-- **The expansion of a fragment ends.** -/
def Ends (vars : Variables) (f : Text) : Prop :=
  ∃ depth visits, branch vars depth f = some visits

theorem exists_branches {stack : List Text} (h : ∀ f ∈ stack, Ends vars f) :
    ∃ depth visits, branches vars depth stack = some visits := by
  induction stack with
  | nil => exact ⟨0, [], rfl⟩
  | cons f stack ih =>
    obtain ⟨d, first, h1⟩ := h f (by simp)
    obtain ⟨e, rest, h2⟩ := ih fun g hg => h g (by simp [hg])
    exact ⟨max d e, first ++ rest, branches_cons.2
      ⟨first, rest, branch_mono h1 (by omega), branches_mono h2 (by omega), rfl⟩⟩

/-- If the expansions of all fragments that a visit leaves end, so does
that of the fragment visited. -/
theorem ends_of_successors {f : Text}
    (h : ∀ g ∈ (Fragment.classify f).successors vars, Ends vars g) : Ends vars f := by
  obtain ⟨depth, rest, hrest⟩ := exists_branches fun g hg => h g (List.mem_reverse.1 hg)
  exact ⟨depth + 1, _, branch_succ.2 ⟨rest, hrest, rfl⟩⟩

/-- Every visit of the branches of a stack lies in one of them. -/
theorem mem_branches {stack : List Text} {visit : Visit}
    (h : branches vars depth stack = some visits) (hv : visit ∈ visits) :
    ∃ f ∈ stack, ∃ part, branch vars depth f = some part ∧ visit ∈ part := by
  induction stack generalizing visits with
  | nil =>
    obtain rfl : [] = visits := by simpa using h
    simp at hv
  | cons f stack ih =>
    obtain ⟨first, rest, h1, h2, rfl⟩ := branches_cons.1 h
    rcases List.mem_append.1 hv with hv | hv
    · exact ⟨f, by simp, first, h1, hv⟩
    · obtain ⟨g, hg, part, hpart, hmem⟩ := ih h2 hv
      exact ⟨g, by simp [hg], part, hpart, hmem⟩

/-- The branches of a stack hold the branch of each of its fragments. -/
theorem subset_branches {stack : List Text} (h : branches vars depth stack = some visits)
    {f : Text} (hf : f ∈ stack) : ∃ part, branch vars depth f = some part ∧ part ⊆ visits := by
  induction stack generalizing visits with
  | nil => simp at hf
  | cons g stack ih =>
    obtain ⟨first, rest, h1, h2, rfl⟩ := branches_cons.1 h
    rcases List.mem_cons.1 hf with rfl | hf
    · exact ⟨first, h1, List.subset_append_left _ _⟩
    · obtain ⟨part, hpart, hsub⟩ := ih h2 hf
      exact ⟨part, hpart, fun _ hv => List.mem_append_right _ (hsub hv)⟩

/-- **What every step keeps, a branch keeps**: a property of the first
fragment that passes to the fragments left by a visit holds of every
fragment visited. -/
theorem forall_mem_branch {P : Text → Prop} {f : Text}
    (hstep : ∀ f, P f → ∀ g ∈ (Fragment.classify f).successors vars, P g)
    (h : branch vars depth f = some visits) (hf : P f) :
    ∀ visit ∈ visits, visit = Visit.of visit.fragment ∧ P visit.fragment := by
  induction depth generalizing f visits with
  | zero => simp [branch] at h
  | succ depth ih =>
    obtain ⟨rest, hrest, rfl⟩ := branch_succ.1 h
    intro visit hv
    rcases List.mem_cons.1 hv with rfl | hv
    · exact ⟨rfl, hf⟩
    · obtain ⟨g, hg, part, hpart, hmem⟩ := mem_branches hrest hv
      exact ih hpart (hstep f hf g (List.mem_reverse.1 hg)) visit hmem

/-! ## Runs and branches -/

/-- What a run visits, the branches of its stack visit. -/
theorem exists_branches_of_run {fuel : Nat} {stack : List Text}
    (h : run vars fuel stack [] = some visits) :
    ∃ depth, branches vars depth stack = some visits := by
  induction fuel generalizing stack visits with
  | zero =>
    cases stack with
    | nil => exact ⟨0, by simpa using h⟩
    | cons _ _ => simp [run] at h
  | succ fuel ih =>
    cases stack with
    | nil => exact ⟨0, by simpa using h⟩
    | cons f stack =>
      rw [run_cons_eq_map, Option.map_eq_some_iff] at h
      obtain ⟨rest, hrest, rfl⟩ := h
      obtain ⟨depth, hd⟩ := ih hrest
      -- what the visit left, and what was on the stack below it
      obtain ⟨a, b, ha, hb, rfl⟩ := branches_append.1 hd
      exact ⟨depth + 1, branches_cons.2 ⟨Visit.of f :: a, b, branch_succ.2 ⟨a, ha, rfl⟩,
        branches_mono hb (by omega), rfl⟩⟩

/-- What the branches of a stack visit, a run visits before it turns to
the stack below. -/
theorem exists_run_of_branches {fuel : Nat} {upper lower : List Text} {below : List Visit}
    (h : branches vars depth upper = some visits) (hlower : run vars fuel lower [] = some below) :
    ∃ fuel, run vars fuel (upper ++ lower) [] = some (visits ++ below) := by
  induction depth generalizing upper lower visits below fuel with
  | zero =>
    cases upper with
    | nil =>
      obtain rfl : [] = visits := by simpa using h
      exact ⟨fuel, hlower⟩
    | cons f upper =>
      obtain ⟨_, _, h1, -⟩ := branches_cons.1 h
      simp [branch] at h1
  | succ depth ih =>
    induction upper generalizing visits with
    | nil =>
      obtain rfl : [] = visits := by simpa using h
      exact ⟨fuel, hlower⟩
    | cons f upper ihu =>
      obtain ⟨_, b, h1, h2, rfl⟩ := branches_cons.1 h
      obtain ⟨a, ha, rfl⟩ := branch_succ.1 h1
      -- the rest of the stack first, then what the visit leaves on top of it
      obtain ⟨_, hrest⟩ := ihu h2
      obtain ⟨n, hn⟩ := ih ha hrest
      exact ⟨n + 1, by rw [List.cons_append, run_cons_eq_map, hn]; simp⟩

/-- **Runs are branches**: a run from one fragment and the recursion from
it end together and visit the same. -/
theorem exists_run_iff {f : Text} :
    (∃ fuel, run vars fuel [f] [] = some visits) ↔ ∃ depth, branch vars depth f = some visits := by
  constructor
  · rintro ⟨fuel, h⟩
    obtain ⟨depth, hd⟩ := exists_branches_of_run h
    exact ⟨depth, by rw [← branches_singleton, hd]⟩
  · rintro ⟨depth, h⟩
    rw [← branches_singleton] at h
    have hnil : run vars 0 [] [] = some [] := run_nil
    obtain ⟨fuel, hf⟩ := exists_run_of_branches h hnil
    exact ⟨fuel, by simpa using hf⟩

end Worklist

/-- The expansion of a template ends, after however many steps, in a
run. -/
def Template.ExpandsTo (template : Template) (vars : Variables) (slots : Option (List Slot))
    (collection : Option Text) (run : Run) : Prop :=
  ∃ fuel, Run.of fuel vars slots collection template = some run

variable {template : Template} {vars : Variables} {slots : Option (List Slot)}
  {collection : Option Text} {run : Run}

/-- An expansion ends where the branch of its first fragment ends. -/
theorem expandsTo_iff :
    template.ExpandsTo vars slots collection run ↔
      ∃ depth visits, Worklist.branch vars depth (Worklist.seed template.text) = some visits ∧
        run = { template, collection, vars, slots, visits } := by
  have same : ∀ {visits}, (∃ fuel, Worklist.visits vars fuel template.text = some visits) ↔
      ∃ depth, Worklist.branch vars depth (Worklist.seed template.text) = some visits :=
    Worklist.exists_run_iff
  constructor
  · rintro ⟨fuel, h⟩
    obtain ⟨visits, hv, rfl⟩ := Option.map_eq_some_iff.1 h
    obtain ⟨depth, hd⟩ := same.1 ⟨fuel, hv⟩
    exact ⟨depth, visits, hd, rfl⟩
  · rintro ⟨depth, visits, hd, rfl⟩
    obtain ⟨fuel, hv⟩ := same.2 ⟨depth, hd⟩
    exact ⟨fuel, Option.map_eq_some_iff.2 ⟨visits, hv, rfl⟩⟩

/-- A template expands in one way only. -/
theorem Template.ExpandsTo.unique {other : Run} (h : template.ExpandsTo vars slots collection run)
    (h' : template.ExpandsTo vars slots collection other) : run = other := by
  obtain ⟨d, visits, hd, rfl⟩ := expandsTo_iff.1 h
  obtain ⟨e, visits', he, rfl⟩ := expandsTo_iff.1 h'
  rw [Worklist.branch_unique hd he]

end Utterance

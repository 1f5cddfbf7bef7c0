import Utterance.Export.Writing
import Utterance.Proofs.Declarations

/-!
# Refusal — a refused source leaves no trace

A workspace is filled by a sequence of loads, each of which is accepted or
refused; a refused source leaves the workspace as it is
(`Workspace.attempt`). How a load goes is the verdict on its source, which
reads the source and the limit and nothing of the workspace. The state that
a sequence leaves is therefore made by its accepted sources alone
(`Workspace.addAll_eq`), and the sequence without its refused sources leads
to the same answers (`Workspace.refused_sources_leave_no_trace`).
-/

namespace Utterance

namespace Workspace

/-- Load a source, and tell whether it was accepted. A workspace that
refuses a source stays as it is. -/
def attempt (w : Workspace) (s : Source) : Except Error Unit × Workspace :=
  match (w.add s.text s.name).value with
  | .ok next => (.ok (), next)
  | .error e => (.error e, w)

/-- **Load some sources** one after another: how each load went, and the
workspace that is left. -/
def addAll (w : Workspace) : List Source → List (Except Error Unit) × Workspace
  | [] => ([], w)
  | s :: rest =>
    let (outcome, next) := w.attempt s
    let (outcomes, last) := next.addAll rest
    (outcome :: outcomes, last)

theorem addAll_append (w : Workspace) (sources later : List Source) :
    (w.addAll (sources ++ later)).2 = ((w.addAll sources).2.addAll later).2 := by
  induction sources generalizing w with
  | nil => rfl
  | cons s rest ih => exact ih _

/-- The sources among some that a limit and their own lines allow. -/
def accepted (limit : Nat) (sources : List Source) : List Source :=
  sources.filter fun s => (s.verdict limit).isOk

/-- **One load** is settled by the verdict on the source. -/
theorem attempt_eq (w : Workspace) (s : Source) :
    w.attempt s =
      match s.verdict w.limit with
      | .ok () =>
        (.ok (), { w with model := w.model.extend s, sources := w.sources ++ [s.name] })
      | .error e => (.error e, w) := by
  have hload : (w.model.load w.limit s.text (some s.name)).value =
      (s.verdict w.limit).map fun _ => w.model.extend s := Model.load_value ..
  unfold attempt add
  simp only [hload]
  cases s.verdict w.limit with
  | error e => rfl
  | ok u => rfl

/-- **A sequence of loads**: every outcome is the verdict on its source, and
the accepted sources extend the model one after another. -/
theorem addAll_eq (w : Workspace) (sources : List Source) :
    w.addAll sources =
      (sources.map (Source.verdict w.limit),
        { w with
          model := (accepted w.limit sources).foldl Model.extend w.model
          sources := w.sources ++ (accepted w.limit sources).map Source.name }) := by
  induction sources generalizing w with
  | nil => simp [addAll, accepted]
  | cons s rest ih =>
    rw [addAll, attempt_eq]
    cases hverdict : s.verdict w.limit with
    | error e =>
      have hdropped : accepted w.limit (s :: rest) = accepted w.limit rest := by
        simp [accepted, hverdict, Except.isOk, Except.toBool]
      simp only [ih, hdropped, List.map_cons, hverdict]
    | ok u =>
      have hkept : accepted w.limit (s :: rest) = s :: accepted w.limit rest := by
        simp [accepted, hverdict, Except.isOk, Except.toBool]
      simp only [ih, hkept, List.map_cons, hverdict, List.foldl_cons, List.append_assoc,
        List.singleton_append]

theorem accepted_append (limit : Nat) (sources later : List Source) :
    accepted limit (sources ++ later) = accepted limit sources ++ accepted limit later :=
  List.filter_append ..

/-- What was accepted once is accepted again. -/
theorem accepted_accepted (limit : Nat) (sources : List Source) :
    accepted limit (accepted limit sources) = accepted limit sources := by
  simp [accepted, List.filter_filter]

/-- **A refused source is invisible, and whether a source is accepted
depends on the source alone.** In every sequence of loads into a workspace,
the outcome of each load is the verdict on its source under the limit. The
sequence without the sources that are refused, followed by any later loads,
leaves the same model and the same list of sources, and is answered in the
same way when the workspace is compiled, its diagnostics are listed or its
documents are written. -/
theorem refused_sources_leave_no_trace (w : Workspace) (sources later : List Source) :
    (w.addAll sources).1 = sources.map (Source.verdict w.limit) ∧
    let full := (w.addAll (sources ++ later)).2
    let pruned := (w.addAll (accepted w.limit sources ++ later)).2
    full.model = pruned.model ∧ full.sources = pruned.sources ∧
    ∀ (fuel : Nat) (order : Order),
      full.compile fuel order = pruned.compile fuel order ∧
      (full.compile fuel order).map (fun c => c.value.diagnostics) =
        (pruned.compile fuel order).map (fun c => c.value.diagnostics) ∧
      ∀ (m : Type → Type) [Monad m] [FileAccess m] (folder : Text),
        (full.compile fuel order).map (fun c => Export.writeAlexa c.value folder) =
          (pruned.compile fuel order).map
            (fun c => (Export.writeAlexa c.value folder : Action m Text)) ∧
        (full.compile fuel order).map (fun c => Export.writeDialogflow c.value folder) =
          (pruned.compile fuel order).map
            (fun c => (Export.writeDialogflow c.value folder : Action m (List Text))) := by
  have hsame : (w.addAll (sources ++ later)).2 =
      (w.addAll (accepted w.limit sources ++ later)).2 := by
    rw [addAll_eq, addAll_eq, accepted_append, accepted_append, accepted_accepted]
  refine ⟨by rw [addAll_eq], ?_⟩
  intro full pruned
  have hanswers : full = pruned := hsame
  rw [hanswers]
  refine ⟨rfl, rfl, fun fuel order => ⟨rfl, rfl, fun m _ _ folder => ⟨rfl, rfl⟩⟩⟩

end Workspace

end Utterance

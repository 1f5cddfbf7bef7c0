import Utterance.Expansion.Run
import Utterance.Proofs.Firsts

/-!
# Logs — what a run tells while it goes on

A run writes a log as it goes from visit to visit, and remembers what it has
found, so that a finding is told once. What the log says about findings is
therefore told by the findings alone: after some visits it has those of the
visits so far, each where it was met first (`Run.told_tell`), and after all of
them the diagnostics of the run (`Run.diagnostics_events`).
-/

namespace Utterance

/-- An empty text misses no slot. -/
theorem Slot.undeclared_nil (slots : List Slot) : undeclared slots [] = [] := by
  rw [undeclared, Sentence.slotNames, Sentence.pieces_nil]
  rfl

/-- The diagnostic that an event tells. -/
def Event.diagnostic? : Event → Option Diagnostic
  | diagnosed d => some d
  | _ => none

namespace Run

variable {run : Run} {met : List Finding} {log : List Event × Std.HashSet Finding}

/-- A log of a run tells each of some findings once, where it was met first,
and they are remembered. -/
structure Told (run : Run) (met : List Finding) (log : List Event × Std.HashSet Finding) :
    Prop where
  events : log.1.reverse.filterMap Event.diagnostic? =
    met.eraseDups.map (Diagnostic.of run.template run.collection)
  found : ∀ f, log.2.contains f = true ↔ f ∈ met

/-- The part of the log that a finding writes. -/
def note (run : Run) (log : List Event × Std.HashSet Finding) (finding : Finding) :
    List Event × Std.HashSet Finding :=
  if log.2.contains finding then log
  else
    (Event.diagnosed (Diagnostic.of run.template run.collection finding) :: log.1,
      log.2.insert finding)

theorem tell_eq (run : Run) (log : List Event × Std.HashSet Finding) (visit : Visit) :
    run.tell log visit =
      let seen := Event.visited visit.fragment visit.shape :: log.1
      if visit.isDiscarded then (Event.discarded run.template.text :: seen, log.2)
      else (visit.findings run.vars run.slots).foldl run.note (seen, log.2) := rfl

/-- A finding is told unless it was met before. -/
theorem told_note (h : run.Told met log) (finding : Finding) :
    run.Told (met ++ [finding]) (run.note log finding) := by
  obtain ⟨hevents, hfound⟩ := h
  unfold note
  by_cases hmet : log.2.contains finding = true
  · have hmem := (hfound finding).1 hmet
    rw [if_pos hmet]
    refine ⟨by rw [eraseDups_concat, if_pos hmem, hevents], fun f => ?_⟩
    rw [hfound, List.mem_append, List.mem_singleton]
    exact ⟨.inl, fun hf => hf.elim id fun heq => heq ▸ hmem⟩
  · have hmem : finding ∉ met := fun hmem => hmet ((hfound finding).2 hmem)
    rw [if_neg hmet]
    refine ⟨?_, fun f => ?_⟩
    · rw [eraseDups_concat, if_neg hmem, List.map_append, ← hevents]
      simp [Event.diagnostic?]
    · rw [Std.HashSet.contains_insert, Bool.or_eq_true, beq_iff_eq, hfound, List.mem_append,
        List.mem_singleton, or_comm, eq_comm]

/-- **A visit tells what it finds.** -/
theorem told_tell (h : run.Told met log) (visit : Visit) :
    run.Told (met ++ visit.findings run.vars run.slots) (run.tell log visit) := by
  have hsilent {event : Event} (hevent : event.diagnostic? = none) {events : List Event}
      (h : run.Told met (events, log.2)) : run.Told met (event :: events, log.2) := by
    refine ⟨?_, h.found⟩
    simp [hevent, ← h.events]
  have hseen : run.Told met (Event.visited visit.fragment visit.shape :: log.1, log.2) :=
    hsilent rfl h
  rw [tell_eq]
  dsimp only
  split
  · rename_i hdiscarded
    have hnone : visit.findings run.vars run.slots = [] := by
      obtain ⟨fragment, shape⟩ := visit
      obtain ⟨rfl, rfl⟩ : shape = .concrete ∧ fragment = [] := by
        simpa [Visit.isDiscarded] using hdiscarded
      cases run.slots with
      | none => rfl
      | some slots => simp [Visit.findings, Slot.undeclared_nil]
    rw [hnone, List.append_nil]
    exact hsilent rfl hseen
  · -- finding by finding, with those before it as met
    generalize visit.findings run.vars run.slots = findings
    induction findings using List.reverseRecOn with
    | nil => rwa [List.append_nil]
    | append_singleton findings finding ih =>
      rw [List.foldl_append, ← List.append_assoc]
      exact told_note ih finding

/-- **A run logs its diagnostics**, in order, and no others. -/
theorem diagnostics_events (run : Run) :
    run.events.filterMap Event.diagnostic? = run.diagnostics := by
  have htold (visits : List Visit) :
      run.Told (visits.flatMap (Visit.findings run.vars run.slots))
        (visits.foldl run.tell ([], ∅)) := by
    induction visits using List.reverseRecOn with
    | nil => exact ⟨rfl, by simp⟩
    | append_singleton visits visit ih =>
      rw [List.foldl_append, List.flatMap_append, List.flatMap_singleton]
      exact told_tell ih visit
  rw [diagnostics_eq, findings, ← (htold run.visits).events, events]
  simp [Event.diagnostic?]

end Run

end Utterance

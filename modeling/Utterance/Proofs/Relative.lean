import Utterance.Proofs.Joining
import Utterance.Proofs.Recursion
import Utterance.Proofs.Sorting

/-!
# Relative places — compiled models but for line numbers and offsets

A span says how long its line is and at which column it begins, and besides
that on which line of the source and at which byte. The first two depend on the
line alone (`Span.relative_ofLine`), the others on all lines in front of it. No
step of the expansion reads a span, so that two models which say the same, but
for the lines and bytes at which their templates stand, compile to the same, but
for the lines and bytes in the diagnostics (`Model.SaysAs.map_compile`). The
tables of variables only have to answer alike.
-/

namespace Utterance

/-- The span as its own line tells it, without the number and the offset of the
line. -/
def Span.relative (span : Span) : Span :=
  { start := 0, stop := span.stop - span.start, line := 0, column := span.column }

/-- **Where a line begins and ends in itself** depends on its text alone. -/
theorem Span.relative_ofLine (start : Nat) (raw : Text) (line : Nat) :
    (Span.ofLine start raw line).relative =
      { start := 0, stop := raw.trim.byteSize, line := 0, column := raw.indent.byteSize + 1 } := by
  simp [ofLine, relative]

/-- The template without the line and offset it stands at. -/
def Template.relative (t : Template) : Template :=
  { t with span := t.span.map Span.relative }

/-- The declaration without the line and offset it stands at. -/
def Declaration.relative (d : Declaration) : Declaration :=
  { d with span := d.span.relative }

/-- The diagnostic without the line and offset of its template. -/
def Diagnostic.relative (d : Diagnostic) : Diagnostic :=
  { d with span := d.span.map Span.relative }

/-- The expanded collection without the lines and offsets in its diagnostics. -/
def Expanded.relative (e : Expanded) : Expanded :=
  { e with diagnostics := e.diagnostics.map Diagnostic.relative }

/-- **The compiled model without the lines and offsets in its diagnostics.** -/
def Compiled.relative (c : Compiled) : Compiled :=
  { c with
    intents := c.intents.map Expanded.relative
    entities := c.entities.map Expanded.relative }

/-- **Two models say the same**, but for the lines and offsets at which their
templates stand, and for the form of their tables of variables. -/
structure Model.SaysAs (m m' : Model) : Prop where
  invocationName : m.invocationName = m'.invocationName
  language : m.language = m'.language
  vars : ∀ name, m.vars.get? name = m'.vars.get? name
  collections : ∀ kind,
    (m.collections kind).map (Collection.mapTemplates Template.relative) =
      (m'.collections kind).map (Collection.mapTemplates Template.relative)

variable {vars vars' : Variables} {slots : Option (List Slot)} {collection : Option Text}
  {t t' : Template} {c c' : Collection} {m m' : Model}

/-! ## Templates -/

/-- What a run yields: its sentences, and its diagnostics without lines and
offsets. -/
def Run.yield (run : Run) : List Text × List Diagnostic :=
  (run.sentences, run.diagnostics.map Diagnostic.relative)

/-- **A template is expanded alike** wherever it stands, under tables that
answer alike. -/
theorem Run.map_yield_of (ht : t.relative = t'.relative)
    (h : ∀ name, vars.get? name = vars'.get? name) (fuel : Nat) :
    (Run.of fuel vars slots collection t).map Run.yield =
      (Run.of fuel vars' slots collection t').map Run.yield := by
  have htext : t.text = t'.text := by simpa [Template.relative] using congrArg Template.text ht
  have hvisits : Worklist.visits vars fuel t.text = Worklist.visits vars' fuel t'.text := by
    rw [htext]
    exact Worklist.run_congr h ..
  have hdiagnostic (finding : Finding) : (Diagnostic.of t collection finding).relative =
      (Diagnostic.of t' collection finding).relative := by
    exact congrArg (fun t : Template => Diagnostic.of t collection finding) ht
  have hfindings (visits : List Visit) : visits.flatMap (Visit.findings vars slots) =
      visits.flatMap (Visit.findings vars' slots) :=
    List.flatMap_congr fun visit _ => Visit.findings_congr h visit
  rw [Run.of, Run.of, hvisits, Option.map_map, Option.map_map]
  congr 1
  funext visits
  simp only [Function.comp_apply, yield, sentences, diagnostics_eq, findings, hfindings,
    List.map_map, Prod.mk.injEq, true_and]
  exact List.map_congr_left fun finding _ => hdiagnostic finding

/-! ## Collections -/

/-- What the yields of its templates make of a collection. -/
def Collection.gatherYields (order : Order) (c : Collection)
    (yields : List (List Text × List Diagnostic)) : Expanded where
  name := c.name
  kind := c.kind
  slots := c.slots
  sentences := order.arrange id (yields.flatMap Prod.fst)
  diagnostics := yields.flatMap Prod.snd

theorem Collection.map_relative_expand (c : Collection) (vars : Variables) (fuel : Nat)
    (order : Order) :
    (c.expand fuel vars order).map (fun e => e.value.relative) =
      ((c.runs fuel vars).map (List.map Run.yield)).map (c.gatherYields order) := by
  have hgather (runs : List Run) :
      (c.gather order runs).relative = c.gatherYields order (runs.map Run.yield) := by
    simp [gather, Expanded.relative, gatherYields, List.flatMap_map, List.map_flatMap, Run.yield]
  rw [expand, Option.map_map, Option.map_map]
  exact congrArg (Option.map · _) (funext hgather)

/-- **A collection is expanded alike** wherever its templates stand. -/
theorem Collection.map_relative_expand_congr
    (hc : c.mapTemplates Template.relative = c'.mapTemplates Template.relative)
    (h : ∀ name, vars.get? name = vars'.get? name) (fuel : Nat) (order : Order) :
    (c.expand fuel vars order).map (fun e => e.value.relative) =
      (c'.expand fuel vars' order).map (fun e => e.value.relative) := by
  simp only [mapTemplates, Collection.mk.injEq] at hc
  obtain ⟨hname, hkind, hlatest, hslots⟩ := hc
  have htemplates : c.templates.map Template.relative = c'.templates.map Template.relative := by
    rw [templates, templates, List.map_reverse, List.map_reverse, hlatest]
  have hruns : (c.runs fuel vars).map (List.map Run.yield) =
      (c'.runs fuel vars').map (List.map Run.yield) := by
    rw [runs, runs, ← mapM_map_some, ← mapM_map_some, slotTable?, slotTable?, hkind, hslots, hname]
    exact mapM_eq_of_forall₂
      ((forall₂_of_map_eq htemplates).imp fun _ _ ht => Run.map_yield_of ht h fuel)
  have hgather : c.gatherYields order = c'.gatherYields order := by
    funext yields
    rw [gatherYields, gatherYields, hname, hkind, hslots]
  rw [map_relative_expand, map_relative_expand, hruns, hgather]

/-! ## Models -/

/-- The compiled model without lines and offsets is put together from the
expanded collections without them. -/
theorem Model.map_relative_compile (m : Model) (fuel : Nat) (order : Order) :
    (m.compile fuel order).map (fun c => c.value.relative) =
      ((m.intents.mapM (Collection.expand fuel m.vars order)).map
          (List.map fun e => e.value.relative)).bind fun intents =>
        ((m.entities.mapM (Collection.expand fuel m.vars order)).map
          (List.map fun e => e.value.relative)).map fun entities =>
            { invocationName := m.invocationName
              language := m.language
              intents := order.arrange Expanded.name intents
              entities := order.arrange Expanded.name entities } := by
  have harrange (expanded : List (Logged Expanded)) :
      (order.arrange Expanded.name (expanded.map Logged.value)).map Expanded.relative =
        order.arrange Expanded.name (expanded.map fun e => e.value.relative) := by
    have hsame : order.arrange Expanded.name ((expanded.map Logged.value).map Expanded.relative) =
        (order.arrange Expanded.name (expanded.map Logged.value)).map Expanded.relative :=
      order.arrange_map Expanded.name Expanded.relative fun _ _ => rfl
    rw [← hsame, List.map_map]
    rfl
  rw [compile]
  cases m.intents.mapM (Collection.expand fuel m.vars order) with
  | none => rfl
  | some intents =>
    cases m.entities.mapM (Collection.expand fuel m.vars order) with
    | none => rfl
    | some entities =>
      rw [Option.map_some, Option.map_some, Option.bind_some, Option.map_some, ← harrange,
        ← harrange]
      rfl

/-- **Models that say the same compile to the same**, but for the lines and
offsets in the diagnostics, in as many steps. -/
theorem Model.SaysAs.map_compile (h : m.SaysAs m') (fuel : Nat) (order : Order) :
    (m.compile fuel order).map (fun c => c.value.relative) =
      (m'.compile fuel order).map (fun c => c.value.relative) := by
  have hexpand (kind : Kind) :
      ((m.collections kind).mapM (Collection.expand fuel m.vars order)).map
          (List.map fun e => e.value.relative) =
        ((m'.collections kind).mapM (Collection.expand fuel m'.vars order)).map
          (List.map fun e => e.value.relative) := by
    rw [← mapM_map_some, ← mapM_map_some]
    exact mapM_eq_of_forall₂ ((forall₂_of_map_eq (h.collections kind)).imp
      fun _ _ hc => Collection.map_relative_expand_congr hc h.vars fuel order)
  have hintents := hexpand .intent
  have hentities := hexpand .entity
  simp only [Model.collections] at hintents hentities
  rw [map_relative_compile, map_relative_compile, hintents, hentities, h.invocationName, h.language]

end Utterance

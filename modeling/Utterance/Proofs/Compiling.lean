import Utterance.Proofs.Exports

/-!
# Compiling — what a model comes to, whatever the bound

Compiling is bounded by a number of steps for each template, and a greater
bound never changes a result. So a collection is expanded, under some bound,
exactly if each of its templates is, each under a bound of its own
(`Collection.expandsTo_iff`), and a model is compiled exactly if each of its
collections is expanded (`Model.compilesTo_iff`). What either comes to is
one thing only (`Collection.ExpandsTo.unique`, `Model.CompilesTo.unique`).
-/

namespace Utterance

/-! ## Results under a bound -/

section Bounded

variable {α β : Type} {f : Nat → α → Option β} {items : List α} {results : List β}

/-- A greater bound never changes a result. -/
def StableInBound (f : Nat → α → Option β) : Prop :=
  ∀ ⦃fuel more a b⦄, fuel ≤ more → f fuel a = some b → f more a = some b

theorem mapM_eq_some_of_forall₂ {g : α → Option β}
    (h : List.Forall₂ (fun a b => g a = some b) items results) : items.mapM g = some results := by
  induction h with
  | nil => rfl
  | cons hab _ ih => simp [List.mapM_cons, hab, ih]

/-- **One bound is enough for a list.** -/
theorem StableInBound.exists_mapM_iff (hf : StableInBound f) :
    (∃ fuel, items.mapM (f fuel) = some results) ↔
      List.Forall₂ (fun a b => ∃ fuel, f fuel a = some b) items results := by
  constructor
  · rintro ⟨fuel, h⟩
    exact (forall₂_of_mapM h).imp fun _ _ hab => ⟨fuel, hab⟩
  · intro h
    suffices ∃ fuel, List.Forall₂ (fun a b => f fuel a = some b) items results from
      this.imp fun _ => mapM_eq_some_of_forall₂
    induction h with
    | nil => exact ⟨0, .nil⟩
    | cons hab _ ih =>
      obtain ⟨first, hfirst⟩ := hab
      obtain ⟨rest, hrest⟩ := ih
      exact ⟨max first rest, .cons (hf (Nat.le_max_left ..) hfirst)
        (hrest.imp fun _ _ => (hf (Nat.le_max_right ..) ·))⟩

theorem StableInBound.mapM (hf : StableInBound f) :
    StableInBound fun fuel (items : List α) => items.mapM (f fuel) :=
  fun _ _ _ _ hle h => mapM_eq_some_of_forall₂ ((forall₂_of_mapM h).imp fun _ _ => (hf hle ·))

/-- Under whatever bounds, a result is one thing only. -/
theorem StableInBound.unique (hf : StableInBound f) {fuel other : Nat} {a : α} {b b' : β}
    (h : f fuel a = some b) (h' : f other a = some b') : b = b' :=
  Option.some.inj ((hf (Nat.le_max_left fuel other) h).symm.trans
    (hf (Nat.le_max_right fuel other) h'))

end Bounded

variable {vars : Variables} {order : Order} {c : Collection} {e : Expanded} {m : Model}
  {compiled : Compiled}

theorem Run.stableInBound_of (vars : Variables) (slots : Option (List Slot))
    (collection : Option Text) : StableInBound fun fuel => Run.of fuel vars slots collection := by
  intro fuel more template run hle h
  obtain ⟨visits, hvisits, rfl⟩ := Option.map_eq_some_iff.1 h
  have hmore : Worklist.visits vars more template.text = some visits :=
    Worklist.run_mono hvisits hle
  exact Option.map_eq_some_iff.2 ⟨visits, hmore, rfl⟩

/-! ## Collections -/

/-- **The expansion of a collection ends**, under some bound, in an expanded
collection. -/
def Collection.ExpandsTo (c : Collection) (vars : Variables) (order : Order) (e : Expanded) :
    Prop :=
  ∃ fuel logged, c.expand fuel vars order = some logged ∧ logged.value = e

/-- A collection is expanded template by template. -/
theorem Collection.expandsTo_iff : c.ExpandsTo vars order e ↔
    ∃ runs, List.Forall₂ (fun template run =>
        template.ExpandsTo vars c.slotTable? (some c.name) run) c.templates runs ∧
      e = c.gather order runs := by
  constructor
  · rintro ⟨fuel, logged, h, rfl⟩
    obtain ⟨runs, hruns, -, hvalue⟩ := exists_runs h
    exact ⟨runs, hruns, hvalue⟩
  · rintro ⟨runs, hruns, rfl⟩
    obtain ⟨fuel, hfuel⟩ := (Run.stableInBound_of ..).exists_mapM_iff.2 hruns
    exact ⟨fuel, _, Option.map_eq_some_iff.2 ⟨runs, hfuel, rfl⟩, rfl⟩

theorem Collection.stableInBound_expand (vars : Variables) (order : Order) :
    StableInBound fun fuel => Collection.expand fuel vars order := by
  intro fuel more c logged hle h
  obtain ⟨runs, hruns, rfl⟩ := Option.map_eq_some_iff.1 h
  have hmore : c.runs more vars = some runs := (Run.stableInBound_of ..).mapM hle hruns
  exact Option.map_eq_some_iff.2 ⟨runs, hmore, rfl⟩

/-- A collection expands in one way only. -/
theorem Collection.ExpandsTo.unique {other : Expanded} (h : c.ExpandsTo vars order e)
    (h' : c.ExpandsTo vars order other) : e = other := by
  obtain ⟨fuel, logged, hexpand, rfl⟩ := h
  obtain ⟨fuel', logged', hexpand', rfl⟩ := h'
  rw [(stableInBound_expand vars order).unique hexpand hexpand']

theorem Collection.rightUnique_expandsTo (vars : Variables) (order : Order) :
    Relator.RightUnique fun (c : Collection) e => c.ExpandsTo vars order e :=
  fun _ _ _ => ExpandsTo.unique

/-! ## Models -/

/-- The expanded collections of a kind. -/
def Compiled.ofKind (compiled : Compiled) : Kind → List Expanded
  | .intent => compiled.intents
  | .entity => compiled.entities

/-- **The compilation of a model ends**, under some bound, in a compiled
model. -/
def Model.CompilesTo (m : Model) (order : Order) (compiled : Compiled) : Prop :=
  ∃ fuel logged, m.compile fuel order = some logged ∧ logged.value = compiled

/-- The collections of a list are expanded one by one. -/
theorem forall₂_expandsTo_iff {cs : List Collection} {es : List Expanded} :
    List.Forall₂ (fun c e => c.ExpandsTo vars order e) cs es ↔
      ∃ fuel expanded, cs.mapM (Collection.expand fuel vars order) = some expanded ∧
        expanded.map Logged.value = es := by
  constructor
  · intro h
    have hlogged : ∃ expanded, List.Forall₂ (fun c logged =>
        ∃ fuel, c.expand fuel vars order = some logged) cs expanded ∧
          expanded.map Logged.value = es := by
      induction h with
      | nil => exact ⟨[], .nil, rfl⟩
      | cons hab _ ih =>
        obtain ⟨fuel, logged, hexpand, rfl⟩ := hab
        obtain ⟨expanded, hall, rfl⟩ := ih
        exact ⟨logged :: expanded, .cons ⟨fuel, hexpand⟩ hall, rfl⟩
    obtain ⟨expanded, hall, hvalues⟩ := hlogged
    obtain ⟨fuel, hfuel⟩ := (Collection.stableInBound_expand ..).exists_mapM_iff.2 hall
    exact ⟨fuel, expanded, hfuel, hvalues⟩
  · rintro ⟨fuel, expanded, h, rfl⟩
    rw [List.forall₂_map_right_iff]
    exact (forall₂_of_mapM h).imp fun _ logged hexpand => ⟨fuel, logged, hexpand, rfl⟩

/-- A model with the expanded collections of each kind, brought into order. -/
def Model.gather (order : Order) (m : Model) (es : Kind → List Expanded) : Compiled where
  invocationName := m.invocationName
  language := m.language
  intents := order.arrange Expanded.name (es .intent)
  entities := order.arrange Expanded.name (es .entity)

@[simp] theorem Model.ofKind_gather (order : Order) (m : Model) (es : Kind → List Expanded)
    (kind : Kind) : (m.gather order es).ofKind kind = order.arrange Expanded.name (es kind) := by
  cases kind <;> rfl

/-- **A model is compiled collection by collection.** -/
theorem Model.compilesTo_iff : m.CompilesTo order compiled ↔
    ∃ es : Kind → List Expanded,
      (∀ kind, List.Forall₂ (fun c e => c.ExpandsTo m.vars order e) (m.collections kind)
        (es kind)) ∧ compiled = m.gather order es := by
  constructor
  · rintro ⟨fuel, logged, h, rfl⟩
    obtain ⟨intents, entities, hintents, hentities, hvalue⟩ := exists_of_compile h
    refine ⟨fun
      | .intent => intents.map Logged.value
      | .entity => entities.map Logged.value, fun kind => ?_, hvalue⟩
    cases kind with
    | intent => exact forall₂_expandsTo_iff.2 ⟨fuel, intents, hintents, rfl⟩
    | entity => exact forall₂_expandsTo_iff.2 ⟨fuel, entities, hentities, rfl⟩
  · rintro ⟨es, hall, rfl⟩
    obtain ⟨fuel, intents, hintents, hvalues⟩ := forall₂_expandsTo_iff.1 (hall .intent)
    obtain ⟨fuel', entities, hentities, hvalues'⟩ := forall₂_expandsTo_iff.1 (hall .entity)
    have hstable := (Collection.stableInBound_expand m.vars order).mapM
    have hmore : m.intents.mapM (Collection.expand (max fuel fuel') m.vars order) = some intents :=
      hstable (Nat.le_max_left ..) hintents
    have hmore' : m.entities.mapM (Collection.expand (max fuel fuel') m.vars order) =
        some entities := hstable (Nat.le_max_right ..) hentities
    rw [gather, ← hvalues, ← hvalues']
    exact ⟨max fuel fuel', ⟨_, _⟩, by rw [compile, hmore, hmore']; rfl, rfl⟩

theorem Model.stableInBound_compile (order : Order) :
    StableInBound fun fuel => Model.compile fuel order := by
  intro fuel more m logged hle h
  have hstable := (Collection.stableInBound_expand m.vars order).mapM
  simp only [compile, Option.bind_eq_bind, Option.bind_eq_some_iff] at h
  obtain ⟨intents, hintents, entities, hentities, hlogged⟩ := h
  have hmore : m.intents.mapM (Collection.expand more m.vars order) = some intents :=
    hstable hle hintents
  have hmore' : m.entities.mapM (Collection.expand more m.vars order) = some entities :=
    hstable hle hentities
  simp only [compile, hmore, hmore', Option.bind_eq_bind, Option.bind_some]
  exact hlogged

/-- A model compiles to one thing only. -/
theorem Model.CompilesTo.unique {other : Compiled} (h : m.CompilesTo order compiled)
    (h' : m.CompilesTo order other) : compiled = other := by
  obtain ⟨es, hall, rfl⟩ := compilesTo_iff.1 h
  obtain ⟨es', hall', rfl⟩ := compilesTo_iff.1 h'
  have hsame : es = es' := funext fun kind =>
    (Collection.rightUnique_expandsTo m.vars order).forall₂ (hall kind) (hall' kind)
  rw [hsame]

end Utterance

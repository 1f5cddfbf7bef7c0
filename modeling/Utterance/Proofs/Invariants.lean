import Utterance.Proofs.Refusal
import Utterance.Proofs.Updates

/-!
# Invariants — what every load keeps

Each collection of a model was made empty by an opening and is what lines
have added to it since. A property that newly opened collections have and
that no line takes away therefore holds of every collection that a sequence
of loads leaves, whether its sources are accepted or refused
(`Workspace.every_addAll`). The collections of a kind are told apart by
their names, which stay distinct (`Workspace.namesDistinct_addAll`).
-/

namespace Utterance

/-- Names are distinct within each kind. -/
def Model.NamesDistinct (m : Model) : Prop :=
  ∀ kind, ((m.collections kind).map Collection.name).Nodup

/-- A property of the collections of each kind holds of all of them. -/
def Model.Every (P : Kind → Collection → Prop) (m : Model) : Prop :=
  ∀ kind, ∀ c ∈ m.collections kind, P kind c

/-- **A source keeps a property of collections.** -/
structure Source.Keeps (P : Kind → Collection → Prop) (s : Source) : Prop where
  /-- The collections that it opens have the property from the start. -/
  opened : ∀ d ∈ s.declarations, ∀ kind name, d.line.opened? = some (kind, name) →
    P kind (Collection.empty kind name)
  /-- No declaration takes it away. -/
  declared : ∀ d ∈ s.declarations, ∀ kind c, P kind c →
    P kind (d.line.addTo (Template.placed s.name d.span) kind c)

theorem Model.collections_empty (kind : Kind) : ({} : Model).collections kind = [] := by
  cases kind <;> rfl

theorem Model.namesDistinct_empty : ({} : Model).NamesDistinct := by
  intro kind
  rw [collections_empty]
  exact List.nodup_nil

theorem Model.every_empty {P : Kind → Collection → Prop} : ({} : Model).Every P := by
  intro kind c hc
  rw [collections_empty] at hc
  cases hc

/-! ## One source -/

theorem keepGiven_sublist {α : Type} (test : List α → α → Bool) (l : List α) :
    (keepGiven test l).Sublist l := by
  have hmembers : l.zipIdx.map Prod.fst = l := by simp
  conv_rhs => rw [← hmembers]
  exact List.filter_sublist.map _

variable {P : Kind → Collection → Prop} {m : Model} {s : Source}

theorem Collection.receive_of_forall {kind : Kind} {source : Text} {ds : List Declaration}
    {c : Collection} (hc : P kind c)
    (hadd : ∀ d ∈ ds, ∀ c, P kind c →
      P kind (d.line.addTo (Template.placed source d.span) kind c)) :
    P kind (c.receive source kind ds) := by
  induction ds generalizing c with
  | nil => exact hc
  | cons d ds ih => exact ih (hadd d (by simp) c hc) fun e he => hadd e (by simp [he])

theorem Model.namesDistinct_extend (hm : m.NamesDistinct) (s : Source) :
    (m.extend s).NamesDistinct := by
  intro kind
  rw [(updatedBy_extend hm s).names]
  exact nodup_append_newNames (hm kind) kind s.declarations

theorem exists_opened_of_mem_newNames {known : List Text} {kind : Kind} {ds : List Declaration}
    {name : Text} (h : name ∈ newNames known kind ds) :
    ∃ d ∈ ds, d.line.opened? = some (kind, name) := by
  obtain ⟨d, hd, hopens⟩ := List.mem_filterMap.1 (List.mem_eraseDups.1 (List.mem_filter.1 h).1)
  obtain ⟨⟨other, opened⟩, hopened, hkind⟩ := Option.bind_eq_some_iff.1 hopens
  split at hkind
  · rename_i hother
    obtain rfl := Option.some.inj hkind
    obtain rfl : other = kind := hother
    exact ⟨d, hd, hopened⟩
  · cases hkind

/-- What a source keeps holds of all collections after it, if it did before. -/
theorem Model.every_extend (hm : m.NamesDistinct) (hP : m.Every P) (hs : s.Keeps P) :
    (m.extend s).Every P := by
  intro kind c hc
  rw [extend, collections_extendFrom (hm kind)] at hc
  obtain ⟨before, hbefore, rfl⟩ := List.mem_map.1 hc
  have hstart : P kind before := by
    rcases List.mem_append.1 hbefore with hknown | hnew
    · exact hP kind before hknown
    · obtain ⟨name, hname, rfl⟩ := List.mem_map.1 hnew
      obtain ⟨d, hd, hopened⟩ := exists_opened_of_mem_newNames hname
      exact hs.opened d hd kind name hopened
  exact Collection.receive_of_forall hstart fun d hd =>
    hs.declared d ((keepGiven_sublist _ _).subset hd) kind

/-! ## Sequences of sources -/

namespace Workspace

variable {w : Workspace}

/-- **Names stay distinct** in every sequence of loads. -/
theorem namesDistinct_addAll (hw : w.model.NamesDistinct) (sources : List Source) :
    (w.addAll sources).2.model.NamesDistinct := by
  rw [addAll_eq]
  exact List.foldlRecOn _ _ hw fun m hm s _ => Model.namesDistinct_extend hm s

/-- **What the accepted sources keep**, all collections have after every
sequence of loads. -/
theorem every_addAll (hw : w.model.NamesDistinct) (hP : w.model.Every P)
    {sources : List Source} (hkeeps : ∀ s ∈ accepted w.limit sources, s.Keeps P) :
    (w.addAll sources).2.model.Every P := by
  rw [addAll_eq]
  -- the names are needed to add to the right collection
  have hboth := List.foldlRecOn (accepted w.limit sources) Model.extend
    (motive := fun m => m.NamesDistinct ∧ m.Every P) ⟨hw, hP⟩
    fun m ⟨hm, hPm⟩ s hs =>
      ⟨Model.namesDistinct_extend hm s, Model.every_extend hm hPm (hkeeps s hs)⟩
  exact hboth.2

end Workspace

/-! ## Slots -/

/-- A collection is of the kind it is listed under, and its slots are told
apart by their names. -/
def SlotsDistinct (kind : Kind) (c : Collection) : Prop :=
  c.kind = kind ∧ (c.slots.map Slot.name).Nodup

/-- **A slot is declared once.** Every line keeps the names of the slots of a
collection distinct, and the collection of its kind. -/
theorem Source.keeps_slotsDistinct (s : Source) : s.Keeps SlotsDistinct where
  opened _ _ _ _ _ := ⟨rfl, List.nodup_nil⟩
  declared := by
    rintro ⟨l, span⟩ - kind c ⟨hkind, hslots⟩
    refine ⟨(Line.kind_addTo ..).trans hkind, ?_⟩
    cases l with
    | slot keyword name beforeType type beforeExample «example» =>
      cases kind with
      | intent => exact Collection.nodup_declareSlot _ hslots
      | entity => exact hslots
    | _ => exact hslots

/-- Every sequence of loads into an empty model leaves each collection with
distinct slots. -/
theorem Workspace.slotsDistinct_addAll (limit : Nat) (sources : List Source) :
    (({ limit } : Workspace).addAll sources).2.model.Every SlotsDistinct :=
  every_addAll Model.namesDistinct_empty Model.every_empty fun s _ => s.keeps_slotsDistinct

end Utterance

import Utterance.Proofs.Builds
import Utterance.Proofs.Documents
import Utterance.Proofs.Names
import Utterance.Proofs.Sorting
import Utterance.Proofs.Tables

/-!
# Listing — the table of collections

The list command expands all collections and then looks each of them up again,
by its kind and name, to show it beside its expansion. Sorting has moved the
expansions in between, so that only the names tie the two together. Within a
kind they are distinct after every sequence of loads, and every collection is of
the kind it is listed under. So each look-up finds the collection that was
expanded (`Workspace.forall₂_rows`), and there is one row for each, with its own
numbers. Names are identifiers, so that nothing in a cell is taken for a wall:
the rows are read again from the table that is printed
(`Command.list_shows_every_collection`).
-/

namespace Utterance

/-! ## Workspaces whose expansions end -/

/-- **Every expansion of a workspace ends**: every template of every collection
has a run. -/
def Workspace.RunsEnd (w : Workspace) : Prop :=
  ∀ c ∈ w.collections, ∀ t ∈ c.templates, ∃ run,
    t.ExpandsTo w.model.vars c.slotTable? (some c.name) run

theorem exists_forall₂_of_forall {α β : Type} {R : α → β → Prop} {items : List α}
    (h : ∀ a ∈ items, ∃ b, R a b) : ∃ results, List.Forall₂ R items results := by
  induction items with
  | nil => exact ⟨[], .nil⟩
  | cons a items ih =>
    obtain ⟨b, hb⟩ := h a (by simp)
    obtain ⟨results, hresults⟩ := ih fun a' ha' => h a' (by simp [ha'])
    exact ⟨b :: results, .cons hb hresults⟩

theorem forall₂_filterMap {α β γ : Type} {R : α → β → Prop} {S : γ → α → Prop}
    {f : β → Option γ} (hf : ∀ a b, R a b → ∃ row, f b = some row ∧ S row a) {as : List α}
    {bs : List β} (h : List.Forall₂ R as bs) : List.Forall₂ S (bs.filterMap f) as := by
  induction h with
  | nil => exact .nil
  | cons hab _ ih =>
    obtain ⟨row, hrow, hshows⟩ := hf _ _ hab
    rw [List.filterMap_cons_some hrow]
    exact .cons hshows ih

theorem Workspace.mem_collections_iff {w : Workspace} {c : Collection} :
    c ∈ w.collections ↔ ∃ kind, c ∈ w.model.collections kind := by
  rw [collections, List.mem_append]
  constructor
  · rintro (h | h)
    · exact ⟨.intent, h⟩
    · exact ⟨.entity, h⟩
  · rintro ⟨kind, h⟩
    cases kind with
    | intent => exact .inl h
    | entity => exact .inr h

/-- **A workspace is compiled** exactly if every expansion ends. -/
theorem Workspace.runsEnd_iff {w : Workspace} {order : Order} :
    w.RunsEnd ↔ ∃ compiled, w.model.CompilesTo order compiled := by
  constructor
  · intro h
    have hexpand (kind : Kind) : ∃ es, List.Forall₂ (fun c e => c.ExpandsTo w.model.vars order e)
        (w.model.collections kind) es := by
      refine exists_forall₂_of_forall fun c hc => ?_
      obtain ⟨runs, hruns⟩ := exists_forall₂_of_forall (h c (mem_collections_iff.2 ⟨kind, hc⟩))
      exact ⟨_, Collection.expandsTo_iff.2 ⟨runs, hruns, rfl⟩⟩
    choose es hes using hexpand
    exact ⟨_, Model.compilesTo_iff.2 ⟨es, hes, rfl⟩⟩
  · rintro ⟨compiled, h⟩ c hc t ht
    obtain ⟨kind, hc⟩ := mem_collections_iff.1 hc
    obtain ⟨es, hes, -⟩ := Model.compilesTo_iff.1 h
    obtain ⟨e, -, he⟩ := exists_left_of_forall₂ (hes kind).flip hc
    obtain ⟨runs, hruns, -⟩ := Collection.expandsTo_iff.1 he
    obtain ⟨run, -, hrun⟩ := exists_left_of_forall₂ hruns.flip ht
    exact ⟨run, hrun⟩

/-! ## Rows -/

/-- What the table says of a collection whose templates have some runs, each
under its title. -/
def Collection.entries (c : Collection) (runs : List Run) : List (Text × Text) :=
  [("Kind".toList, c.kind.name.toList), ("Name".toList, c.name),
    ("Templates".toList, c.templates.length.repr.toList),
    ("Slots".toList, c.slots.length.repr.toList),
    ("Sentences".toList, (runs.flatMap Run.sentences).length.repr.toList),
    ("Warnings".toList, (runs.flatMap Run.diagnostics).length.repr.toList)]

/-- The title line of the table. -/
def Summary.titles : List Text :=
  ["Kind".toList, "Name".toList, "Templates".toList, "Slots".toList, "Sentences".toList,
    "Warnings".toList]

/-- **A row shows a collection**: the expansion in it is that of the
collection, and the cells count, each under its title, what the collection
declares and what the runs of its templates yield. -/
structure Summary.Row.Shows (vars : Variables) (row : Summary.Row) (c : Collection) : Prop where
  collection : row.collection = c
  kind : row.expanded.kind = c.kind
  name : row.expanded.name = c.name
  expanded : c.ExpandsTo vars .ascending row.expanded
  cells : ∃ runs, List.Forall₂ (fun template run =>
      template.ExpandsTo vars c.slotTable? (some c.name) run) c.templates runs ∧
    (c.entries runs).unzip = (Summary.titles, row.cells)

theorem Summary.Row.shows_of_expandsTo {vars : Variables} {c : Collection} {e : Expanded}
    (h : c.ExpandsTo vars .ascending e) : Row.Shows vars ⟨c, e⟩ c := by
  obtain ⟨runs, hruns, rfl⟩ := Collection.expandsTo_iff.1 h
  have hsentences : (c.gather .ascending runs).sentences.length =
      (runs.flatMap Run.sentences).length :=
    (Order.arrange_perm id .ascending _).length_eq
  refine ⟨rfl, rfl, rfl, h, runs, hruns, ?_⟩
  rw [Row.cells, hsentences]
  rfl

/-- The cells are those of the runs under any bound that is large enough. -/
theorem Summary.Row.Shows.cells_eq {vars : Variables} {row : Summary.Row} {c : Collection}
    {fuel : Nat} {cells : List Text} (h : row.Shows vars c)
    (hcells : (c.runs fuel vars).map (fun runs => (c.entries runs).map Prod.snd) = some cells) :
    row.cells = cells := by
  obtain ⟨runs, hruns, rfl⟩ := Option.map_eq_some_iff.1 hcells
  obtain ⟨runs', hruns', hentries⟩ := h.cells
  have hright : Relator.RightUnique fun (template : Template) run =>
      template.ExpandsTo vars c.slotTable? (some c.name) run :=
    fun _ _ _ => Template.ExpandsTo.unique
  have hbound : List.Forall₂ (fun template run =>
      template.ExpandsTo vars c.slotTable? (some c.name) run) c.templates runs :=
    (forall₂_of_mapM hruns).imp fun _ _ hrun => ⟨fuel, hrun⟩
  rw [List.unzip_eq_map] at hentries
  rw [← (Prod.mk.inj hentries).2, hright.forall₂ hruns' hbound]

/-- **The order of the table**: the collections of each kind, with their names
ascending byte by byte and no name twice. -/
structure Workspace.InTableOrder (w : Workspace) (listed : Kind → List Collection) : Prop where
  perm : ∀ kind, (listed kind).Perm (w.model.collections kind)
  kind_eq : ∀ kind, ∀ c ∈ listed kind, c.kind = kind
  ascend : ∀ kind, (listed kind).Pairwise fun c d => c.name.BytesAscend d.name ∧ c.name ≠ d.name

/-- There is one such order. -/
theorem Workspace.InTableOrder.unique {w : Workspace} {listed other : Kind → List Collection}
    (h : w.InTableOrder listed) (h' : w.InTableOrder other) : listed = other := by
  funext kind
  refine ((h.perm kind).trans (h'.perm kind).symm).eq_of_pairwise (fun c d _ _ hcd hdc => ?_)
    (h.ascend kind) (h'.ascend kind)
  have hname : c.name = d.name := Text.ascending_antisymm
    ((Text.ascending_eq_bytes _ _).trans hcd.1) ((Text.ascending_eq_bytes _ _).trans hdc.1)
  exact absurd hname hcd.2

/-- **Some rows show a workspace**: each of its collections has one of them, the
intents first. What is printed of the rows counts the collections, lists the
sources and ends with a drawing, in which the titles and the cells of every row
are read again, in columns of one width from top to bottom. -/
structure Workspace.ShownBy (w : Workspace) (rows : List Summary.Row) : Prop where
  table : ∃ listed, w.InTableOrder listed ∧
    List.Forall₂ (Summary.Row.Shows w.model.vars) rows (listed .intent ++ listed .entity)
  printed : ∀ files names, Summary.workspace files names rows =
    s!"Workspace contains {files} files, {w.collections.length} collections\n" ++
      String.join (names.map fun name => s!"  {name.str}\n") ++
      if w.collections.isEmpty then "" else "\n" ++ (Summary.table rows).draw.str ++ "\n"
  drawing : Table.read (Summary.table rows).draw = Summary.titles :: rows.map Summary.Row.cells
  aligned : ∃ widths, ∀ line ∈ Table.walled (Summary.table rows).draw,
    (Table.fields line).map List.length = widths

/-! ## The printed table -/

namespace Summary

theorem foldl_append {α : Type} (f : α → String) (items : List α) (out : String) :
    items.foldl (fun out a => out ++ f a) out = out ++ String.join (items.map f) := by
  induction items generalizing out with
  | nil => simp
  | cons a items ih =>
    rw [List.foldl_cons, ih, List.map_cons, String.join_cons, String.append_assoc]

/-- The drawing comes last. -/
theorem workspace_eq (files : Nat) (names : List Text) (rows : List Row) :
    workspace files names rows =
      s!"Workspace contains {files} files, {rows.length} collections\n" ++
        String.join (names.map fun name => s!"  {name.str}\n") ++
        if rows.isEmpty then "" else "\n" ++ (table rows).draw.str ++ "\n" := by
  have hlisted := foldl_append (fun name : Text => s!"  {name.str}\n") names
    s!"Workspace contains {files} files, {rows.length} collections\n"
  simp only [workspace, hlisted]
  split
  · rw [String.append_empty]
  · simp only [String.append_assoc]

theorem plain_of_isTypeChar {cell : Text} (h : ∀ c ∈ cell, Line.isTypeChar c = true) :
    Table.Plain cell := by
  intro c hc
  refine ⟨(Line.of_isTypeChar (h c hc)).2.1, ?_⟩
  rintro rfl
  exact absurd (h _ hc) (by decide)

theorem plain_number (n : Nat) : Table.Plain (number n) := by
  refine plain_of_isTypeChar fun c hc => ?_
  rw [number, Nat.toList_repr] at hc
  have hdigit : c.isDigit = true := Nat.isDigit_of_mem_toDigits (by decide) (by decide) hc
  simp [Line.isTypeChar, Char.isAlphanum, hdigit]

theorem plain_kind (kind : Kind) : Table.Plain kind.name.toList := by
  cases kind <;> decide +kernel

/-- **The cells of a row are plain** if the collection is called by an
identifier. -/
theorem plain_cells {row : Row} (h : IsIdentifier row.collection.name) :
    ∀ cell ∈ row.cells, Table.Plain cell := by
  have hname : Table.Plain row.collection.name := plain_of_isTypeChar fun c hc =>
    Line.isTypeChar_of_isIdentChar (isIdentChar_of_isIdentifier h c hc)
  intro cell hcell
  simp only [Row.cells, List.mem_cons, List.not_mem_nil, or_false] at hcell
  rcases hcell with rfl | rfl | rfl | rfl | rfl | rfl
  · exact plain_kind _
  · exact hname
  all_goals exact plain_number _

/-- **The table of collections is regular.** -/
theorem regular_table {rows : List Row} (h : ∀ row ∈ rows, IsIdentifier row.collection.name) :
    (table rows).Regular where
  columns := by simp [table]
  length_eq row hrow := by
    rcases List.mem_cons.1 hrow with rfl | hrow
    · rfl
    · obtain ⟨row, -, rfl⟩ := List.mem_map.1 hrow
      rfl
  plain row hrow := by
    rcases List.mem_cons.1 hrow with rfl | hrow
    · exact (by decide +kernel : ∀ cell ∈ titles, Table.Plain cell)
    · obtain ⟨row, hmem, rfl⟩ := List.mem_map.1 hrow
      exact plain_cells (h row hmem)

end Summary

/-! ## Rows and look-ups -/

namespace Workspace

variable {w : Workspace} {compiled : Compiled}

/-- The collections in the order of the table. -/
def listed (w : Workspace) (kind : Kind) : List Collection :=
  Order.ascending.arrange Collection.name (w.model.collections kind)

theorem listed_perm (w : Workspace) (kind : Kind) :
    (w.listed kind).Perm (w.model.collections kind) :=
  Order.arrange_perm ..

/-- The expansions stand in the order of the table too: sorting moves them with
their collections. -/
theorem forall₂_listed (h : w.model.CompilesTo .ascending compiled) (kind : Kind) :
    List.Forall₂ (fun c e => c.ExpandsTo w.model.vars .ascending e) (w.listed kind)
      (compiled.ofKind kind) := by
  obtain ⟨es, hes, rfl⟩ := Model.compilesTo_iff.1 h
  rw [Model.ofKind_gather]
  refine Order.forall₂_arrange .ascending (fun c e he => ?_) (hes kind)
  exact (Summary.Row.shows_of_expandsTo he).name.symm

section Loaded

-- what every sequence of loads leaves
variable (hnames : w.model.NamesDistinct)
variable (hkind : ∀ kind, ∀ c ∈ w.model.collections kind, c.kind = kind)
include hnames hkind

theorem inTableOrder_listed : w.InTableOrder w.listed where
  perm := w.listed_perm
  kind_eq kind c hc := hkind kind c ((w.listed_perm kind).mem_iff.1 hc)
  ascend kind := by
    have hdistinct : ((w.listed kind).map Collection.name).Nodup :=
      ((w.listed_perm kind).map Collection.name).nodup_iff.2 (hnames kind)
    exact (Order.pairwise_arrange Collection.name _).and (List.pairwise_map.1 hdistinct)

/-- **Every look-up finds the collection that was expanded.** -/
theorem forall₂_collection? (h : w.model.CompilesTo .ascending compiled) :
    List.Forall₂ (fun c e => w.model.collection? e.kind e.name = some c ∧
        c.ExpandsTo w.model.vars .ascending e)
      (w.listed .intent ++ w.listed .entity) compiled.collections := by
  have hfound (kind : Kind) : List.Forall₂ (fun c e =>
      w.model.collection? e.kind e.name = some c ∧ c.ExpandsTo w.model.vars .ascending e)
      (w.listed kind) (compiled.ofKind kind) := by
    have hmem := (List.forall₂_and_left _ _).2
      ⟨fun c hc => (w.listed_perm kind).mem_iff.1 hc, forall₂_listed h kind⟩
    refine hmem.imp fun c e hce => ⟨?_, hce.2⟩
    have hshows := Summary.Row.shows_of_expandsTo hce.2
    rw [hshows.kind, hshows.name, hkind kind c hce.1]
    exact Model.collection?_of_mem (hnames kind) hce.1
  exact List.rel_append (hfound .intent) (hfound .entity)

/-- **The table has one row for each collection**, which shows it. -/
theorem forall₂_rows (h : w.model.CompilesTo .ascending compiled) :
    List.Forall₂ (Summary.Row.Shows w.model.vars) (Summary.rows w compiled)
      (w.listed .intent ++ w.listed .entity) := by
  refine forall₂_filterMap (fun c e hce => ?_) (forall₂_collection? hnames hkind h)
  rw [hce.1]
  exact ⟨⟨c, e⟩, rfl, Summary.Row.shows_of_expandsTo hce.2⟩

/-- **No look-up drops an expansion.** -/
theorem map_expanded_rows (h : w.model.CompilesTo .ascending compiled) :
    (Summary.rows w compiled).map Summary.Row.expanded = compiled.collections := by
  have hshown : List.Forall₂ (fun c e => c.ExpandsTo w.model.vars .ascending e)
      (w.listed .intent ++ w.listed .entity)
      ((Summary.rows w compiled).map Summary.Row.expanded) := by
    rw [List.forall₂_map_right_iff]
    exact (forall₂_rows hnames hkind h).flip.imp fun _ _ hrow => hrow.expanded
  have hexpanded := (forall₂_collection? hnames hkind h).imp fun _ _ => And.right
  exact (Collection.rightUnique_expandsTo ..).forall₂ hshown hexpanded

theorem length_rows (h : w.model.CompilesTo .ascending compiled) :
    (Summary.rows w compiled).length = w.collections.length := by
  have hperm : (w.listed .intent ++ w.listed .entity).Perm w.collections :=
    (w.listed_perm .intent).append (w.listed_perm .entity)
  rw [(forall₂_rows hnames hkind h).length_eq, hperm.length_eq]

/-- **The table that is printed is regular.** -/
theorem regular_rows (hidentifiers : w.model.Every fun _ c => IsIdentifier c.name)
    (h : w.model.CompilesTo .ascending compiled) :
    (Summary.table (Summary.rows w compiled)).Regular := by
  refine Summary.regular_table fun row hrow => ?_
  obtain ⟨c, hc, hshows⟩ := exists_left_of_forall₂ (forall₂_rows hnames hkind h).flip hrow
  rw [hshows.collection]
  rcases List.mem_append.1 hc with hc | hc
  · exact hidentifiers .intent c ((w.listed_perm .intent).mem_iff.1 hc)
  · exact hidentifiers .entity c ((w.listed_perm .entity).mem_iff.1 hc)

end Loaded

end Workspace

/-- **What is loaded is shown**, once it is compiled. -/
theorem Workspace.shownBy_rows {limit : Nat} {sources : List Source} {w : Workspace}
    (hw : w = (({ limit } : Workspace).addAll sources).2) {compiled : Compiled}
    (h : w.model.CompilesTo .ascending compiled) :
    (Summary.rows w compiled).map Summary.Row.expanded = compiled.collections ∧
      w.ShownBy (Summary.rows w compiled) := by
  have hnames : w.model.NamesDistinct :=
    hw ▸ namesDistinct_addAll (w := { limit }) Model.namesDistinct_empty sources
  have hkind : ∀ kind, ∀ c ∈ w.model.collections kind, c.kind = kind :=
    fun kind c hc => (hw ▸ slotsDistinct_addAll limit sources : w.model.Every _) kind c hc |>.1
  have hregular := regular_rows hnames hkind (hw ▸ identifiers_addAll limit sources) h
  have hlength := length_rows hnames hkind h
  have hempty : (Summary.rows w compiled).isEmpty = w.collections.isEmpty := by
    rw [Bool.eq_iff_iff, List.isEmpty_iff_length_eq_zero, hlength,
      List.isEmpty_iff_length_eq_zero]
  refine ⟨map_expanded_rows hnames hkind h,
    ⟨_, inTableOrder_listed hnames hkind, forall₂_rows hnames hkind h⟩,
    fun files names => ?_, Table.read_draw hregular, _, Table.lengths_fields hregular⟩
  rw [Summary.workspace_eq, hlength, hempty]

/-! ## The command -/

namespace Command

open Utterance.Action Export

variable {w next : Workspace} {start stop : List Event × FileTree}

/-- A file that is loaded is one source more. -/
theorem exists_addAll_of_loadFile {path : Text}
    (h : (loadFile w path : Action (StateM FileTree) Workspace).Returns start next stop) :
    ∃ s, next = (w.addAll [s]).2 := by
  unfold loadFile at h
  obtain ⟨_, _, -, h⟩ := returns_bind.1 h
  obtain ⟨found, _, -, h⟩ := returns_bind.1 h
  cases found with
  | error e => exact absurd h returns_throw
  | ok text =>
    obtain ⟨added, _, htelling, h⟩ := returns_bind.1 h
    obtain ⟨rfl, -⟩ := htelling.unique (returns_telling _)
    cases hadded : (w.add text path).value with
    | error e =>
      rw [hadded] at h
      exact absurd h returns_throw
    | ok w' =>
      rw [hadded] at h
      obtain ⟨rfl, -⟩ := returns_pure.1 h
      have hattempt : w.attempt ⟨text, path⟩ = (.ok (), next) := by
        rw [Workspace.attempt, hadded]
      exact ⟨⟨text, path⟩, (congrArg Prod.snd hattempt).symm⟩

/-- **A workspace that was loaded** is reached by a sequence of loads. -/
theorem exists_addAll_of_load {paths : List Text}
    (h : (load paths : Action (StateM FileTree) Workspace).Returns start w stop) :
    ∃ sources, w = (({} : Workspace).addAll sources).2 := by
  have hfound (w : Workspace) (found : Found) {start value stop}
      (hw : ∃ sources, w = (({} : Workspace).addAll sources).2)
      (h : (loadFound w found : Action (StateM FileTree) Workspace).Returns start value stop) :
      ∃ sources, value = (({} : Workspace).addAll sources).2 := by
    obtain ⟨sources, rfl⟩ := hw
    cases found with
    | refused path e => exact absurd h returns_throw
    | file path explicit =>
      rw [loadFound] at h
      split at h
      · obtain ⟨s, rfl⟩ := exists_addAll_of_loadFile h
        exact ⟨sources ++ [s], (Workspace.addAll_append ..).symm⟩
      · exact ⟨sources, (returns_pure.1 h).1⟩
  refine Returns.foldlM (P := fun w => ∃ sources, w = (({} : Workspace).addAll sources).2)
    (fun w path {start value stop} hw h => ?_) ⟨[], rfl⟩ h
  obtain ⟨_, _, -, h⟩ := returns_bind.1 h
  exact Returns.foldlM hfound hw h

/-- **A listing prints the table** of what it loaded and compiled, and the log
counts the collections. -/
theorem returns_runList {paths : List Text} {fuel : Nat} {logged : Logged Compiled}
    (hload : (load paths : Action (StateM FileTree) Workspace).Returns start w stop)
    (hcompile : w.compile fuel .ascending = some logged) :
    (runList fuel paths : Action (StateM FileTree) String).Returns start
      (Summary.workspace w.sources.length w.sources (Summary.rows w logged.value))
      (.listing w.collections.length :: (logged.events.reverse ++ stop.1), stop.2) := by
  have htold : (tell (.listing w.collections.length) : Action (StateM FileTree) Unit).Returns
      (logged.events.reverse ++ stop.1, stop.2) ()
      (.listing w.collections.length :: (logged.events.reverse ++ stop.1), stop.2) :=
    returns_tell.2 rfl
  exact returns_bind.2 ⟨w, stop, hload, returns_bind.2 ⟨_, _, returns_ended hcompile, returns_bind.2
    ⟨_, _, returns_telling logged, returns_bind.2 ⟨(), _, htold, returns_pure.2 ⟨rfl, rfl⟩⟩⟩⟩⟩

/-- **The list command shows every collection once with its own numbers.** Take
a workspace that any sequence of loads leaves, accepted or refused, whose
expansions end. It compiles, and there is one row for each collection: the
intents first and then the entities, those of a kind with their names ascending
byte by byte. Each row joins a collection with the expansion of the same kind
and name, which is the expansion of just this collection, and its cells count,
each under its title, its templates, its slots, and the sentences and reports
that the runs of its templates yield. No look-up drops a row. What is printed of
the rows is a heading that counts the collections of the workspace, the sources,
and the drawing of a table; read line by line, it has the titles and then the
cells of every row, in the order of the rows. The command prints this, under
every bound that is large enough, of whatever sources it loads. -/
theorem list_shows_every_collection :
    (∀ (limit : Nat) (sources : List Source),
      let w := (({ limit } : Workspace).addAll sources).2
      w.RunsEnd → ∃ compiled, w.model.CompilesTo .ascending compiled ∧
        (Summary.rows w compiled).map Summary.Row.expanded = compiled.collections ∧
        w.ShownBy (Summary.rows w compiled)) ∧
    ∀ (paths : List Text) (start middle : List Event × FileTree) (w : Workspace),
      (load paths : Action (StateM FileTree) Workspace).Returns start w middle →
      (∃ sources, w = (({} : Workspace).addAll sources).2) ∧
      (w.RunsEnd → ∃ compiled bound, w.model.CompilesTo .ascending compiled ∧
        w.ShownBy (Summary.rows w compiled) ∧ ∀ fuel, bound ≤ fuel → ∃ stop,
          (runList fuel paths : Action (StateM FileTree) String).Returns start
            (Summary.workspace w.sources.length w.sources (Summary.rows w compiled)) stop) := by
  constructor
  · intro limit sources w hends
    obtain ⟨compiled, hcompiled⟩ := Workspace.runsEnd_iff.1 hends
    exact ⟨compiled, hcompiled, Workspace.shownBy_rows rfl hcompiled⟩
  · intro paths start middle w hload
    obtain ⟨sources, hw⟩ := exists_addAll_of_load hload
    refine ⟨⟨sources, hw⟩, fun hends => ?_⟩
    obtain ⟨compiled, hcompiled⟩ := Workspace.runsEnd_iff.1 hends
    obtain ⟨-, hshown⟩ := Workspace.shownBy_rows hw hcompiled
    obtain ⟨bound, logged, hcompile, rfl⟩ := hcompiled
    refine ⟨logged.value, bound, ⟨bound, logged, hcompile, rfl⟩, hshown, fun fuel hle => ?_⟩
    have hmore : w.compile fuel .ascending = some logged :=
      Model.stableInBound_compile .ascending hle hcompile
    exact ⟨_, returns_runList hload hmore⟩

/-- An intent and an entity of one name, the intent opened in two files and
before another one that precedes it in the table, and a source that is refused
in between. -/
theorem list_shows_every_collection_shared_name :
    let first := "INTENT: Tea\nSLOT: size\n(a|b) <size>\n<sort>\nINTENT: Cup\ncup"
    let second := "ENTITY: Tea\ntea\nleaf|leaf\nINTENT: Tea\n$gone"
    let refused : Source := ⟨"ENTITY: Cup\nSLOT: !".toList, "c.dry".toList⟩
    let paths := ["a.dry".toList, "b.dry".toList]
    let w := (({} : Workspace).addAll
      [⟨first.toList, "a.dry".toList⟩, refused, ⟨second.toList, "b.dry".toList⟩]).2
    let tree : FileTree := { files := [(["a.dry".toList], first), (["b.dry".toList], second)] }
    let cells : List (List Text) :=
      [["intent".toList, "Cup".toList, "1".toList, "0".toList, "1".toList, "0".toList],
        ["intent".toList, "Tea".toList, "3".toList, "1".toList, "3".toList, "2".toList],
        ["entity".toList, "Tea".toList, "2".toList, "0".toList, "3".toList, "0".toList]]
    w.RunsEnd ∧ ∃ middle compiled bound,
      (load paths : Action (StateM FileTree) Workspace).Returns ([], tree) w middle ∧
      w.model.CompilesTo .ascending compiled ∧
      (Summary.rows w compiled).map Summary.Row.expanded = compiled.collections ∧
      (Summary.rows w compiled).map Summary.Row.cells = cells ∧
      Table.read (Summary.table (Summary.rows w compiled)).draw = Summary.titles :: cells ∧
      ∀ fuel, bound ≤ fuel → ∃ stop,
        (runList fuel paths : Action (StateM FileTree) String).Returns ([], tree)
          (Summary.workspace 2 paths (Summary.rows w compiled)) stop := by
  intro first second refused paths w tree cells
  obtain ⟨hlisting, hcommand⟩ := list_shows_every_collection
  have hends : w.RunsEnd := by
    have hsome : (w.compile 20 .found).isSome = true := by decide +kernel
    obtain ⟨logged, hcompile⟩ := Option.isSome_iff_exists.1 hsome
    exact Workspace.runsEnd_iff.2 ⟨_, 20, logged, hcompile, rfl⟩
  obtain ⟨middle, hload⟩ : ∃ middle,
      (load paths : Action (StateM FileTree) Workspace).Returns ([], tree) w middle := by
    have houtcome : (match (load paths : Action (StateM FileTree) Workspace).outcome [] tree with
        | (.ok loaded, _) => decide (loaded = w)
        | _ => false) = true := by decide +kernel
    split at houtcome
    · rename_i loaded middle hreturns
      exact ⟨middle, of_decide_eq_true houtcome ▸ hreturns⟩
    · cases houtcome
  obtain ⟨compiled, hcompiled, hexpanded, -⟩ := hlisting _ _ hends
  obtain ⟨-, hrun⟩ := hcommand paths ([], tree) middle w hload
  obtain ⟨compiled', bound, hcompiled', ⟨⟨listed, horder, hrows⟩, -, hdrawing, -⟩, hprints⟩ :=
    hrun hends
  obtain rfl := hcompiled.unique hcompiled'
  -- each kind was opened in the other order
  have hreversed : w.InTableOrder fun kind => (w.model.collections kind).reverse :=
    { perm := fun kind => List.reverse_perm _
      kind_eq := fun kind c hc =>
        horder.kind_eq kind c ((horder.perm kind).mem_iff.2 (List.mem_reverse.1 hc))
      ascend := fun kind => by cases kind <;> decide +kernel }
  obtain rfl := horder.unique hreversed
  have hcounted : (w.model.intents.reverse ++ w.model.entities.reverse).mapM
      (fun c => (c.runs 20 w.model.vars).map fun runs => (c.entries runs).map Prod.snd) =
        some cells := by
    have hdiagnostics : Run.diagnostics = fun run =>
        run.findings.eraseDups.map (Diagnostic.of run.template run.collection) :=
      funext Run.diagnostics_eq
    unfold Collection.entries
    rw [hdiagnostics]
    decide +kernel
  obtain ⟨shown, hsame, hshown⟩ := exists_forall₂ (Q := Eq)
    (T := fun row cells => row.cells = cells)
    (fun c row cells hrow hc => ⟨cells, rfl, hrow.cells_eq hc⟩) hrows.flip
    (forall₂_of_mapM hcounted)
  obtain rfl := List.forall₂_eq_eq_eq ▸ hsame
  have hcells : (Summary.rows w compiled).map Summary.Row.cells = cells :=
    (map_eq_of_forall₂ hshown).trans (List.map_id _)
  rw [hcells] at hdrawing
  have hsources : w.sources = paths := by decide +kernel
  rw [hsources] at hprints
  exact ⟨hends, middle, compiled, bound, hload, hcompiled, hexpanded, hcells, hdrawing, hprints⟩

end Command

end Utterance

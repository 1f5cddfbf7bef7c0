import Utterance.Proofs.Cleaning
import Utterance.Report.Table
import Mathlib.Data.List.Forall2

/-!
# Tables — a drawing is read again

The lines of a drawing that begin with a wall hold the titles and the rows, the
others are rules. Between two walls stands one cell with blanks around it, so
that a table whose cells have no blanks of their own is read from its drawing
cell by cell (`Table.read_draw`). Every cell fits the width of its column
(`Table.Regular.fits`): the walls of all these lines stand below each other
(`Table.lengths_fields`).
-/

namespace Utterance

/-! ## Pieces and what is put between them -/

theorem mem_intersperse {α : Type} {a sep : α} {items : List α}
    (h : a ∈ items.intersperse sep) : a = sep ∨ a ∈ items := by
  induction items with
  | nil => cases h
  | cons b items ih =>
    cases items with
    | nil => exact .inr h
    | cons c items =>
      rw [List.intersperse_cons_cons, List.mem_cons, List.mem_cons] at h
      rcases h with rfl | rfl | h
      · exact .inr (by simp)
      · exact .inl rfl
      · exact (ih h).imp id (List.mem_cons_of_mem b)

theorem mem_intercalate {α : Type} {a : α} {sep : List α} {parts : List (List α)}
    (h : a ∈ sep.intercalate parts) : a ∈ sep ∨ ∃ part ∈ parts, a ∈ part := by
  obtain ⟨part, hpart, ha⟩ := List.mem_flatten.1 h
  rcases mem_intersperse hpart with rfl | hpart
  · exact .inl ha
  · exact .inr ⟨part, hpart, ha⟩

theorem filter_intersperse {α : Type} {p : α → Bool} {sep : α} (hsep : p sep = false)
    {items : List α} (h : ∀ a ∈ items, p a = true) : (items.intersperse sep).filter p = items := by
  induction items with
  | nil => rfl
  | cons a items ih =>
    have ha : p a = true := h a (by simp)
    cases items with
    | nil => simp [ha]
    | cons b items =>
      rw [List.intersperse_cons_cons, List.filter_cons_of_pos ha,
        List.filter_cons_of_neg (by simp [hsep]), ih fun c hc => h c (by simp [hc])]

namespace Table

/-! ## Reading -/

/-- Whether a line begins with a wall. -/
def isWalled (line : Text) : Bool :=
  line.head? = some '│'

/-- The lines of a drawing that begin with a wall. -/
def walled (drawing : Text) : List Text :=
  (drawing.splitOn '\n').filter isWalled

/-- What stands between two walls of a line. -/
def fields (line : Text) : List Text :=
  line.tail.dropLast.splitOn '┆'

/-- **The cells of a drawing**, line by line. -/
def read (drawing : Text) : List (List Text) :=
  (walled drawing).map fun line => (fields line).map Text.trim

/-- The titles of the columns. -/
def titles (t : Table) : List Text :=
  t.columns.map Column.title

/-- A cell with nothing in it that the drawing puts between cells. -/
def Plain (cell : Text) : Prop :=
  ∀ c ∈ cell, isBlank c = false ∧ c ≠ '┆'

instance : DecidablePred Plain := fun cell =>
  List.decidableBAll (fun c => isBlank c = false ∧ c ≠ '┆') cell

/-- **A regular table**: every row has a cell for each column, and the cells are
plain. -/
structure Regular (t : Table) : Prop where
  columns : t.columns ≠ []
  length_eq : ∀ row ∈ t.titles :: t.rows, row.length = t.columns.length
  plain : ∀ row ∈ t.titles :: t.rows, ∀ cell ∈ row, Plain cell

/-! ## Widths -/

/-- No cell of a row is longer than its column is wide. -/
def Fits (widths : List Nat) (row : List Text) : Prop :=
  List.Forall₂ (fun w text => text.length ≤ w) widths row

/-- Columns made wide enough for one row more. -/
def widen (widths : List Nat) (row : List Text) : List Nat :=
  (widths.zip row).map fun (w, text) => max w text.length

variable {widths : List Nat} {row other : List Text}

theorem length_widen (h : row.length = widths.length) :
    (widen widths row).length = widths.length := by
  simp [widen, h]

theorem fits_widen (h : row.length = widths.length) : Fits (widen widths row) row := by
  induction row generalizing widths with
  | nil =>
    obtain rfl := List.length_eq_zero_iff.1 h.symm
    exact .nil
  | cons text row ih =>
    cases widths with
    | nil => cases h
    | cons w widths => exact .cons (Nat.le_max_right ..) (ih (Nat.succ.inj h))

/-- What fits still fits when the columns are made wider. -/
theorem Fits.widen (h : Fits widths row) (hlength : other.length = widths.length) :
    Fits (widen widths other) row := by
  induction h generalizing other with
  | nil => exact .nil
  | cons hle _ ih =>
    cases other with
    | nil => cases hlength
    | cons text other =>
      exact .cons (hle.trans (Nat.le_max_left ..)) (ih (Nat.succ.inj hlength))

/-- One row after the other, all come to fit. -/
theorem fits_foldl_widen {rows : List (List Text)}
    (hrows : ∀ row ∈ rows, row.length = widths.length) (h : Fits widths row ∨ row ∈ rows) :
    Fits (rows.foldl Table.widen widths) row := by
  induction rows generalizing widths with
  | nil => simpa using h
  | cons first rows ih =>
    have hfirst : first.length = widths.length := hrows first (by simp)
    refine ih (fun row hrow => ?_) ?_
    · rw [length_widen hfirst, hrows row (by simp [hrow])]
    · rcases h with h | h
      · exact .inl (h.widen hfirst)
      · rcases List.mem_cons.1 h with rfl | h
        · exact .inl (fits_widen hfirst)
        · exact .inr h

variable {t : Table}

/-- **Every row fits the columns.** -/
theorem Regular.fits (h : t.Regular) (hrow : row ∈ t.titles :: t.rows) : Fits t.widths row := by
  have htitles : Fits (t.columns.map fun column => column.title.length) t.titles := by
    rw [Fits, titles, List.forall₂_map_left_iff, List.forall₂_map_right_iff, List.forall₂_same]
    exact fun _ _ => le_rfl
  refine fits_foldl_widen (fun row hrow => ?_) ?_
  · rw [List.length_map, h.length_eq row (by simp [hrow])]
  · rcases List.mem_cons.1 hrow with rfl | hrow
    · exact .inl htitles
    · exact .inr hrow

/-! ## Cells -/

section Cell

variable (alignment : Alignment) (width : Nat) (text : Text)

/-- A cell is a text between blanks. -/
theorem exists_cell : ∃ before behind, before + behind = width - text.length + 2 ∧
    cell alignment width text = List.replicate before ' ' ++ text ++ List.replicate behind ' ' := by
  cases alignment with
  | left => exact ⟨1, width - text.length + 1, by omega, by simp [cell, List.replicate_succ']⟩
  | right => exact ⟨width - text.length + 1, 1, by omega, by simp [cell, List.replicate_succ]⟩

variable {width text}

theorem length_cell (h : text.length ≤ width) :
    (cell alignment width text).length = width + 2 := by
  obtain ⟨before, behind, hblanks, hcell⟩ := exists_cell alignment width text
  rw [hcell, List.length_append, List.length_append, List.length_replicate, List.length_replicate]
  omega

theorem mem_cell {c : Char} (h : c ∈ cell alignment width text) : c ∈ text ∨ c = ' ' := by
  obtain ⟨before, behind, -, hcell⟩ := exists_cell alignment width text
  rw [hcell, List.mem_append, List.mem_append] at h
  rcases h with (h | h) | h
  · exact .inr (List.eq_of_mem_replicate h)
  · exact .inl h
  · exact .inr (List.eq_of_mem_replicate h)

/-- A plain text is read from its cell. -/
theorem trim_cell (h : Plain text) : (cell alignment width text).trim = text := by
  have hblank (n : Nat) : ∀ c ∈ List.replicate n ' ', isBlank c = true := by
    intro c hc
    rw [List.eq_of_mem_replicate hc]
    decide
  obtain ⟨before, behind, -, hcell⟩ := exists_cell alignment width text
  rw [hcell]
  exact Text.trim_append_word_append (hblank before) (fun c hc => (h c hc).1) (hblank behind)

end Cell

/-! ## Lines -/

/-- What stands between the walls of a row. -/
def padded (t : Table) (cells : List Text) : List Text :=
  (t.columns.zip (t.widths.zip cells)).map fun (column, width, text) =>
    cell column.alignment width text

theorem rowLine_eq (t : Table) (cells : List Text) :
    t.rowLine cells = '│' :: ['┆'].intercalate (t.padded cells) ++ ['│'] := rfl

namespace Regular

variable (h : t.Regular) (hrow : row ∈ t.titles :: t.rows)
include h hrow

/-- Where the alignments do not matter, the padded cells are as good as the
widths and the texts. -/
theorem map_padded {β : Type} {f : Text → β} {g : Nat × Text → β}
    (hcell : ∀ alignment width text, text.length ≤ width → Plain text →
      f (cell alignment width text) = g (width, text)) :
    (t.padded row).map f = (t.widths.zip row).map g := by
  have hlength : (t.widths.zip row).length ≤ t.columns.length := by
    rw [List.length_zip, h.length_eq row hrow]
    exact Nat.min_le_right ..
  have hentries : ∀ entry ∈ t.columns.zip (t.widths.zip row),
      f (cell entry.1.alignment entry.2.1 entry.2.2) = g entry.2 := by
    rintro ⟨column, width, text⟩ hentry
    have hzip : (width, text) ∈ t.widths.zip row := (List.of_mem_zip hentry).2
    exact hcell _ _ _ ((List.forall₂_iff_zip.1 (h.fits hrow)).2 hzip)
      (h.plain row hrow text (List.of_mem_zip hzip).2)
  calc (t.padded row).map f
      = (t.columns.zip (t.widths.zip row)).map fun entry => g entry.2 := by
        rw [padded, List.map_map]
        exact List.map_congr_left hentries
    _ = ((t.columns.zip (t.widths.zip row)).map Prod.snd).map g := by rw [List.map_map]; rfl
    _ = (t.widths.zip row).map g := by rw [List.map_snd_zip hlength]

/-- **The texts are read from their cells.** -/
theorem map_trim_padded : (t.padded row).map Text.trim = row := by
  rw [h.map_padded (g := Prod.snd) hrow fun alignment _ _ _ hplain => trim_cell alignment hplain]
  exact List.map_snd_zip (h.fits hrow).length_eq.ge

/-- **The cells are as wide as their columns**, with a space on each side. -/
theorem map_length_padded : (t.padded row).map List.length = t.widths.map (· + 2) := by
  have hwidths : ((t.widths.zip row).map Prod.fst).map (· + 2) = t.widths.map (· + 2) := by
    rw [List.map_fst_zip (h.fits hrow).length_eq.le]
  rw [h.map_padded (g := fun entry => entry.1 + 2) hrow fun alignment _ _ hle _ =>
    length_cell alignment hle, ← hwidths, List.map_map]
  rfl

theorem padded_ne_nil : t.padded row ≠ [] := by
  intro hnil
  have hlength := congrArg List.length (h.map_trim_padded hrow)
  rw [hnil, h.length_eq row hrow] at hlength
  exact h.columns (List.length_eq_zero_iff.1 hlength.symm)

/-- Nothing in a padded cell is put between cells or lines. -/
theorem of_mem_padded {text : Text} (htext : text ∈ t.padded row) {c : Char} (hc : c ∈ text) :
    c ≠ '┆' ∧ c ≠ '\n' := by
  obtain ⟨⟨column, width, plain⟩, hentry, rfl⟩ := List.mem_map.1 htext
  have hplain := h.plain row hrow plain (List.of_mem_zip (List.of_mem_zip hentry).2).2
  rcases mem_cell _ hc with hc | rfl
  · refine ⟨(hplain c hc).2, ?_⟩
    rintro rfl
    exact absurd (hplain _ hc).1 (by decide)
  · decide

theorem fields_rowLine : fields (t.rowLine row) = t.padded row := by
  rw [rowLine_eq, fields, List.cons_append, List.tail_cons, List.dropLast_concat]
  exact List.splitOn_intercalate '┆' (fun _ htext hwall => (h.of_mem_padded hrow htext hwall).1 rfl)
    (h.padded_ne_nil hrow)

theorem notMem_rowLine : '\n' ∉ t.rowLine row := by
  rw [rowLine_eq, List.mem_append, List.mem_cons, List.mem_singleton]
  rintro ((hend | hend) | hend)
  · exact absurd hend (by decide)
  · rcases mem_intercalate hend with hend | ⟨text, htext, hend⟩
    · exact absurd hend (by decide)
    · exact (h.of_mem_padded hrow htext hend).2 rfl
  · exact absurd hend (by decide)

end Regular

theorem notMem_rule {left dash cross right : Char} (h : '\n' ∉ [left, dash, cross, right]) :
    '\n' ∉ t.rule left dash cross right := by
  simp only [List.mem_cons, List.not_mem_nil, not_or, or_false] at h
  obtain ⟨hleft, hdash, hcross, hright⟩ := h
  rw [rule, List.mem_append, List.mem_cons, List.mem_singleton]
  rintro ((hend | hend) | hend)
  · exact hleft hend
  · rcases mem_intercalate hend with hend | ⟨dashes, hdashes, hend⟩
    · exact hcross (List.mem_singleton.1 hend)
    · obtain ⟨width, -, rfl⟩ := List.mem_map.1 hdashes
      exact hdash (List.eq_of_mem_replicate hend)
  · exact hright hend

/-! ## Drawings -/

/-- No line of a drawing ends early. -/
theorem Regular.notMem_lines (h : t.Regular) : ∀ line ∈ t.lines, '\n' ∉ line := by
  intro line hline
  have hrow : ∀ row ∈ t.titles :: t.rows, '\n' ∉ t.rowLine row := fun _ => h.notMem_rowLine
  simp only [lines, List.mem_append, List.mem_cons, List.not_mem_nil, or_false] at hline
  rcases hline with ((rfl | rfl | rfl) | hline) | rfl
  · exact notMem_rule (by decide)
  · exact hrow t.titles (by simp)
  · exact notMem_rule (by decide)
  · rcases mem_intersperse hline with rfl | hline
    · exact notMem_rule (by decide)
    · obtain ⟨row, hmem, rfl⟩ := List.mem_map.1 hline
      exact hrow row (by simp [hmem])
  · exact notMem_rule (by decide)

/-- **The lines with walls** are the title line and the rows, in their order. -/
theorem Regular.walled_draw (h : t.Regular) :
    walled t.draw = (t.titles :: t.rows).map t.rowLine := by
  have hrule {left dash cross right : Char} (hleft : left ≠ '│') :
      isWalled (t.rule left dash cross right) = false := by
    simp [isWalled, rule, hleft]
  have hrow (row : List Text) : isWalled (t.rowLine row) = true := by
    simp [isWalled, rowLine_eq]
  have hsplit : t.draw.splitOn '\n' = t.lines :=
    List.splitOn_intercalate '\n' h.notMem_lines (by simp [lines])
  have hrows : ∀ line ∈ t.rows.map t.rowLine, isWalled line = true := by
    intro line hline
    obtain ⟨row, -, rfl⟩ := List.mem_map.1 hline
    exact hrow row
  rw [walled, hsplit, lines, List.filter_append, List.filter_append,
    filter_intersperse (hrule (by decide)) hrows]
  simp [hrule, hrow, titles]

/-- **A drawing is read back**: the titles, and then the rows. -/
theorem read_draw (h : t.Regular) : read t.draw = t.titles :: t.rows := by
  have hline : ∀ row ∈ t.titles :: t.rows, (fields (t.rowLine row)).map Text.trim = row := by
    intro row hrow
    rw [h.fields_rowLine hrow, h.map_trim_padded hrow]
  rw [read, h.walled_draw, List.map_map]
  exact (List.map_congr_left hline).trans (List.map_id _)

/-- **The walls stand below each other.** -/
theorem lengths_fields (h : t.Regular) :
    ∀ line ∈ walled t.draw, (fields line).map List.length = t.widths.map (· + 2) := by
  intro line hline
  rw [h.walled_draw] at hline
  obtain ⟨row, hrow, rfl⟩ := List.mem_map.1 hline
  rw [h.fields_rowLine hrow, h.map_length_padded hrow]

end Table

end Utterance

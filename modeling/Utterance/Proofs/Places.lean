import Utterance.Files.Tree

/-!
# Places — names below a folder

A path leads somewhere by its steps, and a name that is joined to a path is
one step more (`Path.steps_join`). So a path to a folder, with a name joined
to it, means the place of that name in the folder: a file is written there
(`FileTree.write_join`) and read there (`FileTree.read_join`), and a folder
is made there (`FileTree.makeFolder_join`). A tree that only grows leaves
every path leading where it led (`FileTree.FolderAt.of_grows`).
-/

namespace Utterance

/-! ## Paths -/

namespace Path

/-- A name that a path can be led on by: one step, not back and not to stay. -/
structure IsName (name : Text) : Prop where
  /-- It is not empty. -/
  ne_nil : name ≠ []
  /-- It is one name. -/
  slash_notMem : '/' ∉ name
  /-- It does not stay. -/
  ne_stay : name ≠ ['.']
  /-- It does not lead back. -/
  ne_back : name ≠ ['.', '.']

/-- Whether a name that is joined to a path is accepted: neither is too
long. -/
def Allowed (path name : Text) : Prop :=
  fits (join path name) = true ∧ name.byteSize ≤ nameLimit

instance (path name : Text) : Decidable (Allowed path name) :=
  inferInstanceAs (Decidable (_ ∧ _))

theorem steps_append_slash (p q : Text) : steps (p ++ '/' :: q) = steps p ++ steps q := by
  rw [steps, List.splitOn_append_cons_self, List.filter_append, List.map_append]
  rfl

theorem IsName.steps {name : Text} (h : IsName name) : steps name = [.name name] := by
  rw [Path.steps, List.splitOn_eq_singleton h.slash_notMem]
  simp [h.ne_nil, Step.ofPart, h.ne_stay, h.ne_back]

/-- The ways in which a name is joined to a path. -/
theorem join_cases (path name : Text) :
    (path = [] ∧ join path name = name) ∨
    (∃ p, path = p ++ ['/'] ∧ join path name = p ++ '/' :: name) ∨
    (path ≠ [] ∧ join path name = path ++ '/' :: name) := by
  unfold join
  split
  · rename_i h
    rcases Bool.or_eq_true_iff.1 h with hempty | hslash
    · obtain rfl := List.isEmpty_iff.1 hempty
      exact .inl ⟨rfl, rfl⟩
    · obtain ⟨p, rfl⟩ := List.getLast?_eq_some_iff.1 (eq_of_beq hslash)
      exact .inr (.inl ⟨p, rfl, by simp⟩)
  · rename_i h
    refine .inr (.inr ⟨?_, rfl⟩)
    rintro rfl
    exact h rfl

/-- **A joined name is one step more.** -/
theorem steps_join (path name : Text) : steps (join path name) = steps path ++ steps name := by
  rcases join_cases path name with ⟨rfl, h⟩ | ⟨p, rfl, h⟩ | ⟨-, h⟩
  · rw [h]
    rfl
  · have hnothing : steps [] = [] := rfl
    rw [h, steps_append_slash, steps_append_slash, hnothing, List.append_nil]
  · rw [h, steps_append_slash]

theorem isRelative_join {path name : Text} (h : IsName name) :
    isRelative (join path name) = isRelative path := by
  obtain ⟨c, name, rfl⟩ := List.exists_cons_of_ne_nil h.ne_nil
  have hc : c ≠ '/' := fun hc => h.slash_notMem (by simp [hc])
  rcases join_cases path (c :: name) with ⟨rfl, hjoin⟩ | ⟨p, rfl, hjoin⟩ | ⟨hne, hjoin⟩
  · have hnew : (some c != some '/') = true := by simp [hc]
    rw [hjoin]
    exact hnew
  · rw [hjoin]
    cases p <;> simp [isRelative]
  · obtain ⟨d, path, rfl⟩ := List.exists_cons_of_ne_nil hne
    rw [hjoin]
    simp [isRelative]

/-- A joined path is its path and then the name. -/
theorem exists_join_eq_append (path : Text) :
    ∃ folder, path <+: folder ∧ ∀ name, join path name = folder ++ name := by
  unfold join
  split
  · exact ⟨path, List.prefix_rfl, fun _ => rfl⟩
  · exact ⟨path ++ ['/'], List.prefix_append _ _, fun _ => by simp⟩

theorem endsInSlash_join {path name : Text} (h : IsName name) :
    endsInSlash (join path name) = false := by
  obtain ⟨folder, -, hjoin⟩ := exists_join_eq_append path
  have hlast : name.getLast h.ne_nil ≠ '/' := fun hl =>
    h.slash_notMem (hl ▸ List.getLast_mem h.ne_nil)
  rw [hjoin, endsInSlash, List.getLast?_append, List.getLast?_eq_some_getLast h.ne_nil]
  simp [hlast]

/-- A path is short enough if it is so with a name joined to it. -/
theorem fits_of_join {path name : Text} (h : fits (join path name) = true) : fits path = true := by
  obtain ⟨_, ⟨rest, rfl⟩, hjoin⟩ := exists_join_eq_append path
  rw [fits, decide_eq_true_eq] at h ⊢
  rw [hjoin, Text.byteSize_append, Text.byteSize_append] at h
  omega

end Path

/-! ## Results that are not refusals -/

theorem bind_eq_ok_iff {ε α β : Type} {x : Except ε α} {f : α → Except ε β} {b : β} :
    (x >>= f) = .ok b ↔ ∃ a, x = .ok a ∧ f a = .ok b := by
  cases x <;> simp [bind, Except.bind]

theorem pure_eq_ok_iff {ε α : Type} {a b : α} : (pure a : Except ε α) = .ok b ↔ a = b :=
  ⟨Except.ok.inj, congrArg Except.ok⟩

/-- What is refused under a condition goes on where that does not hold. -/
theorem unless_bind_eq_ok_iff {ε β : Type} {p : Bool} {e : ε} {x : Except ε β} {b : β} :
    (if p then (throw e : Except ε PUnit) >>= fun _ => x else x) = .ok b ↔
      p = false ∧ x = .ok b := by
  cases p <;> simp [bind, Except.bind, throw, throwThe, MonadExceptOf.throw]

namespace FileTree

open Utterance.Path

variable {tree after : FileTree} {path name : Text} {place there : List Text}

/-! ## Where paths lead -/

theorem locate_eq_ok_iff : tree.locate path = .ok place ↔
    fits path = true ∧ isRelative path = true ∧ (steps path).foldlM tree.step [] = .ok place ∧
      (endsInSlash path = true → tree.isFolder place = true) := by
  unfold locate
  simp only [bind_eq_ok_iff, unless_bind_eq_ok_iff, pure_eq_ok_iff, Bool.not_eq_false']
  refine and_congr_right fun _ => and_congr_right fun _ => ?_
  constructor
  · rintro ⟨_, hsteps, hslash, rfl⟩
    exact ⟨hsteps, fun hends => by simpa [hends] using hslash⟩
  · rintro ⟨hsteps, hslash⟩
    refine ⟨place, hsteps, ?_, rfl⟩
    cases hends : endsInSlash path with
    | false => rfl
    | true => simp [hslash hends]

theorem below_eq_ok_iff : tree.below place name = .ok there ↔
    tree.isFolder place = true ∧ name.byteSize ≤ nameLimit ∧ there = place ++ [name] := by
  unfold below
  split
  · rename_i hno
    have hplace : tree.isFolder place = false := by simpa using hno
    simp [hplace]
  · rename_i hfolder
    split
    · rename_i hlong
      simp [Nat.not_le_of_lt hlong]
    · rename_i hshort
      have hplace : tree.isFolder place = true := by simpa using hfolder
      simp [hplace, Nat.le_of_not_lt hshort, eq_comm]

theorem step_name_eq_ok_iff : tree.step place (.name name) = .ok there ↔
    tree.isFolder place = true ∧ name.byteSize ≤ nameLimit ∧
      tree.contains (place ++ [name]) = true ∧ there = place ++ [name] := by
  unfold step
  simp only [bind_eq_ok_iff, below_eq_ok_iff]
  constructor
  · rintro ⟨_, ⟨hfolder, hshort, rfl⟩, hthere⟩
    split at hthere
    · rename_i hcontains
      exact ⟨hfolder, hshort, hcontains, (Except.ok.inj hthere).symm⟩
    · cases hthere
  · rintro ⟨hfolder, hshort, hcontains, rfl⟩
    exact ⟨_, ⟨hfolder, hshort, rfl⟩, if_pos hcontains⟩

/-- **A path leads to a folder** at a place. -/
structure FolderAt (tree : FileTree) (path : Text) (place : List Text) : Prop where
  /-- The place. -/
  locate : tree.locate path = .ok place
  /-- What is there. -/
  folder : tree.isFolder place = true

/-- What it takes for a path to lead to a folder. -/
theorem folderAt_iff : tree.FolderAt path place ↔
    fits path = true ∧ isRelative path = true ∧
      (steps path).foldlM tree.step [] = .ok place ∧ tree.isFolder place = true := by
  constructor
  · rintro ⟨hlocate, hfolder⟩
    obtain ⟨hfits, hrelative, hsteps, -⟩ := locate_eq_ok_iff.1 hlocate
    exact ⟨hfits, hrelative, hsteps, hfolder⟩
  · rintro ⟨hfits, hrelative, hsteps, hfolder⟩
    exact ⟨locate_eq_ok_iff.2 ⟨hfits, hrelative, hsteps, fun _ => hfolder⟩, hfolder⟩

theorem leadsToFolder_iff : tree.leadsToFolder path = true ↔ ∃ place, tree.FolderAt path place := by
  unfold leadsToFolder
  split
  · rename_i place hlocate
    refine ⟨fun hfolder => ⟨place, hlocate, hfolder⟩, ?_⟩
    rintro ⟨other, hother, hfolder⟩
    rw [hlocate] at hother
    rwa [Except.ok.inj hother]
  · rename_i e hlocate
    simp only [Bool.false_eq_true, false_iff]
    rintro ⟨other, hother, -⟩
    rw [hlocate] at hother
    cases hother

/-! ## Names below a folder -/

/-- **A name joined to a folder's path** means its place in the folder. -/
theorem locateNew_join (h : tree.FolderAt path place) (hn : IsName name) :
    tree.locateNew (join path name) = .ok there ↔
      Allowed path name ∧ there = place ++ [name] := by
  obtain ⟨-, hrelative, hsteps, hfolder⟩ := folderAt_iff.1 h
  have hall : steps (join path name) = steps path ++ [.name name] := by
    rw [steps_join, hn.steps]
  unfold locateNew
  simp only [bind_eq_ok_iff, unless_bind_eq_ok_iff, Bool.not_eq_false', isRelative_join hn, hall,
    List.dropLast_concat, List.getLast?_concat, hsteps, below_eq_ok_iff]
  simp [hrelative, hfolder, Allowed, and_assoc]

/-- Something at a name's place is found there. -/
theorem locate_join (h : tree.FolderAt path place) (hn : IsName name) :
    tree.locate (join path name) = .ok there ↔
      Allowed path name ∧ tree.contains (place ++ [name]) = true ∧ there = place ++ [name] := by
  obtain ⟨-, hrelative, hsteps, hfolder⟩ := folderAt_iff.1 h
  rw [locate_eq_ok_iff, isRelative_join hn, steps_join, hn.steps, endsInSlash_join hn,
    List.foldlM_append, bind_eq_ok_iff]
  simp [hsteps, step_name_eq_ok_iff, hrelative, hfolder, Allowed, and_assoc]

/-- **A file is written below a folder** at the place of its name, unless a
folder is there. -/
theorem write_join (h : tree.FolderAt path place) (hn : IsName name) (text : String) :
    tree.write (join path name) text = .ok after ↔
      Allowed path name ∧ tree.isFolder (place ++ [name]) = false ∧
        after = tree.withFile (place ++ [name]) text := by
  unfold write
  simp only [bind_eq_ok_iff, unless_bind_eq_ok_iff, pure_eq_ok_iff, locateNew_join h hn]
  constructor
  · rintro ⟨_, ⟨hallowed, rfl⟩, hfolder, rfl⟩
    exact ⟨hallowed, hfolder, rfl⟩
  · rintro ⟨hallowed, hfolder, rfl⟩
    exact ⟨_, ⟨hallowed, rfl⟩, hfolder, rfl⟩

/-- **A folder is made below a folder** at the place of its name, unless a
file is there. -/
theorem makeFolder_join (h : tree.FolderAt path place) (hn : IsName name) :
    tree.makeFolder (join path name) = .ok after ↔
      Allowed path name ∧ tree.file? (place ++ [name]) = none ∧
        after = tree.withFolder (place ++ [name]) := by
  unfold makeFolder
  simp only [bind_eq_ok_iff, unless_bind_eq_ok_iff, pure_eq_ok_iff, locateNew_join h hn,
    Option.isSome_eq_false_iff, Option.isNone_iff_eq_none]
  constructor
  · rintro ⟨_, ⟨hallowed, rfl⟩, hfile, rfl⟩
    exact ⟨hallowed, hfile, rfl⟩
  · rintro ⟨hallowed, hfile, rfl⟩
    exact ⟨_, ⟨hallowed, rfl⟩, hfile, rfl⟩

/-- **A file is read below a folder** at the place of its name. -/
theorem read_join (h : tree.FolderAt path place) (hn : IsName name) {t : Text} :
    tree.read (join path name) = .ok t ↔
      Allowed path name ∧ (tree.file? (place ++ [name])).map String.toList = some t := by
  have hread : tree.read (join path name) = .ok t ↔
      ∃ there, tree.locate (join path name) = .ok there ∧
        (tree.file? there).map String.toList = some t := by
    unfold read
    rw [bind_eq_ok_iff]
    refine exists_congr fun there => and_congr_right fun _ => ?_
    cases tree.file? there with
    | none => simp [throw, throwThe, MonadExceptOf.throw]
    | some text => simp [pure_eq_ok_iff]
  rw [hread]
  simp only [locate_join h hn]
  constructor
  · rintro ⟨_, ⟨hallowed, -, rfl⟩, hfile⟩
    exact ⟨hallowed, hfile⟩
  · rintro ⟨hallowed, hfile⟩
    refine ⟨_, ⟨hallowed, ?_, rfl⟩, hfile⟩
    obtain ⟨text, htext, -⟩ := Option.map_eq_some_iff.1 hfile
    simp [contains, htext]

/-! ## Growing -/

/-- **A tree grows** into another one in which every folder is a folder and
nothing is gone. -/
structure Grows (tree after : FileTree) : Prop where
  /-- Folders stay. -/
  folder : ∀ names, tree.isFolder names = true → after.isFolder names = true
  /-- What is there stays there. -/
  contains : ∀ names, tree.contains names = true → after.contains names = true

theorem Grows.refl (tree : FileTree) : tree.Grows tree :=
  ⟨fun _ h => h, fun _ h => h⟩

theorem Grows.trans {last : FileTree} (h : tree.Grows after) (h' : after.Grows last) :
    tree.Grows last :=
  ⟨fun names hn => h'.folder names (h.folder names hn),
    fun names hn => h'.contains names (h.contains names hn)⟩

theorem grows_withFile (tree : FileTree) (names : List Text) (text : String) :
    tree.Grows (tree.withFile names text) := by
  refine ⟨fun _ h => h, fun other h => ?_⟩
  rcases Bool.or_eq_true_iff.1 h with hfile | hfolder
  · refine Bool.or_eq_true_iff.2 (.inl ?_)
    rw [file?_withFile]
    split
    · rfl
    · exact hfile
  · exact Bool.or_eq_true_iff.2 (.inr hfolder)

theorem isFolder_withFolder {names other : List Text} :
    (tree.withFolder names).isFolder other = true ↔
      tree.isFolder other = true ∨ other ∈ leading names := by
  unfold withFolder isFolder
  by_cases hknown : other ∈ tree.folders <;> simp [hknown]

theorem grows_withFolder (tree : FileTree) (names : List Text) :
    tree.Grows (tree.withFolder names) := by
  have hfolder : ∀ other, tree.isFolder other = true →
      (tree.withFolder names).isFolder other = true :=
    fun other h => isFolder_withFolder.2 (.inl h)
  refine ⟨hfolder, fun other h => ?_⟩
  rcases Bool.or_eq_true_iff.1 h with hfile | h
  · exact Bool.or_eq_true_iff.2 (.inl hfile)
  · exact Bool.or_eq_true_iff.2 (.inr (hfolder other h))

theorem mem_leading {names other : List Text} :
    other ∈ leading names ↔ other ≠ [] ∧ other <+: names := by
  simp only [leading, List.mem_map, List.mem_range]
  constructor
  · rintro ⟨n, hn, rfl⟩
    refine ⟨?_, List.take_prefix _ _⟩
    rw [← List.length_pos_iff, List.length_take]
    omega
  · rintro ⟨hne, hprefix⟩
    have hpos : 0 < other.length := List.length_pos_iff.2 hne
    refine ⟨other.length - 1, by have := hprefix.length_le; omega, ?_⟩
    rw [Nat.sub_add_cancel hpos]
    exact (List.prefix_iff_eq_take.1 hprefix).symm

/-- A step leads where it led. -/
theorem step_of_grows (hgrows : tree.Grows after) {s : Step} (h : tree.step place s = .ok there) :
    after.step place s = .ok there := by
  cases s with
  | stay =>
    rw [step] at h ⊢
    split at h
    · rename_i hfolder
      rw [if_pos (hgrows.folder place hfolder)]
      exact h
    · cases h
  | back =>
    rw [step] at h ⊢
    split at h
    · cases h
    · rename_i hfolder
      have hplace : after.isFolder place = true := hgrows.folder place (by simpa using hfolder)
      rw [if_neg (by simp [hplace])]
      exact h
  | name name =>
    obtain ⟨hfolder, hshort, hcontains, hthere⟩ := step_name_eq_ok_iff.1 h
    exact step_name_eq_ok_iff.2 ⟨hgrows.folder place hfolder, hshort,
      hgrows.contains _ hcontains, hthere⟩

theorem foldlM_step_of_grows (hgrows : tree.Grows after) {steps : List Step}
    (h : steps.foldlM tree.step place = .ok there) : steps.foldlM after.step place = .ok there := by
  induction steps generalizing place with
  | nil => exact h
  | cons s steps ih =>
    rw [List.foldlM_cons, bind_eq_ok_iff] at h ⊢
    obtain ⟨next, hstep, hrest⟩ := h
    exact ⟨next, step_of_grows hgrows hstep, ih hrest⟩

/-- **A path to a folder leads where it led** in a tree that only grew. -/
theorem FolderAt.of_grows (h : tree.FolderAt path place) (hgrows : tree.Grows after) :
    after.FolderAt path place := by
  obtain ⟨hfits, hrelative, hsteps, hfolder⟩ := folderAt_iff.1 h
  exact folderAt_iff.2 ⟨hfits, hrelative, foldlM_step_of_grows hgrows hsteps,
    hgrows.folder place hfolder⟩

/-- A step is made from a folder. -/
theorem isFolder_of_step {s : Step} (h : tree.step place s = .ok there) :
    tree.isFolder place = true := by
  cases s with
  | stay =>
    rw [step] at h
    split at h
    · assumption
    · cases h
  | back =>
    rw [step] at h
    split at h
    · cases h
    · rename_i hfolder
      simpa using hfolder
  | name name => exact (step_name_eq_ok_iff.1 h).1

/-- A step to a folder is made without the files. -/
theorem step_of_withFile {names : List Text} {text : String} {s : Step}
    (h : (tree.withFile names text).step place s = .ok there)
    (hthere : tree.isFolder there = true) : tree.step place s = .ok there := by
  cases s with
  | stay => exact h
  | back => exact h
  | name name =>
    obtain ⟨hfolder, hshort, -, rfl⟩ := step_name_eq_ok_iff.1 h
    exact step_name_eq_ok_iff.2 ⟨hfolder, hshort, by simp [contains, hthere], rfl⟩

theorem foldlM_step_of_withFile {names : List Text} {text : String} {steps : List Step}
    (h : steps.foldlM (tree.withFile names text).step place = .ok there)
    (hthere : tree.isFolder there = true) : steps.foldlM tree.step place = .ok there := by
  induction steps generalizing place with
  | nil => exact h
  | cons s steps ih =>
    rw [List.foldlM_cons, bind_eq_ok_iff] at h ⊢
    obtain ⟨next, hstep, hrest⟩ := h
    have hrest' := ih hrest
    -- whatever comes next is done in a folder
    have hnext : tree.isFolder next = true := by
      cases steps with
      | nil => exact Except.ok.inj hrest' ▸ hthere
      | cons s' steps =>
        rw [List.foldlM_cons, bind_eq_ok_iff] at hrest'
        obtain ⟨_, hstep', -⟩ := hrest'
        exact isFolder_of_step hstep'
    exact ⟨next, step_of_withFile hstep hnext, hrest'⟩

/-- **A new file makes no folder**: the paths that lead to folders are the
same as before. -/
theorem leadsToFolder_withFile (tree : FileTree) (names : List Text) (text : String)
    (path : Text) : (tree.withFile names text).leadsToFolder path = tree.leadsToFolder path := by
  rw [Bool.eq_iff_iff, leadsToFolder_iff, leadsToFolder_iff]
  refine exists_congr fun place => ⟨fun h => ?_, fun h => h.of_grows (grows_withFile ..)⟩
  obtain ⟨hfits, hrelative, hsteps, hfolder⟩ := folderAt_iff.1 h
  exact folderAt_iff.2 ⟨hfits, hrelative, foldlM_step_of_withFile hsteps hfolder, hfolder⟩

/-- A new folder is where its path leads. -/
theorem folderAt_withFolder (h : tree.FolderAt path place) (hn : IsName name)
    (hallowed : Allowed path name) :
    (tree.withFolder (place ++ [name])).FolderAt (join path name) (place ++ [name]) := by
  have hfolder : (tree.withFolder (place ++ [name])).isFolder (place ++ [name]) = true :=
    isFolder_withFolder.2 (.inr (mem_leading.2 ⟨by simp, List.prefix_rfl⟩))
  have hcontains : (tree.withFolder (place ++ [name])).contains (place ++ [name]) = true := by
    simp [contains, hfolder]
  exact ⟨(locate_join (h.of_grows (grows_withFolder ..)) hn).2 ⟨hallowed, hcontains, rfl⟩, hfolder⟩

/-- A new folder makes no folder below it. -/
theorem isFolder_withFolder_below (names : List Text) :
    (tree.withFolder names).isFolder (names ++ [name]) = tree.isFolder (names ++ [name]) := by
  rw [Bool.eq_iff_iff, isFolder_withFolder, or_iff_left]
  intro hleading
  have hlength := (mem_leading.1 hleading).2.length_le
  rw [List.length_append, List.length_singleton] at hlength
  omega

end FileTree

end Utterance

import Utterance.Proofs.Documents
import Utterance.Proofs.Exports
import Utterance.Proofs.Names

/-!
# Agents — which files an agent leaves

An agent is written document by document, two for each collection, into a
folder for the intents and one for the entities. Below an existing folder
that is empty, the write returns exactly if no path is too long, and then
every document was put at the place of its file's name
(`Export.puts_writeDialogflow`). Names that differ do not yet make files that
differ: the file for the contents of a collection carries a suffix that may
also be the end of another collection's name. The documents that are written
are all kept exactly if that does not happen (`Export.documents_kept_iff`).
-/

namespace Utterance

/-! ## A whole agent -/

/-- **A path leads to an empty folder** at a place. -/
structure FileTree.EmptyFolderAt (tree : FileTree) (path : Text) (place : List Text) : Prop extends
    tree.FolderAt path place where
  /-- There is nothing below. -/
  empty : ∀ names, place <+: names → names ≠ place → tree.contains names = false

/-- A path that leads to the only folder of a tree leads to an empty one. -/
theorem FileTree.emptyFolderAt_of_lone {path : Text} {place : List Text}
    (h : ({ folders := [place] } : FileTree).FolderAt path place) :
    ({ folders := [place] } : FileTree).EmptyFolderAt path place where
  toFolderAt := h
  empty := by
    rintro names hbelow hne
    have hroot : names ≠ [] := by
      rintro rfl
      exact hne (List.prefix_nil.1 hbelow).symm
    simp [contains, file?, isFolder, hne, hroot]

/-- **A compiled model whose names can name files**: the names of the
collections of a kind are distinct, and no name has a slash. -/
structure Compiled.Nameable (c : Compiled) : Prop where
  /-- The names of the intents are distinct. -/
  intents : (c.intents.map Expanded.name).Nodup
  /-- The names of the entities are distinct. -/
  entities : (c.entities.map Expanded.name).Nodup
  /-- No name has a slash. -/
  names : ∀ e ∈ c.collections, '/' ∉ e.name
  /-- Nor has the short language code. -/
  language : '/' ∉ c.shortLanguage

theorem slash_notMem_of_isTypeChar {name : Text} (h : ∀ c ∈ name, Line.isTypeChar c = true) :
    '/' ∉ name :=
  fun hslash => absurd (h '/' hslash) (by decide)

theorem Compiled.prefix_shortCode (code : Text) : shortCode code <+: code := by
  unfold shortCode
  cases hcut : code.bytePrefix? 2 with
  | none => exact List.prefix_rfl
  | some short => exact (Text.bytePrefix?_spec hcut).1

/-- **Every model that is loaded and compiled has names for files.** -/
theorem Workspace.nameable_of_compile {limit fuel : Nat} {sources : List Source} {order : Order}
    {compiled : Logged Compiled}
    (h : (({ limit } : Workspace).addAll sources).2.compile fuel order = some compiled) :
    compiled.value.Nameable := by
  have hdistinct := namesDistinct_addAll (w := { limit }) Model.namesDistinct_empty sources
  have hidentifiers := identifiers_addAll limit sources
  have hlanguage := isLanguageCode_addAll limit sources
  obtain ⟨intents, entities, hintents, hentities, hvalue⟩ := Model.exists_of_compile h
  have hintentNames := Collection.perm_names_of_mapM hintents
  have hentityNames := Collection.perm_names_of_mapM hentities
  have hname (kind : Kind) {name : Text}
      (hmem : name ∈ ((({ limit } : Workspace).addAll sources).2.model.collections kind).map
        Collection.name) : '/' ∉ name := by
    obtain ⟨c, hc, rfl⟩ := List.mem_map.1 hmem
    exact slash_notMem_of_isTypeChar fun c hc' => Line.isTypeChar_of_isIdentChar
      (isIdentChar_of_isIdentifier (hidentifiers kind _ hc) c hc')
  rw [hvalue]
  refine ⟨hintentNames.nodup_iff.2 (hdistinct .intent),
    hentityNames.nodup_iff.2 (hdistinct .entity), fun e he => ?_, ?_⟩
  · rcases List.mem_append.1 he with he | he
    · exact hname .intent (hintentNames.mem_iff.1 (List.mem_map_of_mem he))
    · exact hname .entity (hentityNames.mem_iff.1 (List.mem_map_of_mem he))
  · intro hslash
    exact slash_notMem_of_isTypeChar (Line.isTypeChar_of_isLanguageCode hlanguage)
      ((Compiled.prefix_shortCode _).subset hslash)

namespace Export

open Utterance.Action FileTree Utterance.Path

variable {c : Compiled} {tree : FileTree} {folder : Text} {place : List Text}

/-- The tree with the documents of an agent in a folder. -/
def agentTree (c : Compiled) (folder : Text) (place : List Text) (tree : FileTree) : FileTree :=
  (tree.filled (place ++ ["intents".toList]) (intentDocuments c folder)).filled
    (place ++ ["entities".toList]) (entityDocuments c folder)

theorem slash_notMem_suffixed (hc : c.Nameable) {e : Expanded} (he : e ∈ c.collections)
    {word : Text} (hword : '/' ∉ word) : '/' ∉ e.name ++ (word ++ c.shortLanguage) := by
  simp [hc.names e he, hword, hc.language]

theorem isName_intents : IsName "intents".toList :=
  ⟨by decide, by decide, by decide, by decide⟩

theorem isName_entities : IsName "entities".toList :=
  ⟨by decide, by decide, by decide, by decide⟩

theorem file?_filled_of_ne {names : List Text} {docs : List Document}
    (h : ∀ name, names ≠ place ++ [name]) : (tree.filled place docs).file? names =
      tree.file? names := by
  unfold filled
  split
  · rfl
  · exact file?_withDocuments_of_ne h

theorem isFolder_filled_above {names : List Text} {docs : List Document}
    (h : ¬ names <+: place) : (tree.filled place docs).isFolder names = tree.isFolder names := by
  unfold filled
  split
  · rfl
  · have hfolders := folders_withDocuments (tree.withFolder place) place docs
    have hsame : ((tree.withFolder place).withDocuments place docs).isFolder names =
        (tree.withFolder place).isFolder names := by
      rw [isFolder, hfolders]
      rfl
    rw [hsame, Bool.eq_iff_iff, isFolder_withFolder, or_iff_left]
    exact fun hleading => h (mem_leading.1 hleading).2

/-- **Writing an agent** below an empty folder puts every document into its
folder. -/
theorem puts_writeDialogflow (hfolder : tree.EmptyFolderAt folder place) (hc : c.Nameable) :
    Puts (writeDialogflow c folder) tree (documents c folder) (agentTree c folder place tree) := by
  have hnothing (name : Text) (below : List Text) :
      tree.file? (place ++ name :: below) = none ∧
        tree.isFolder (place ++ name :: below) = false := by
    have hcontains := hfolder.empty (place ++ name :: below) (List.prefix_append _ _) (by simp)
    simpa [contains] using hcontains
  let intents : Action (StateM FileTree) (List Text) :=
    writeAll (join folder "intents".toList) c.intents fun intent =>
      writePair (join folder "intents".toList) intent.name (phrasesSuffix c)
        (Dialogflow.intentDefinition intent).toJson
        (Dialogflow.userSaysJson (Dialogflow.userSays intent))
  let entities : Action (StateM FileTree) (List Text) :=
    writeAll (join folder "entities".toList) c.entities fun entity =>
      writePair (join folder "entities".toList) entity.name (entriesSuffix c)
        (Dialogflow.entityJson entity) (Dialogflow.entriesJson entity)
  have hintents : Puts intents tree (intentDocuments c folder)
      (tree.filled (place ++ ["intents".toList]) (intentDocuments c folder)) :=
    puts_writeAll hfolder.toFolderAt isName_intents (by decide) (hnothing _ []).1
      (fun below => by simpa using (hnothing _ [below]).2)
      fun _ he => slash_notMem_suffixed hc (List.mem_append_left _ he) (by decide)
  have hentities : Puts entities _ (entityDocuments c folder) (agentTree c folder place tree) :=
    puts_writeAll (hfolder.toFolderAt.of_grows (grows_filled ..)) isName_entities (by decide)
      (by rw [file?_filled_of_ne (by simp)]; exact (hnothing _ []).1)
      (fun below => by
        rw [isFolder_filled_above (by simp)]
        simpa using (hnothing _ [below]).2)
      fun _ he => slash_notMem_suffixed hc (List.mem_append_right _ he) (by decide)
  have hrun : (writeDialogflow c folder : Action (StateM FileTree) (List Text)) =
      requireFolder folder >>= fun _ => do return (← intents) ++ (← entities) := rfl
  have hleads : tree.leadsToFolder folder = true := leadsToFolder_iff.2 ⟨place, hfolder.toFolderAt⟩
  intro told paths after
  rw [documents, ← hintents.append hentities told paths after, hrun]
  refine exists_congr fun events => ?_
  rw [returns_bind]
  constructor
  · rintro ⟨_, _, hrequired, hrest⟩
    obtain ⟨-, rfl⟩ := returns_requireFolder.1 hrequired
    exact hrest
  · exact fun hrest => ⟨(), _, returns_requireFolder.2 ⟨hleads, rfl⟩, hrest⟩

/-! ## Names that meet -/

/-- The name of one collection is that of another one with a suffix. -/
def Suffixed (es : List Expanded) (suffix : Text) : Prop :=
  ∃ a ∈ es, ∃ b ∈ es, b.name = a.name ++ suffix

/-- **Two documents of an agent meet**: the file for the contents of a
collection is that for the definition of another one of its kind. -/
def Clashes (c : Compiled) : Prop :=
  Suffixed c.intents (phrasesSuffix c) ∨ Suffixed c.entities (entriesSuffix c)

section Pairs

variable {es : List Expanded} {suffix : Text} {definition contents : Expanded → Json}

/-- **The files of some pairs are distinct** exactly if no name is another
one with the suffix, where the names are distinct. -/
theorem nodup_names_iff (hnames : (es.map Expanded.name).Nodup) (hsuffix : suffix ≠ []) :
    ((es.flatMap (pair folder suffix definition contents)).map Document.name).Nodup ↔
      ¬ Suffixed es suffix := by
  let files (e : Expanded) : List Text :=
    (pair folder suffix definition contents e).map Document.name
  let apart (a b : Expanded) : Prop := a.name ≠ b.name ++ suffix ∧ b.name ≠ a.name ++ suffix
  have hself (e : Expanded) : (files e).Nodup ∧ apart e e := by
    simp [files, pair, apart, hsuffix]
  have hdisjoint (a b : Expanded) : List.Disjoint (files a) (files b) ↔
      a.name ≠ b.name ∧ apart a b := by
    simp only [files, pair, List.map_cons, List.map_nil, List.disjoint_cons_left,
      List.disjoint_nil_left, List.mem_cons, List.not_mem_nil, or_false, not_or, and_true,
      List.append_left_inj, apart, ne_eq]
    constructor
    · rintro ⟨⟨hne, hab⟩, hba, -⟩
      exact ⟨hne, hab, fun h => hba h.symm⟩
    · rintro ⟨hne, hab, hba⟩
      exact ⟨⟨hne, hab⟩, fun h => hba h.symm, hne⟩
  rw [List.map_flatMap, List.nodup_flatMap]
  constructor
  · rintro ⟨-, hpairwise⟩ ⟨a, ha, b, hb, hname⟩
    have hsymm : Std.Symm apart := ⟨fun _ _ h => ⟨h.2, h.1⟩⟩
    have hapart : es.Pairwise apart := hpairwise.imp fun h => ((hdisjoint _ _).1 h).2
    exact (hapart.forall_of_forall (fun e _ => (hself e).2) ha hb).2 hname
  · intro hno
    refine ⟨fun e _ => (hself e).1, (List.pairwise_map.1 hnames).imp_of_mem fun ha hb hne => ?_⟩
    exact (hdisjoint _ _).2 ⟨hne, fun h => hno ⟨_, hb, _, ha, h⟩, fun h => hno ⟨_, ha, _, hb, h⟩⟩

/-- Documents of one name have different texts, where the names of the
collections are distinct. -/
theorem pairwise_differ (hnames : (es.map Expanded.name).Nodup)
    (hdiffer : ∀ a b, (definition a).document ≠ (contents b).document) :
    (es.flatMap (pair folder suffix definition contents)).Pairwise
      fun d d' => d.name = d'.name → d.text ≠ d'.text := by
  rw [List.pairwise_flatMap]
  constructor
  · intro e _
    simpa [pair, Document.text] using fun _ => hdiffer e e
  · refine (List.pairwise_map.1 hnames).imp fun {a b} hne => ?_
    -- two definitions or two contents of one name belong to one collection
    have hdefinitions : (a.name ++ ".json".toList : Text) ≠ b.name ++ ".json".toList := by
      simpa using hne
    have hcontents : (a.name ++ suffix ++ ".json".toList : Text) ≠
        b.name ++ suffix ++ ".json".toList := by
      simpa using hne
    simp only [pair, List.mem_cons, List.not_mem_nil, or_false]
    rintro _ (rfl | rfl) _ (rfl | rfl)
    · exact fun h => absurd h hdefinitions
    · exact fun _ => hdiffer a b
    · exact fun _ => (hdiffer b a).symm
    · exact fun h => absurd h hcontents

end Pairs

/-! ## What is kept -/

/-- The documents of a family lie in one folder, at names. -/
theorem mem_pairs {es : List Expanded} {suffix : Text} {definition contents : Expanded → Json}
    (hslash : ∀ e ∈ es, '/' ∉ e.name ++ suffix) {d : Document}
    (hd : d ∈ es.flatMap (pair folder suffix definition contents)) :
    d.folder = folder ∧ IsName d.name := by
  obtain ⟨e, he, hd⟩ := List.mem_flatMap.1 hd
  simp only [pair, List.mem_cons, List.not_mem_nil, or_false] at hd
  rcases hd with rfl | rfl
  · exact ⟨rfl, isName_append_json fun hmem => hslash e he (List.mem_append_left _ hmem)⟩
  · exact ⟨rfl, isName_append_json (hslash e he)⟩

theorem mem_intentDocuments (hc : c.Nameable) {d : Document} (hd : d ∈ intentDocuments c folder) :
    d.folder = join folder "intents".toList ∧ IsName d.name :=
  mem_pairs (fun _ he => slash_notMem_suffixed hc (List.mem_append_left _ he) (by decide)) hd

theorem mem_entityDocuments (hc : c.Nameable) {d : Document} (hd : d ∈ entityDocuments c folder) :
    d.folder = join folder "entities".toList ∧ IsName d.name :=
  mem_pairs (fun _ he => slash_notMem_suffixed hc (List.mem_append_right _ he) (by decide)) hd

theorem phrasesSuffix_ne_nil : phrasesSuffix c ≠ [] :=
  List.append_ne_nil_of_left_ne_nil (by decide) _

theorem entriesSuffix_ne_nil : entriesSuffix c ≠ [] :=
  List.append_ne_nil_of_left_ne_nil (by decide) _

theorem nodup_intentDocuments_iff (hc : c.Nameable) (folder : Text) :
    ((intentDocuments c folder).map Document.name).Nodup ↔
      ¬ Suffixed c.intents (phrasesSuffix c) :=
  nodup_names_iff hc.intents phrasesSuffix_ne_nil

theorem nodup_entityDocuments_iff (hc : c.Nameable) (folder : Text) :
    ((entityDocuments c folder).map Document.name).Nodup ↔
      ¬ Suffixed c.entities (entriesSuffix c) :=
  nodup_names_iff hc.entities entriesSuffix_ne_nil

/-- An object and an array make different documents. -/
theorem document_obj_ne_document_arr (fields : List (String × Json)) (items : List Json) :
    (Json.obj fields).document ≠ (Json.arr items).document := by
  intro h
  have hobj := Json.head?_document_obj fields
  rw [h, Json.head?_document_arr] at hobj
  exact absurd hobj (by decide)

/-- A new folder with documents holds them at the places of their files'
names. -/
theorem folderAt_filled (h : tree.FolderAt folder place) {name : Text} (hn : IsName name)
    (hallowed : Allowed folder name) {docs : List Document} (hne : docs ≠ []) :
    (tree.filled (place ++ [name]) docs).FolderAt (join folder name) (place ++ [name]) := by
  have hsome : ¬ docs.isEmpty = true := by simpa using hne
  rw [filled, if_neg hsome]
  exact (folderAt_withFolder h hn hallowed).of_grows (grows_withDocuments ..)

theorem file?_filled {docs : List Document} {d : Document} (hd : d ∈ docs) :
    (tree.filled place docs).file? (place ++ [d.name]) =
      ((tree.withFolder place).withDocuments place docs).file? (place ++ [d.name]) := by
  have hsome : ¬ docs.isEmpty = true := by simpa using List.ne_nil_of_mem hd
  rw [filled, if_neg hsome]

/-- Where documents are allowed below a folder, the folder is. -/
theorem allowed_of_mem {name : Text} (hshort : name.byteSize ≤ nameLimit) {docs : List Document}
    (hne : docs ≠ []) (hin : ∀ d ∈ docs, d.folder = join folder name ∧ Allowed d.folder d.name) :
    Allowed folder name := by
  obtain ⟨d, hd⟩ := List.exists_mem_of_ne_nil docs hne
  obtain ⟨hpath, hallowed⟩ := hin d hd
  rw [hpath] at hallowed
  exact ⟨fits_of_join hallowed.1, hshort⟩

/-- **The documents of a new folder read back** exactly if the names of their
files are distinct, where documents of one name have different texts. What
comes afterwards moves no folder and none of these files. -/
theorem reads_filled_iff (h : tree.FolderAt folder place) {name : Text} (hn : IsName name)
    (hshort : name.byteSize ≤ nameLimit) {docs : List Document}
    (hin : ∀ d ∈ docs, d.folder = join folder name ∧ IsName d.name)
    (hallowed : ∀ d ∈ docs, Allowed d.folder d.name)
    (hdiffer : docs.Pairwise fun d d' => d.name = d'.name → d.text ≠ d'.text) {after : FileTree}
    (hgrows : (tree.filled (place ++ [name]) docs).Grows after)
    (hfiles : ∀ d ∈ docs, after.file? (place ++ [name] ++ [d.name]) =
      (tree.filled (place ++ [name]) docs).file? (place ++ [name] ++ [d.name])) :
    (∀ d ∈ docs, after.read d.path = .ok d.text.toList) ↔ (docs.map Document.name).Nodup := by
  rw [← kept_iff_nodup (tree.withFolder (place ++ [name])) (place ++ [name]) hdiffer]
  refine forall₂_congr fun d hd => ?_
  have hfits := allowed_of_mem hshort (List.ne_nil_of_mem hd) fun d hd =>
    ⟨(hin d hd).1, hallowed d hd⟩
  have hat := (folderAt_filled h hn hfits (List.ne_nil_of_mem hd)).of_grows hgrows
  rw [Document.path, (hin d hd).1, read_join hat (hin d hd).2, hfiles d hd, file?_filled hd,
    ← (hin d hd).1, and_iff_right (hallowed d hd)]
  cases ((tree.withFolder (place ++ [name])).withDocuments (place ++ [name]) docs).file?
    (place ++ [name] ++ [d.name]) <;> simp [String.toList_inj]

/-- **Every document is read back** exactly if no two of them meet. -/
theorem reads_agentTree_iff (hfolder : tree.FolderAt folder place) (hc : c.Nameable)
    (hallowed : ∀ d ∈ documents c folder, Allowed d.folder d.name) :
    (∀ d ∈ documents c folder,
        (agentTree c folder place tree).read d.path = .ok d.text.toList) ↔ ¬ Clashes c := by
  rw [documents, List.forall_mem_append] at hallowed ⊢
  have hintents := reads_filled_iff hfolder isName_intents (by decide)
    (fun _ hd => mem_intentDocuments hc hd) hallowed.1
    (pairwise_differ hc.intents fun _ _ => document_obj_ne_document_arr _ _)
    (grows_filled _ (place ++ ["entities".toList]) (entityDocuments c folder))
    fun _ _ => file?_filled_of_ne (by simp)
  have hentities := reads_filled_iff (hfolder.of_grows (grows_filled ..)) isName_entities
    (by decide) (fun _ hd => mem_entityDocuments hc hd) hallowed.2
    (pairwise_differ hc.entities fun _ _ => document_obj_ne_document_arr _ _)
    (FileTree.Grows.refl (agentTree c folder place tree)) fun _ _ => rfl
  rw [nodup_intentDocuments_iff hc] at hintents
  rw [nodup_entityDocuments_iff hc] at hentities
  rw [agentTree, hintents, ← agentTree, hentities, Clashes, not_or]

theorem join_injective (path : Text) : Function.Injective (join path) := by
  obtain ⟨start, -, hjoin⟩ := exists_join_eq_append path
  intro name other h
  rw [hjoin, hjoin] at h
  exact List.append_cancel_left h

/-- A path in the folder of the intents is none in that of the entities. -/
theorem join_intents_ne_join_entities (folder name other : Text) :
    join (join folder "intents".toList) name ≠ join (join folder "entities".toList) other := by
  obtain ⟨start, -, hfolder⟩ := exists_join_eq_append folder
  obtain ⟨intents, hintents, hname⟩ := exists_join_eq_append (join folder "intents".toList)
  obtain ⟨entities, hentities, hother⟩ := exists_join_eq_append (join folder "entities".toList)
  rw [hfolder] at hintents hentities
  intro h
  rw [hname, hother] at h
  have hboth : start ++ "intents".toList <+: start ++ "entities".toList :=
    List.prefix_of_prefix_length_le (hintents.trans (List.prefix_append _ name))
      (h ▸ hentities.trans (List.prefix_append _ other)) (by simp)
  exact absurd ((List.prefix_append_right_inj _).1 hboth) (by decide)

/-- **The paths are distinct** exactly if no two documents meet. -/
theorem nodup_paths_iff (hc : c.Nameable) :
    ((documents c folder).map Document.path).Nodup ↔ ¬ Clashes c := by
  have hpaths (docs : List Document) (path : Text) (hin : ∀ d ∈ docs, d.folder = path) :
      docs.map Document.path = (docs.map Document.name).map (join path) := by
    rw [List.map_map]
    exact List.map_congr_left fun d hd => by rw [Document.path, hin d hd]; rfl
  have hintents := hpaths (intentDocuments c folder) _ fun d hd => (mem_intentDocuments hc hd).1
  have hentities := hpaths (entityDocuments c folder) _ fun d hd => (mem_entityDocuments hc hd).1
  have hdisjoint : ∀ p ∈ ((intentDocuments c folder).map Document.name).map
      (join (join folder "intents".toList)),
      ∀ q ∈ ((entityDocuments c folder).map Document.name).map
        (join (join folder "entities".toList)), p ≠ q := by
    intro p hp q hq
    obtain ⟨name, -, rfl⟩ := List.mem_map.1 hp
    obtain ⟨other, -, rfl⟩ := List.mem_map.1 hq
    exact join_intents_ne_join_entities folder name other
  rw [documents, List.map_append, hintents, hentities, List.nodup_append,
    List.nodup_map_iff (join_injective _), List.nodup_map_iff (join_injective _),
    nodup_intentDocuments_iff hc, nodup_entityDocuments_iff hc, Clashes, not_or]
  exact ⟨fun h => ⟨h.1, h.2.1⟩, fun h => ⟨h.1, h.2, hdisjoint⟩⟩

/-- **An agent keeps all its documents exactly if no two of them meet.** Let a
path lead to an empty folder, and let the names of a compiled model be
distinct within each kind and without a slash. Writing the agent there
returns exactly if no path and no file's name is too long. What it then
returns are the paths of the documents, in order. They are distinct, and
every one of them reads back as its document, exactly if no name in a kind is
that of another collection with the suffix for its contents. -/
theorem documents_kept_iff (hfolder : tree.EmptyFolderAt folder place) (hc : c.Nameable)
    (told : List Event) :
    ((∃ paths events after, (writeDialogflow c folder : Action (StateM FileTree) _).Returns
        (told, tree) paths (events, after)) ↔
      ∀ d ∈ documents c folder, Allowed d.folder d.name) ∧
    ∀ paths events after, (writeDialogflow c folder : Action (StateM FileTree) _).Returns
        (told, tree) paths (events, after) →
      paths = (documents c folder).map Document.path ∧
      (paths.Nodup ↔ ¬ Clashes c) ∧
      ((∀ d ∈ documents c folder, after.read d.path = .ok d.text.toList) ↔ ¬ Clashes c) := by
  have hputs := puts_writeDialogflow hfolder hc told
  constructor
  · constructor
    · rintro ⟨paths, events, after, hrun⟩
      exact ((hputs paths after).1 ⟨events, hrun⟩).1
    · intro hallowed
      obtain ⟨events, hrun⟩ := (hputs _ _).2 ⟨hallowed, rfl, rfl⟩
      exact ⟨_, events, _, hrun⟩
  · intro paths events after hrun
    obtain ⟨hallowed, rfl, rfl⟩ := (hputs paths after).1 ⟨events, hrun⟩
    exact ⟨rfl, nodup_paths_iff hc, reads_agentTree_iff hfolder.toFolderAt hc hallowed⟩

/-- An intent whose name ends in the suffix of another language, and an entity
with the name of an intent. -/
theorem documents_kept_iff_other_language :
    let collection (kind : Kind) (name : String) : Expanded :=
      { name := name.toList, kind, slots := [], sentences := ["a".toList], diagnostics := [] }
    let c : Compiled :=
      { invocationName := none
        language := "de-AT".toList
        intents := [collection .intent "A", collection .intent "A_usersays_en"]
        entities := [collection .entity "A"] }
    let tree : FileTree := { folders := [["out".toList]] }
    let folder := "out/".toList
    tree.EmptyFolderAt folder ["out".toList] ∧ c.Nameable ∧
      ∃ paths events after, (writeDialogflow c folder : Action (StateM FileTree) _).Returns
          ([], tree) paths (events, after) ∧
        paths.length = 6 ∧ paths.Nodup ∧
        ∀ d ∈ documents c folder, after.read d.path = .ok d.text.toList := by
  intro collection c tree folder
  have hfolder : tree.EmptyFolderAt folder ["out".toList] :=
    emptyFolderAt_of_lone ⟨by decide +kernel, by decide +kernel⟩
  have hc : c.Nameable :=
    ⟨by decide +kernel, by decide +kernel, by decide +kernel, by decide +kernel⟩
  have hapart : ¬ Clashes c := by
    unfold Clashes Suffixed
    decide +kernel
  have hlength : (documents c folder).length = 6 := by decide +kernel
  obtain ⟨hreturns, hkept⟩ := documents_kept_iff hfolder hc []
  obtain ⟨paths, events, after, hrun⟩ := hreturns.2 (by decide +kernel)
  obtain ⟨hpaths, hnodup, hreads⟩ := hkept paths events after hrun
  exact ⟨hfolder, hc, paths, events, after, hrun, by rw [hpaths, List.length_map, hlength],
    hnodup.2 hapart, hreads.2 hapart⟩

/-- **A document may be lost**: of two intents that a source declares, the
phrases of the one are put where the definition of the other was to be, and
the write returns all the same. -/
theorem documents_overwritten :
    let source : Source := ⟨"INTENT: A\na\nINTENT: A_usersays_en\nb".toList, "s".toList⟩
    let collection (name : String) (sentence : String) : Expanded :=
      { name := name.toList
        kind := .intent
        slots := []
        sentences := [sentence.toList]
        diagnostics := [] }
    let c : Compiled :=
      { invocationName := none
        language := "en-US".toList
        intents := [collection "A" "a", collection "A_usersays_en" "b"]
        entities := [] }
    let tree : FileTree := { folders := [["out".toList]] }
    let folder := "out/".toList
    (({} : Workspace).addAll [source]).1 = [.ok ()] ∧
      ((({} : Workspace).addAll [source]).2.compile 10 .found).map Logged.value = some c ∧
      (c.intents.map Expanded.name).Nodup ∧ (c.entities.map Expanded.name).Nodup ∧
      tree.EmptyFolderAt folder ["out".toList] ∧
      ∃ paths events after, (writeDialogflow c folder : Action (StateM FileTree) _).Returns
          ([], tree) paths (events, after) ∧
        ¬ paths.Nodup ∧ ¬ ∀ d ∈ documents c folder, after.read d.path = .ok d.text.toList := by
  intro source collection c tree folder
  have hloaded : (({} : Workspace).addAll [source]).1 = [.ok ()] := by
    have hsize : ¬ ({} : Workspace).limit < source.text.byteSize := by decide +kernel
    have herrors : source.errors = [] := by decide +kernel
    rw [Workspace.addAll_eq, List.map_singleton, Source.verdict, if_neg hsize, herrors]
  have hcompiled :
      ((({} : Workspace).addAll [source]).2.compile 10 .found).map Logged.value = some c := by
    decide +kernel
  have hfolder : tree.EmptyFolderAt folder ["out".toList] :=
    emptyFolderAt_of_lone ⟨by decide +kernel, by decide +kernel⟩
  obtain ⟨compiled, hcompile, hvalue⟩ := Option.map_eq_some_iff.1 hcompiled
  have hc : c.Nameable := hvalue ▸ Workspace.nameable_of_compile hcompile
  have hclash : Clashes c :=
    .inl ⟨collection "A" "a", by decide +kernel, collection "A_usersays_en" "b", by decide +kernel,
      by decide +kernel⟩
  have hallowed : ∀ d ∈ documents c folder, Allowed d.folder d.name := by decide +kernel
  obtain ⟨events, hrun⟩ := (puts_writeDialogflow hfolder hc [] _ _).2 ⟨hallowed, rfl, rfl⟩
  exact ⟨hloaded, hcompiled, hc.intents, hc.entities, hfolder, _, events, _, hrun,
    fun hnodup => (nodup_paths_iff hc).1 hnodup hclash,
    fun hreads => (reads_agentTree_iff hfolder.toFolderAt hc hallowed).1 hreads hclash⟩

end Export

end Utterance

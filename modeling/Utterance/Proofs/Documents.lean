import Utterance.Proofs.Actions
import Utterance.Proofs.Exports

/-!
# Documents — which files a list of documents leaves

A document is a value with a folder and the name of a file in it. Documents
are put into a folder one after the other, and the last one of a name is
what the file then holds: all of them are kept exactly if their names are
distinct (`FileTree.kept_iff_nodup`). Writing some collections makes a folder
and puts two documents for each collection into it, or fails where a path is
too long (`Export.puts_writeAll`).
-/

namespace Utterance

/-! ## The text of a value -/

theorem toList_prefix_append (s t : String) : s.toList <+: (s ++ t).toList := by
  rw [String.toList_append]
  exact List.prefix_append ..

namespace Json

mutual

/-- A value is written behind a text. -/
theorem prefix_write (level : Nat) (out : String) :
    (value : Json) → out.toList <+: (value.write level out).toList
  | bool b => toList_prefix_append ..
  | num n => toList_prefix_append ..
  | str s => toList_prefix_append ..
  | arr [] => toList_prefix_append ..
  | arr (item :: items) => by
    rw [write, String.append_assoc, String.append_assoc]
    exact (((toList_prefix_append out _).trans (prefix_write _ _ item)).trans
      (prefix_writeItems _ _ items)).trans (toList_prefix_append ..)
  | obj [] => toList_prefix_append ..
  | obj ((name, value) :: fields) => by
    simp only [write, String.append_assoc]
    exact (((toList_prefix_append out _).trans (prefix_write _ _ value)).trans
      (prefix_writeFields _ _ fields)).trans (toList_prefix_append ..)

theorem prefix_writeItems (level : Nat) (out : String) :
    (items : List Json) → out.toList <+: (writeItems level out items).toList
  | [] => List.prefix_rfl
  | item :: items => by
    rw [writeItems, String.append_assoc]
    exact ((toList_prefix_append out _).trans (prefix_write _ _ item)).trans
      (prefix_writeItems _ _ items)

theorem prefix_writeFields (level : Nat) (out : String) :
    (fields : List (String × Json)) → out.toList <+: (writeFields level out fields).toList
  | [] => List.prefix_rfl
  | (name, value) :: fields => by
    simp only [writeFields, String.append_assoc]
    exact ((toList_prefix_append out _).trans (prefix_write _ _ value)).trans
      (prefix_writeFields _ _ fields)

end

theorem head?_of_prefix {c : Char} {s t : String} (hs : s.toList.head? = some c)
    (h : s.toList <+: t.toList) : t.toList.head? = some c := by
  obtain ⟨rest, hrest⟩ := h
  rw [← hrest, List.head?_append, hs, Option.some_or]

/-- The document of an array begins with a square bracket. -/
theorem head?_document_arr (items : List Json) :
    (arr items).document.toList.head? = some '[' := by
  have hopen : ("" ++ "[" ++ newline 1).toList.head? = some '[' := by decide +kernel
  cases items with
  | nil => decide +kernel
  | cons item items =>
    refine head?_of_prefix hopen ?_
    simp only [document, write, String.append_assoc]
    exact ((prefix_write _ _ item).trans (prefix_writeItems _ _ items)).trans
      (toList_prefix_append ..)

/-- The document of an object begins with a brace. -/
theorem head?_document_obj (fields : List (String × Json)) :
    (obj fields).document.toList.head? = some '\x7b' := by
  cases fields with
  | nil => decide +kernel
  | cons field fields =>
    obtain ⟨name, value⟩ := field
    have hopen : ("" ++ "\x7b").toList.head? = some '\x7b' := by decide +kernel
    refine head?_of_prefix hopen ?_
    simp only [document, write, String.append_assoc]
    exact (((toList_prefix_append ..).trans (prefix_write _ _ value)).trans
      (prefix_writeFields _ _ fields)).trans (toList_prefix_append ..)

end Json

/-! ## The documents of an agent -/

namespace Export

/-- A document to be written. -/
structure Document where
  /-- The folder. -/
  folder : Text
  /-- The name of the file in it. -/
  name : Text
  /-- The value. -/
  value : Json

namespace Document

/-- The path of the file. -/
def path (d : Document) : Text :=
  Path.join d.folder d.name

/-- The text of the file. -/
def text (d : Document) : String :=
  d.value.document

end Document

/-- The two documents of a collection: its definition, and its contents in a
file whose name has a suffix. -/
def pair (folder suffix : Text) (definition contents : Expanded → Json) (e : Expanded) :
    List Document :=
  [⟨folder, e.name ++ ".json".toList, definition e⟩,
    ⟨folder, e.name ++ suffix ++ ".json".toList, contents e⟩]

/-- The suffix of the files for training phrases. -/
def phrasesSuffix (c : Compiled) : Text :=
  "_usersays_".toList ++ c.shortLanguage

/-- The suffix of the files for entries. -/
def entriesSuffix (c : Compiled) : Text :=
  "_entries_".toList ++ c.shortLanguage

/-- The documents of the intents. -/
def intentDocuments (c : Compiled) (folder : Text) : List Document :=
  c.intents.flatMap <|
    pair (Path.join folder "intents".toList) (phrasesSuffix c)
      (fun intent => (Dialogflow.intentDefinition intent).toJson)
      fun intent => Dialogflow.userSaysJson (Dialogflow.userSays intent)

/-- The documents of the entities. -/
def entityDocuments (c : Compiled) (folder : Text) : List Document :=
  c.entities.flatMap <|
    pair (Path.join folder "entities".toList) (entriesSuffix c) Dialogflow.entityJson
      Dialogflow.entriesJson

/-- **The documents of an agent**, in the order in which they are written. -/
def documents (c : Compiled) (folder : Text) : List Document :=
  intentDocuments c folder ++ entityDocuments c folder

/-- A name without a slash makes the name of a file. -/
theorem isName_append_json {name : Text} (h : '/' ∉ name) :
    Path.IsName (name ++ ".json".toList) := by
  have hlength : 5 ≤ (name ++ ".json".toList).length := by simp
  refine ⟨?_, by simp [h], ?_, ?_⟩
  · intro hnil
    rw [hnil] at hlength
    exact absurd hlength (by decide)
  · intro hstay
    rw [hstay] at hlength
    exact absurd hlength (by decide)
  · intro hback
    rw [hback] at hlength
    exact absurd hlength (by decide)

end Export

/-! ## Files in one folder -/

namespace FileTree

open Export Utterance.Path

variable {tree : FileTree} {place names : List Text} {docs : List Document}

/-- The tree with some documents in the folder at a place, one put after
another. -/
def withDocuments (tree : FileTree) (place : List Text) (docs : List Document) : FileTree :=
  docs.foldl (fun tree d => tree.withFile (place ++ [d.name]) d.text) tree

/-- The tree with some documents in a new folder at a place, if there are
any. -/
def filled (tree : FileTree) (place : List Text) (docs : List Document) : FileTree :=
  if docs.isEmpty then tree else (tree.withFolder place).withDocuments place docs

theorem withDocuments_append (tree : FileTree) (place : List Text) (docs more : List Document) :
    tree.withDocuments place (docs ++ more) =
      (tree.withDocuments place docs).withDocuments place more :=
  List.foldl_append ..

theorem folders_withDocuments (tree : FileTree) (place : List Text) (docs : List Document) :
    (tree.withDocuments place docs).folders = tree.folders := by
  induction docs generalizing tree with
  | nil => rfl
  | cons d docs ih => exact ih _

theorem grows_withDocuments (tree : FileTree) (place : List Text) (docs : List Document) :
    tree.Grows (tree.withDocuments place docs) := by
  induction docs generalizing tree with
  | nil => exact Grows.refl tree
  | cons d docs ih => exact (grows_withFile ..).trans (ih _)

theorem grows_filled (tree : FileTree) (place : List Text) (docs : List Document) :
    tree.Grows (tree.filled place docs) := by
  unfold filled
  split
  · exact Grows.refl tree
  · exact (grows_withFolder ..).trans (grows_withDocuments ..)

/-- **A place holds the last document that was put there.** -/
theorem file?_withDocuments (tree : FileTree) (place : List Text) (docs : List Document)
    (name : Text) :
    (tree.withDocuments place docs).file? (place ++ [name]) =
      ((docs.filter fun d => d.name = name).getLast?.map Document.text).or
        (tree.file? (place ++ [name])) := by
  induction docs using List.reverseRecOn with
  | nil => rfl
  | append_singleton docs d ih =>
    have hlast : tree.withDocuments place (docs ++ [d]) =
        (tree.withDocuments place docs).withFile (place ++ [d.name]) d.text :=
      withDocuments_append ..
    rw [hlast, file?_withFile, List.filter_append]
    by_cases hname : d.name = name
    · simp [hname]
    · have hne : place ++ [name] ≠ place ++ [d.name] := by simpa using Ne.symm hname
      rw [if_neg hne, ih]
      simp [hname]

/-- The documents of a folder change nothing elsewhere. -/
theorem file?_withDocuments_of_ne (h : ∀ name, names ≠ place ++ [name]) :
    (tree.withDocuments place docs).file? names = tree.file? names := by
  induction docs generalizing tree with
  | nil => rfl
  | cons d docs ih =>
    have hfirst : (tree.withFile (place ++ [d.name]) d.text).file? names = tree.file? names := by
      rw [file?_withFile, if_neg (h d.name)]
    exact ih.trans hfirst

/-- **All documents of a folder are kept** exactly if the names of their
files are distinct, where documents of one name have different texts. -/
theorem kept_iff_nodup (tree : FileTree) (place : List Text)
    (hdiffer : docs.Pairwise fun d d' => d.name = d'.name → d.text ≠ d'.text) :
    (∀ d ∈ docs, (tree.withDocuments place docs).file? (place ++ [d.name]) = some d.text) ↔
      (docs.map Document.name).Nodup := by
  constructor
  · intro hkept
    rw [List.Nodup, List.pairwise_map]
    refine hdiffer.imp_of_mem fun {d d'} hd hd' htext hname => htext hname ?_
    have hfirst := hkept d hd
    rw [hname, hkept d' hd'] at hfirst
    exact (Option.some.inj hfirst).symm
  · intro hnodup d hd
    have halone : docs.filter (fun d' => d'.name = d.name) = [d] := filter_of_nodup_map hnodup hd
    rw [file?_withDocuments, halone]
    rfl

end FileTree

/-! ## Writing -/

namespace Export

open Utterance.Action FileTree Utterance.Path

/-- **An action puts some documents into a tree**: it returns exactly if each
of them is allowed, and then it returns their paths and leaves another tree. -/
def Puts (action : Action (StateM FileTree) (List Text)) (tree : FileTree)
    (docs : List Document) (last : FileTree) : Prop :=
  ∀ told paths after, (∃ events, action.Returns (told, tree) paths (events, after)) ↔
    (∀ d ∈ docs, Allowed d.folder d.name) ∧ paths = docs.map Document.path ∧ after = last

theorem puts_nil (tree : FileTree) : Puts (pure []) tree [] tree := by
  intro told paths after
  simp only [returns_pure]
  constructor
  · rintro ⟨events, rfl, hstop⟩
    exact ⟨by simp, rfl, (Prod.mk.inj hstop).2⟩
  · rintro ⟨-, rfl, rfl⟩
    exact ⟨told, rfl, rfl⟩

/-- Documents are put one list after the other. -/
theorem Puts.append {first second : Action (StateM FileTree) (List Text)}
    {tree middle last : FileTree} {docs more : List Document}
    (hfirst : Puts first tree docs middle) (hsecond : Puts second middle more last) :
    Puts (do return (← first) ++ (← second)) tree (docs ++ more) last := by
  intro told paths after
  rw [List.forall_mem_append, List.map_append]
  simp only [returns_bind, returns_pure]
  constructor
  · rintro ⟨_, list, ⟨events, tree'⟩, hrun, list', ⟨events', tree''⟩, hrun', rfl, hstop⟩
    obtain ⟨hallowed, rfl, rfl⟩ := (hfirst _ _ _).1 ⟨events, hrun⟩
    obtain ⟨hallowed', rfl, rfl⟩ := (hsecond _ _ _).1 ⟨events', hrun'⟩
    exact ⟨⟨hallowed, hallowed'⟩, rfl, (Prod.mk.inj hstop).2⟩
  · rintro ⟨⟨hallowed, hallowed'⟩, rfl, rfl⟩
    obtain ⟨events, hrun⟩ := (hfirst told _ _).2 ⟨hallowed, rfl, rfl⟩
    obtain ⟨events', hrun'⟩ := (hsecond events _ _).2 ⟨hallowed', rfl, rfl⟩
    exact ⟨events', _, _, hrun, _, _, hrun', rfl, rfl⟩

variable {tree : FileTree} {folder suffix : Text} {place : List Text}
  {definition contents : Expanded → Json}

/-- A document is written at the place of its file's name. -/
theorem returns_writeJson (h : tree.FolderAt folder place) {name : Text} (hn : IsName name)
    (hfree : tree.isFolder (place ++ [name]) = false) (value : Json) (told : List Event)
    (stop : List Event × FileTree) :
    (writeJson (join folder name) value : Action (StateM FileTree) Unit).Returns
        (told, tree) () stop ↔
      Allowed folder name ∧ stop = (told, tree.withFile (place ++ [name]) value.document) := by
  have hrequest : (writeJson (join folder name) value : Action (StateM FileTree) Unit) =
      request (FileTree.attempt fun tree => tree.write (join folder name) value.document) := rfl
  rw [hrequest, returns_request, write_join h hn]
  obtain ⟨events, last⟩ := stop
  simp [hfree, and_assoc, and_comm]

/-- **Writing a pair** puts both documents into the folder, one after the
other. -/
theorem puts_writePair (h : tree.FolderAt folder place) {e : Expanded}
    (hslash : '/' ∉ e.name ++ suffix) (hfree : ∀ name, tree.isFolder (place ++ [name]) = false) :
    Puts (writePair folder e.name suffix (definition e) (contents e)) tree
      (pair folder suffix definition contents e)
      (tree.withDocuments place (pair folder suffix definition contents e)) := by
  intro told paths after
  have hname : IsName (e.name ++ ".json".toList) :=
    isName_append_json fun hmem => hslash (List.mem_append_left _ hmem)
  have hsuffixed : IsName (e.name ++ suffix ++ ".json".toList) := isName_append_json hslash
  -- the first document moves no folder
  let middle := tree.withFile (place ++ [e.name ++ ".json".toList]) (definition e).document
  have hmiddle : middle.FolderAt folder place := h.of_grows (grows_withFile ..)
  have hfirst := returns_writeJson h hname (hfree _) (definition e)
  have hsecond := returns_writeJson hmiddle hsuffixed (hfree _) (contents e)
  have hpair : (∀ d ∈ pair folder suffix definition contents e, Allowed d.folder d.name) ↔
      Allowed folder (e.name ++ ".json".toList) ∧
        Allowed folder (e.name ++ suffix ++ ".json".toList) := by
    simp [pair]
  rw [hpair]
  unfold writePair
  simp only [returns_bind, returns_tell, returns_pure]
  constructor
  · rintro ⟨events, _, _, hwrite, _, _, rfl, _, _, hwrite', rfl, hstop⟩
    obtain ⟨hallowed, rfl⟩ := (hfirst _ _).1 hwrite
    obtain ⟨hallowed', rfl⟩ := (hsecond _ _).1 hwrite'
    exact ⟨⟨hallowed, hallowed'⟩, rfl, (Prod.mk.inj hstop).2⟩
  · rintro ⟨⟨hallowed, hallowed'⟩, rfl, rfl⟩
    exact ⟨_, (), _, (hfirst _ _).2 ⟨hallowed, rfl⟩, (), _, rfl, (), _,
      (hsecond _ _).2 ⟨hallowed', rfl⟩, rfl, rfl⟩

/-- **Writing the pairs of some collections** puts all their documents into
the folder, one after the other. -/
theorem puts_mapM_writePair (h : tree.FolderAt folder place) {es : List Expanded}
    (hslash : ∀ e ∈ es, '/' ∉ e.name ++ suffix)
    (hfree : ∀ name, tree.isFolder (place ++ [name]) = false) :
    Puts (do
        let lists ← es.mapM fun e => writePair folder e.name suffix (definition e) (contents e)
        return lists.flatten) tree
      (es.flatMap (pair folder suffix definition contents))
      (tree.withDocuments place (es.flatMap (pair folder suffix definition contents))) := by
  induction es generalizing tree with
  | nil =>
    rw [List.mapM_nil, pure_bind]
    exact puts_nil tree
  | cons e es ih =>
    let write (e : Expanded) : Action (StateM FileTree) (List Text) :=
      writePair folder e.name suffix (definition e) (contents e)
    let rest : Action (StateM FileTree) (List Text) := do return (← es.mapM write).flatten
    have hsplit : (do return (← (e :: es).mapM write).flatten) =
        (do return (← write e) ++ (← rest)) := by
      simp [List.mapM_cons, rest]
    have hmiddle := h.of_grows
      (grows_withDocuments tree place (pair folder suffix definition contents e))
    rw [hsplit, List.flatMap_cons, withDocuments_append]
    -- no document is a folder
    exact (puts_writePair h (hslash e (by simp)) hfree).append
      (ih hmiddle (fun e he => hslash e (by simp [he])) hfree)

/-- **Writing some collections** makes a folder with all their documents, if
there are any. -/
theorem puts_writeAll {parent name : Text} (h : tree.FolderAt parent place) (hn : IsName name)
    (hshort : name.byteSize ≤ nameLimit) (hfile : tree.file? (place ++ [name]) = none)
    (hfree : ∀ below, tree.isFolder (place ++ [name] ++ [below]) = false) {es : List Expanded}
    (hslash : ∀ e ∈ es, '/' ∉ e.name ++ suffix) :
    Puts (writeAll (join parent name) es fun e =>
        writePair (join parent name) e.name suffix (definition e) (contents e)) tree
      (es.flatMap (pair (join parent name) suffix definition contents))
      (tree.filled (place ++ [name])
        (es.flatMap (pair (join parent name) suffix definition contents))) := by
  cases es with
  | nil => exact puts_nil tree
  | cons e es =>
    let folder := join parent name
    let made := tree.withFolder (place ++ [name])
    let docs := (e :: es).flatMap (pair folder suffix definition contents)
    let fill : Action (StateM FileTree) (List Text) := do
      let lists ← (e :: es).mapM fun e =>
        writePair folder e.name suffix (definition e) (contents e)
      return lists.flatten
    have hfill (hfolder : Allowed parent name) :
        Puts fill made docs (made.withDocuments (place ++ [name]) docs) :=
      puts_mapM_writePair (folderAt_withFolder h hn hfolder) hslash fun below =>
        (isFolder_withFolder_below _).trans (hfree below)
    -- a path to the folder is shorter than a path below it
    have hallowed (hdocs : ∀ d ∈ docs, Allowed d.folder d.name) : Allowed parent name :=
      have hfirst := hdocs ⟨folder, e.name ++ ".json".toList, definition e⟩ (by simp [docs, pair])
      ⟨fits_of_join hfirst.1, hshort⟩
    have hrun : (writeAll folder (e :: es) fun e =>
        writePair folder e.name suffix (definition e) (contents e)) =
        (request (FileTree.attempt fun tree => tree.makeFolder folder) >>= fun _ => fill) := rfl
    intro told paths after
    rw [hrun]
    simp only [returns_bind, returns_request, makeFolder_join h hn, folder]
    constructor
    · rintro ⟨events, _, ⟨events', tree'⟩, ⟨⟨hfolder, -, rfl⟩, rfl⟩, hrest⟩
      exact (hfill hfolder _ _ _).1 ⟨events, hrest⟩
    · intro hstop
      have hfolder := hallowed hstop.1
      obtain ⟨events, hrest⟩ := (hfill hfolder told _ _).2 hstop
      exact ⟨events, (), (told, made), ⟨⟨hfolder, hfile, rfl⟩, rfl⟩, hrest⟩

end Export

end Utterance

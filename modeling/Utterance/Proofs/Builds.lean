import Utterance.Command.Run
import Utterance.Proofs.Actions

/-!
# Builds — what a failing build leaves behind

A build reads its sources, compiles them and then writes what it was asked
for. Everything up to the first document only reads (`Command.keepsTree_load`),
and each of the two exports looks for its folder before it writes. So a
build that fails for a source or for a missing folder leaves the tree as it
was, unless the folder of the interaction model is there and that of the
agent is not. By then the interaction model is written, and it stays
(`Command.failing_build_keeps_tree`).
-/

namespace Utterance

/-- Writing puts one file into the tree. -/
theorem FileTree.exists_of_write {tree after : FileTree} {path : Text} {text : String}
    (h : tree.write path text = .ok after) : ∃ names, after = tree.withFile names text := by
  unfold write at h
  simp only [bind_eq_ok_iff, unless_bind_eq_ok_iff, pure_eq_ok_iff] at h
  obtain ⟨names, -, -, rfl⟩ := h
  exact ⟨names, rfl⟩

namespace Export

open Utterance.Action

variable {start stop : List Event × FileTree} {folder : Text} {c : Compiled}

/-- The error of an export whose folder is not there. -/
def noFolder (folder : Text) : Error :=
  .engine s!"Output folder does not exist: '{folder.str}'"

/-- The path of the interaction model. -/
def modelPath (c : Compiled) (folder : Text) : Text :=
  Path.join folder (c.language ++ ".json".toList)

/-- The text of the interaction model. -/
def modelText (c : Compiled) : String :=
  (Alexa.ofCompiled c).value.toJson.document

/-- **An export fails at once** if its folder is not there. -/
theorem fails_writeAlexa (c : Compiled) (h : start.2.leadsToFolder folder = false) :
    (writeAlexa c folder : Action (StateM FileTree) Text).Fails start (noFolder folder) start :=
  fails_bind.2 (.inl (fails_requireFolder h))

theorem fails_writeDialogflow (c : Compiled) (h : start.2.leadsToFolder folder = false) :
    (writeDialogflow c folder : Action (StateM FileTree) (List Text)).Fails start
      (noFolder folder) start :=
  fails_bind.2 (.inl (fails_requireFolder h))

/-- **The interaction model is written** if the tree grants it, and if not
the export fails and changes nothing. -/
theorem outcome_writeAlexa (c : Compiled) (h : start.2.leadsToFolder folder = true) :
    (∃ path stop, (writeAlexa c folder : Action (StateM FileTree) Text).Returns start path stop ∧
      start.2.write (modelPath c folder) (modelText c) = .ok stop.2) ∨
    ∃ e stop, (writeAlexa c folder : Action (StateM FileTree) Text).Fails start e stop ∧
      stop.2 = start.2 ∧
      ∀ after, start.2.write (modelPath c folder) (modelText c) ≠ .ok after := by
  let told := (Alexa.ofCompiled c).events.reverse ++ start.1
  have hfolder : (requireFolder folder : Action (StateM FileTree) Unit).Returns start () start :=
    returns_requireFolder.2 ⟨h, rfl⟩
  have htelling : (telling (Alexa.ofCompiled c) : Action (StateM FileTree) _).Returns start
      (Alexa.ofCompiled c).value (told, start.2) := returns_telling _
  cases hwrite : start.2.write (modelPath c folder) (modelText c) with
  | ok after =>
    have hjson : (writeJson (modelPath c folder) (Alexa.ofCompiled c).value.toJson :
        Action (StateM FileTree) Unit).Returns (told, start.2) () (told, after) :=
      returns_request.2 ⟨hwrite, rfl⟩
    have hlast : (do tell (.writing (modelPath c folder)); return modelPath c folder :
        Action (StateM FileTree) Text).Returns (told, after) (modelPath c folder)
          (.writing (modelPath c folder) :: told, after) :=
      returns_bind.2 ⟨(), _, returns_tell.2 rfl, returns_pure.2 ⟨rfl, rfl⟩⟩
    exact .inl ⟨_, _, returns_bind.2 ⟨(), _, hfolder, returns_bind.2 ⟨_, _, htelling,
      returns_bind.2 ⟨(), _, hjson, hlast⟩⟩⟩, rfl⟩
  | error cause =>
    have hjson : (writeJson (modelPath c folder) (Alexa.ofCompiled c).value.toJson :
        Action (StateM FileTree) Unit).Fails (told, start.2) (.io cause.message)
          (told, start.2) := fails_request hwrite
    exact .inr ⟨_, _, fails_bind.2 (.inr ⟨_, _, hfolder, fails_bind.2 (.inr ⟨_, _, htelling,
      fails_bind.2 (.inl hjson)⟩)⟩), rfl, fun _ h => by cases h⟩

end Export

namespace Command

open Utterance.Action Export

variable {fuel : Nat} {sources : List Text} {alexa dialogflow : Option Text} {order : Order}
  {start stop : List Event × FileTree}

/-! ## Reading the sources -/

theorem keepsTree_telling {α : Type} (logged : Logged α) :
    (telling logged : Action (StateM FileTree) α).KeepsTree :=
  (keepsTree_modify _).bind fun _ => keepsTree_pure _

theorem keepsTree_loadFile (w : Workspace) (path : Text) :
    (loadFile w path : Action (StateM FileTree) Workspace).KeepsTree := by
  refine (keepsTree_modify _).bind fun _ => (keepsTree_liftM fun _ => rfl).bind fun found => ?_
  cases found with
  | error e => exact keepsTree_throw _
  | ok text =>
    refine (keepsTree_telling _).bind fun added => ?_
    cases added with
    | error e => exact keepsTree_throw e
    | ok w => exact keepsTree_pure w

theorem keepsTree_loadFound (w : Workspace) (found : Found) :
    (loadFound w found : Action (StateM FileTree) Workspace).KeepsTree := by
  cases found with
  | refused path e => exact keepsTree_throw _
  | file path explicit =>
    rw [loadFound]
    split
    · exact keepsTree_loadFile w path
    · exact keepsTree_pure w

/-- **Loading sources only reads**, whether it succeeds or not. -/
theorem keepsTree_load (paths : List Text) :
    (load paths : Action (StateM FileTree) Workspace).KeepsTree :=
  KeepsTree.foldlM (fun w _ => (keepsTree_liftM fun _ => rfl).bind fun found =>
    KeepsTree.foldlM keepsTree_loadFound found w) paths {}

/-- An expansion that ends returns what it came to. -/
theorem returns_ended {α : Type} {result : Option α} {value : α} (h : result = some value) :
    (ended result : Action (StateM FileTree) α).Returns start value start := by
  rw [h]
  exact returns_pure.2 ⟨rfl, rfl⟩

/-! ## Writing the exports -/

/-- What a build does once its sources are compiled. -/
def finish {m : Type → Type} [Monad m] [FileAccess m] (w : Workspace)
    (alexa dialogflow : Option Text) (compiled : Compiled) : Action m String := do
  let first ← match alexa with
    | some folder => (fun path => [path]) <$> writeAlexa compiled folder
    | none => pure []
  let second ← match dialogflow with
    | some folder => writeDialogflow compiled folder
    | none => pure []
  tell (.wrote (first ++ second).length)
  return Summary.build w.sources.length compiled (first ++ second)

theorem runBuild_eq (fuel : Nat) (sources : List Text) (alexa dialogflow : Option Text)
    (order : Order) :
    (runBuild fuel sources alexa dialogflow order : Action (StateM FileTree) String) = (do
      let w ← load sources
      let compiled ← telling (← ended (w.compile fuel order))
      finish w alexa dialogflow compiled) := rfl

/-- A build fails where its sources do not load. -/
theorem fails_runBuild_of_load {e : Error}
    (hload : (load sources : Action (StateM FileTree) _).Fails start e stop) :
    (runBuild fuel sources alexa dialogflow order : Action (StateM FileTree) String).Fails
      start e stop := by
  rw [runBuild_eq]
  exact fails_bind.2 (.inl hload)

/-- A build whose sources load fails where these do not compile. -/
theorem fails_runBuild_of_compile {w : Workspace}
    (hload : (load sources : Action (StateM FileTree) _).Returns start w stop)
    (hcompile : w.compile fuel order = none) :
    (runBuild fuel sources alexa dialogflow order : Action (StateM FileTree) String).Fails
      start (.engine "Expansion does not end") stop := by
  have hended : (ended (w.compile fuel order) : Action (StateM FileTree) _).Fails stop
      (.engine "Expansion does not end") stop := by
    rw [hcompile]
    exact fails_throw _ _
  rw [runBuild_eq]
  exact fails_bind.2 (.inr ⟨w, stop, hload, fails_bind.2 (.inl hended)⟩)

/-- A build whose sources load and compile fails where its exports fail. -/
theorem fails_runBuild_of_finish {w : Workspace} {middle : List Event × FileTree}
    {logged : Logged Compiled} {e : Error}
    (hload : (load sources : Action (StateM FileTree) _).Returns start w middle)
    (hcompile : w.compile fuel order = some logged)
    (hfinish : (finish w alexa dialogflow logged.value : Action (StateM FileTree) String).Fails
      (logged.events.reverse ++ middle.1, middle.2) e stop) :
    (runBuild fuel sources alexa dialogflow order : Action (StateM FileTree) String).Fails
      start e stop := by
  rw [runBuild_eq]
  exact fails_bind.2 (.inr ⟨w, middle, hload, fails_bind.2 (.inr ⟨_, _, returns_ended hcompile,
    fails_bind.2 (.inr ⟨_, _, returns_telling logged, hfinish⟩)⟩)⟩)

/-- An output folder that is asked for and is not there. -/
def Missing (tree : FileTree) (folder : Option Text) : Prop :=
  ∃ path, folder = some path ∧ tree.leadsToFolder path = false

/-- **A build leaves the interaction model behind** in a tree: the sources
load and compile, the folder of the interaction model is there and that of
the agent is not, and the tree grants the write. -/
def LeavesModel (fuel : Nat) (sources : List Text) (alexa dialogflow : Option Text) (order : Order)
    (start : List Event × FileTree) (after : FileTree) : Prop :=
  ∃ w middle logged folder, (load sources : Action (StateM FileTree) _).Returns start w middle ∧
    w.compile fuel order = some logged ∧ alexa = some folder ∧
    start.2.leadsToFolder folder = true ∧ Missing start.2 dialogflow ∧
    start.2.write (modelPath logged.value folder) (modelText logged.value) = .ok after

theorem LeavesModel.unique {after other : FileTree}
    (h : LeavesModel fuel sources alexa dialogflow order start after)
    (h' : LeavesModel fuel sources alexa dialogflow order start other) : after = other := by
  obtain ⟨w, middle, logged, folder, hload, hcompile, rfl, -, -, hwrite⟩ := h
  obtain ⟨w', middle', logged', folder', hload', hcompile', hfolder, -, -, hwrite'⟩ := h'
  obtain ⟨rfl, rfl⟩ := hload.unique hload'
  obtain rfl := Option.some.inj (hcompile.symm.trans hcompile')
  obtain rfl := Option.some.inj hfolder
  exact Except.ok.inj (hwrite.symm.trans hwrite')

/-- **The exports fail** if a folder is not there, the second one only after
the first one. -/
theorem fails_finish (w : Workspace) (c : Compiled)
    (h : Missing start.2 alexa ∨ Missing start.2 dialogflow) :
    ∃ e stop, (finish w alexa dialogflow c : Action (StateM FileTree) String).Fails start e stop ∧
      ((∃ folder, alexa = some folder ∧ start.2.leadsToFolder folder = true ∧
          Missing start.2 dialogflow ∧
          start.2.write (modelPath c folder) (modelText c) = .ok stop.2) ∨
        stop.2 = start.2 ∧ ∀ folder, alexa = some folder → start.2.leadsToFolder folder = true →
          ∀ after, start.2.write (modelPath c folder) (modelText c) ≠ .ok after) := by
  have hsecond {stop : List Event × FileTree} {folder : Text} (first : List Text)
      (hmissing : stop.2.leadsToFolder folder = false) :
      (do
        let second ← writeDialogflow c folder
        tell (.wrote (first ++ second).length)
        return Summary.build w.sources.length c (first ++ second) :
          Action (StateM FileTree) String).Fails stop (noFolder folder) stop :=
    fails_bind.2 (.inl (fails_writeDialogflow c hmissing))
  cases alexa with
  | none =>
    obtain ⟨folder, rfl, hmissing⟩ := h.resolve_left fun h => by
      obtain ⟨_, hnone, -⟩ := h
      cases hnone
    have hfirst : (pure [] : Action (StateM FileTree) (List Text)).Returns start [] start :=
      returns_pure.2 ⟨rfl, rfl⟩
    exact ⟨_, start, fails_bind.2 (.inr ⟨_, _, hfirst, hsecond [] hmissing⟩),
      .inr ⟨rfl, fun _ hnone => by cases hnone⟩⟩
  | some folder =>
    cases hfolder : start.2.leadsToFolder folder with
    | false =>
      exact ⟨_, start, fails_bind.2 (.inl (fails_writeAlexa c hfolder).map),
        .inr ⟨rfl, fun _ hsome htrue => by simp_all⟩⟩
    | true =>
      have hmissing : Missing start.2 dialogflow := h.resolve_left fun h => by
        obtain ⟨_, hsome, hfalse⟩ := h
        simp_all
      rcases outcome_writeAlexa c hfolder with ⟨path, stop, hwritten, hwrite⟩ |
        ⟨e, stop, hfails, hkept, hrefused⟩
      · -- the new file does not change which folders are there
        obtain ⟨names, hnames⟩ := FileTree.exists_of_write hwrite
        obtain ⟨other, rfl, hother⟩ := hmissing
        have hother' : stop.2.leadsToFolder other = false := by
          rw [hnames, FileTree.leadsToFolder_withFile, hother]
        exact ⟨_, stop, fails_bind.2 (.inr ⟨_, _, hwritten.map, hsecond [path] hother'⟩),
          .inl ⟨folder, rfl, hfolder, ⟨other, rfl, hother⟩, hwrite⟩⟩
      · exact ⟨_, stop, fails_bind.2 (.inl hfails.map),
          .inr ⟨hkept, fun _ hsome _ => by cases hsome; exact hrefused⟩⟩

/-- **A failing build leaves the tree as it was, or the interaction model in
it.** A build fails if its sources do not load, or if a folder that it was
asked to write to is not there. No file and no folder is then new or changed,
unless the sources load and compile, the folder of the interaction model is
there and that of the agent is not, and the tree grants the write: then the
tree is the old one with the interaction model written. -/
theorem failing_build_keeps_tree
    (h : (∃ e stop, (load sources : Action (StateM FileTree) Workspace).Fails start e stop) ∨
      Missing start.2 alexa ∨ Missing start.2 dialogflow) :
    ∃ e stop, (runBuild fuel sources alexa dialogflow order :
        Action (StateM FileTree) String).Fails start e stop ∧
      ((∀ after, ¬ LeavesModel fuel sources alexa dialogflow order start after) →
        stop.2 = start.2) ∧
      ∀ after, LeavesModel fuel sources alexa dialogflow order start after → stop.2 = after := by
  rcases returns_or_fails (load sources : Action (StateM FileTree) Workspace) start with
    ⟨w, middle, hload⟩ | ⟨e, stop, hload⟩
  · have hmiddle : middle.2 = start.2 := (keepsTree_load sources).returns hload
    replace h : Missing middle.2 alexa ∨ Missing middle.2 dialogflow := by
      rw [hmiddle]
      exact h.resolve_left fun ⟨_, _, hfails⟩ => hfails.not_returns hload
    cases hcompile : w.compile fuel order with
    | none =>
      refine ⟨_, middle, fails_runBuild_of_compile hload hcompile, fun _ => hmiddle, ?_⟩
      rintro after ⟨w', _, _, _, hload', hcompile', -⟩
      obtain ⟨rfl, -⟩ := hload.unique hload'
      rw [hcompile] at hcompile'
      cases hcompile'
    | some logged =>
      let told := (logged.events.reverse ++ middle.1, middle.2)
      have htold : Missing told.2 alexa ∨ Missing told.2 dialogflow := h
      obtain ⟨e, stop, hfinish, hleft⟩ := fails_finish w logged.value htold
      refine ⟨e, stop, fails_runBuild_of_finish hload hcompile hfinish, ?_⟩
      rw [show told.2 = start.2 from hmiddle] at hleft
      rcases hleft with ⟨folder, halexa, hfolder, hmissing, hwrite⟩ | ⟨hkept, hrefused⟩
      · have hleaves : LeavesModel fuel sources alexa dialogflow order start stop.2 :=
          ⟨w, middle, logged, folder, hload, hcompile, halexa, hfolder, hmissing, hwrite⟩
        exact ⟨fun hnone => absurd hleaves (hnone _), fun after => hleaves.unique⟩
      · refine ⟨fun _ => hkept, ?_⟩
        rintro after ⟨w', _, logged', folder, hload', hcompile', halexa, hfolder, -, hwrite⟩
        obtain ⟨rfl, -⟩ := hload.unique hload'
        obtain rfl := Option.some.inj (hcompile.symm.trans hcompile')
        exact absurd hwrite (hrefused folder halexa hfolder after)
  · have hkept : stop.2 = start.2 := (keepsTree_load sources).fails hload
    refine ⟨e, stop, fails_runBuild_of_load hload, fun _ => hkept, ?_⟩
    rintro after ⟨w, middle, _, _, hload', -⟩
    exact absurd hload' hload.not_returns

/-- Two folders are asked for, and the one of the interaction model is
missing, while a second source does not load. -/
theorem failing_build_keeps_tree_unloaded :
    let tree : FileTree :=
      { folders := [["out".toList]]
        files := [(["a.dry".toList], "INTENT: A\na"), (["b.dry".toList], "a")] }
    let sources := ["a.dry".toList, "b.dry".toList]
    Missing tree (some "lost".toList) ∧
      ∃ e stop, (runBuild 10 sources (some "lost".toList) (some "out".toList) .ascending :
        Action (StateM FileTree) String).Fails ([], tree) e stop ∧ stop.2 = tree := by
  intro tree sources
  have hmissing : Missing tree (some "lost".toList) := ⟨_, rfl, by decide +kernel⟩
  obtain ⟨e, stop, hfails, hkept, -⟩ := @failing_build_keeps_tree 10 sources (some "lost".toList)
    (some "out".toList) .ascending ([], tree) (.inr (.inl hmissing))
  refine ⟨hmissing, e, stop, hfails, hkept ?_⟩
  rintro after ⟨_, _, _, _, -, -, halexa, hfolder, -⟩
  obtain ⟨_, hsome, hfalse⟩ := hmissing
  simp_all

/-- **A failing build may leave a file behind**: the folder of the
interaction model is there and that of the agent is not, the build fails for
that, and there is a file that was not there before. -/
theorem failing_build_writes :
    let tree : FileTree :=
      { folders := [["out".toList]]
        files := [(["a.dry".toList], "INVOCATION: shop\nINTENT: A\na")] }
    let written := ["out".toList, "en-US.json".toList]
    Missing tree (some "missing".toList) ∧ tree.file? written = none ∧
      ∃ stop, (runBuild 10 ["a.dry".toList] (some "out".toList) (some "missing".toList) .ascending :
          Action (StateM FileTree) String).Fails ([], tree)
            (.engine "Output folder does not exist: 'missing'") stop ∧
        (stop.2.file? written).isSome ∧ stop.2 ≠ tree := by
  intro tree written
  have hnone : tree.file? written = none := by decide +kernel
  let build : Action (StateM FileTree) String :=
    runBuild 10 ["a.dry".toList] (some "out".toList) (some "missing".toList) .ascending
  have hbuild : (match build.outcome [] tree with
      | (.error (.engine message), stop) =>
        message == "Output folder does not exist: 'missing'" && (stop.2.file? written).isSome
      | _ => false) = true := by decide +kernel
  refine ⟨⟨_, rfl, by decide +kernel⟩, hnone, ?_⟩
  split at hbuild
  · rename_i message stop hfails
    obtain ⟨hmessage, hwritten⟩ := Bool.and_eq_true_iff.1 hbuild
    refine ⟨stop, eq_of_beq hmessage ▸ hfails, hwritten, fun hsame => ?_⟩
    rw [hsame, hnone] at hwritten
    cases hwritten
  · cases hbuild

end Command

end Utterance

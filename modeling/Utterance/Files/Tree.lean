import Utterance.Files.Access

/-!
# File trees

A file system as a value: the folders and the files below one folder,
each under the names that lead to it. Reading and writing are functions
on trees, and the state monad over trees has access to files. A write
changes the one file it names (`file?_withFile`).
-/

namespace Utterance

/-- The folders and files below one folder. -/
structure FileTree where
  /-- The folders, by the names that lead to them. -/
  folders : List (List Text) := []
  /-- The files with their texts. -/
  files : List (List Text × String) := []
  deriving Repr, DecidableEq

namespace FileTree

/-- The text of the file that names lead to. -/
def file? (tree : FileTree) (names : List Text) : Option String :=
  tree.files.lookup names

/-- Whether names lead to a folder; no name at all leads to the folder
that the tree stands for. -/
def isFolder (tree : FileTree) (names : List Text) : Bool :=
  names.isEmpty || tree.folders.contains names

/-- The entries with a file added, or replaced in its place. -/
def put (names : List Text) (text : String) :
    List (List Text × String) → List (List Text × String)
  | [] => [(names, text)]
  | (n, t) :: rest => if names = n then (n, text) :: rest else (n, t) :: put names text rest

/-- All folders above a place, the outermost first, and the place. -/
def leading (names : List Text) : List (List Text) :=
  (List.range names.length).map fun n => names.take (n + 1)

/-- The tree with a folder and those above it. -/
def withFolder (tree : FileTree) (names : List Text) : FileTree :=
  { tree with
    folders := tree.folders ++ (leading names).filter fun above => !tree.folders.contains above }

/-- The tree with a file, whatever is there. -/
def withFile (tree : FileTree) (names : List Text) (text : String) : FileTree :=
  { tree with files := put names text tree.files }

/-- Whether a file or a folder is at a place. -/
def contains (tree : FileTree) (names : List Text) : Bool :=
  (tree.file? names).isSome || tree.isFolder names

/-- The place of a name in the folder at a place, whether or not there is
something at it. -/
def below (tree : FileTree) (place : List Text) (name : Text) : Except FileError (List Text) :=
  if !tree.isFolder place then .error .notFolder
  else if Path.nameLimit < name.byteSize then .error .nameTooLong
  else .ok (place ++ [name])

/-- One step on from a place. What is above the tree is not known. -/
def step (tree : FileTree) (place : List Text) : Path.Step → Except FileError (List Text)
  | .stay => if tree.isFolder place then .ok place else .error .notFolder
  | .back =>
    if !tree.isFolder place then .error .notFolder
    else if place.isEmpty then .error .notFound
    else .ok place.dropLast
  | .name name => do
    let there ← tree.below place name
    if tree.contains there then .ok there else .error .notFound

/-- **The place that a path leads to**, where there is something. -/
def locate (tree : FileTree) (path : Text) : Except FileError (List Text) := do
  if !Path.fits path then throw .nameTooLong
  if !Path.isRelative path then throw .notFound
  let place ← (Path.steps path).foldlM tree.step []
  -- a slash at the end asks for a folder
  if Path.endsInSlash path && !tree.isFolder place then throw .notFolder
  return place

/-- The place that a path means for something new: everything before its
last name is there. -/
def locateNew (tree : FileTree) (path : Text) : Except FileError (List Text) := do
  if !Path.fits path then throw .nameTooLong
  if !Path.isRelative path then throw .notFound
  let steps := Path.steps path
  let place ← steps.dropLast.foldlM tree.step []
  match steps.getLast? with
  | some (.name name) => tree.below place name
  | some other => tree.step place other
  | none => return place

/-- Whether a path leads to a folder. -/
def leadsToFolder (tree : FileTree) (path : Text) : Bool :=
  match tree.locate path with
  | .ok place => tree.isFolder place
  | .error _ => false

/-- What a search meets at a place that is given by a path and the names
after it: a file, or a folder that cannot be searched because its path is
too long. A folder that can be is not told. -/
def met (tree : FileTree) (path : Text) (names : List Text) (place : List Text) : Option Found :=
  let there := Path.joinAll path names
  -- the folder above was refused already
  if !Path.fits (Path.joinAll path names.dropLast) then none
  else if !tree.isFolder place then some (.file there false)
  else if !Path.fits there then some (.refused there .nameTooLong)
  else none

/-- What is met at or below a path, each folder in the order of names. -/
def find (tree : FileTree) (path : Text) : List Found :=
  match tree.locate path with
  | .error e => [.refused path e]
  | .ok place =>
    if !tree.isFolder place then [.file path true]
    else
      let all := (tree.folders ++ tree.files.map Prod.fst).filter fun names =>
        place.isPrefixOf names && names != place
      (all.mergeSort (dictionaryOrder Text.ascending)).filterMap fun names =>
        tree.met path (names.drop place.length) names

/-- The text of a file. -/
def read (tree : FileTree) (path : Text) : Except FileError Text := do
  let place ← tree.locate path
  match tree.file? place with
  | some text => return text.toList
  | none => throw .isFolder

/-- Write a file anew. -/
def write (tree : FileTree) (path : Text) (text : String) : Except FileError FileTree := do
  let place ← tree.locateNew path
  if tree.isFolder place then throw .isFolder
  return tree.withFile place text

/-- Make a folder, unless it is there. -/
def makeFolder (tree : FileTree) (path : Text) : Except FileError FileTree := do
  let place ← tree.locateNew path
  if (tree.file? place).isSome then throw .alreadyExists
  return tree.withFolder place

/-- The names along a path that only leads on. -/
def plainNames (path : Text) : List Text :=
  (Path.steps path).filterMap fun
    | .name name => some name
    | _ => none

/-- The tree that a list of folders and a list of files make. -/
def ofPaths (folders : List Text) (files : List (Text × String)) : FileTree :=
  let base := folders.foldl (fun tree path => tree.withFolder (plainNames path)) ({} : FileTree)
  files.foldl
    (fun tree (path, text) =>
      let names := plainNames path
      (tree.withFolder names.dropLast).withFile names text)
    base

/-- The files that are new or changed since an earlier state, in the order
of their paths. -/
def changesSince (tree before : FileTree) : List (Text × String) :=
  let changed := tree.files.filter fun (names, text) => before.file? names != some text
  let paths := changed.map fun (names, text) => (['/'].intercalate names, text)
  paths.mergeSort fun a b => Text.ascending a.1 b.1

/-- **A write changes one file.** -/
theorem file?_withFile (tree : FileTree) (names other : List Text) (text : String) :
    (tree.withFile names text).file? other =
      if other = names then some text else tree.file? other := by
  obtain ⟨folders, files⟩ := tree
  simp only [withFile, file?]
  induction files with
  | nil =>
    by_cases h : other = names
    · simp [put, h]
    · simp [put, List.lookup_cons, h, beq_false_of_ne h]
  | cons entry rest ih =>
    obtain ⟨n, t⟩ := entry
    simp only [put]
    by_cases hn : names = n
    · subst hn
      by_cases h : other = names
      · simp [h]
      · simp [List.lookup_cons, h, beq_false_of_ne h]
    · by_cases h : other = names
      · subst h; simp [List.lookup_cons, beq_false_of_ne hn, hn, ih]
      · simp [List.lookup_cons, ih, h, hn]

/-- Run an operation that may change the tree; a refusal changes nothing. -/
def attempt (operation : FileTree → Except FileError FileTree) :
    StateM FileTree (Except FileError Unit) := fun tree =>
  match operation tree with
  | .ok after => (.ok (), after)
  | .error e => (.error e, tree)

end FileTree

instance : FileAccess (StateM FileTree) where
  isFolder path := fun tree => (tree.leadsToFolder path, tree)
  find path := fun tree => (tree.find path, tree)
  read path := fun tree => (tree.read path, tree)
  write path text := FileTree.attempt fun tree => tree.write path text
  makeFolder path := FileTree.attempt fun tree => tree.makeFolder path

end Utterance

import Utterance.Command.Run

/-!
# The command line

The real file system answers what the commands ask, and the program
prints its answer.
-/

namespace Utterance

namespace SystemFiles

/-- The cause of a refusal, as far as it is told apart. -/
def cause : IO.Error → FileError
  | .noFileOrDirectory .. => .notFound
  | .alreadyExists .. => .alreadyExists
  | .inappropriateType _ 21 _ => .isFolder
  | .inappropriateType _ 20 _ => .notFolder
  | .invalidArgument _ 36 _ => .nameTooLong
  | e => .other (toString e)

/-- An action, with its refusal as a value. -/
def guarded {α : Type} (action : IO α) : IO (Except FileError α) := do
  match ← action.toBaseIO with
  | .ok value => return .ok value
  | .error e => return .error (cause e)

/-- What is met at or below a path, each folder in the order of names. -/
partial def search (path : Text) (explicit : Bool) : IO (List Found) := do
  let here ← IO.currentDir
  match ← guarded do return (← (here / path.str).symlinkMetadata).type with
  | .error e => return [.refused path e]
  | .ok .file => return [.file path explicit]
  | .ok .dir =>
    match ← guarded (here / path.str).readDir with
    | .error e => return [.refused path e]
    | .ok entries =>
      let names := entries.toList.map fun entry => entry.fileName.toList
      let found ← (names.mergeSort Text.ascending).mapM fun name =>
        search (Path.join path name) false
      return found.flatten
  | .ok _ => return []

end SystemFiles

open SystemFiles in
instance : FileAccess IO where
  isFolder path := do ((← IO.currentDir) / path.str).isDir
  find path := search path true
  read path := guarded do return (← IO.FS.readFile path.str).toList
  write path text := guarded (IO.FS.writeFile path.str text)
  makeFolder path := guarded (IO.FS.createDirAll path.str)

end Utterance

open Utterance in
/-- The program. -/
def main (args : List String) : IO UInt32 := do
  let answer : Answer ← Answer.toArguments Worklist.ampleFuel (args.map String.toList)
  IO.print answer.output
  IO.eprint answer.errorOutput
  return answer.code.toUInt32

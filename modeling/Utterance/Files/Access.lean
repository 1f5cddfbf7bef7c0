import Utterance.Files.Path

/-!
# Access to files

What the exports and commands ask of a file system, as a class of monads:
the real one and the tree of `Utterance.Files.Tree` both answer. Refusals
are causes with the system's words.
-/

namespace Utterance

/-- Why a file system refuses. -/
inductive FileError where
  /-- There is nothing at the path. -/
  | notFound
  /-- There is something at the path already. -/
  | alreadyExists
  /-- The path leads through a file. -/
  | notFolder
  /-- There is a folder where a file is wanted. -/
  | isFolder
  /-- A name or the whole path is too long. -/
  | nameTooLong
  /-- Something else, in the system's words. -/
  | other (message : String)
  deriving Repr, DecidableEq

namespace FileError

/-- The system's words. -/
def message : FileError → String
  | notFound => "No such file or directory (os error 2)"
  | alreadyExists => "File exists (os error 17)"
  | notFolder => "Not a directory (os error 20)"
  | isFolder => "Is a directory (os error 21)"
  | nameTooLong => "File name too long (os error 36)"
  | other message => message

end FileError

/-- What a search at or below a path meets. -/
inductive Found where
  /-- A file, by its path, and whether it is what was searched at. -/
  | file (path : Text) (explicit : Bool)
  /-- A place that cannot be searched. -/
  | refused (path : Text) (error : FileError)
  deriving Repr, DecidableEq

/-- The operations on files that the exports and commands need. -/
class FileAccess (m : Type → Type) where
  /-- Whether there is a folder at a path. -/
  isFolder : Text → m Bool
  /-- What is met at or below a path, each folder in the order of names. -/
  find : Text → m (List Found)
  /-- The text of a file. -/
  read : Text → m (Except FileError Text)
  /-- Write a file anew. -/
  write : Text → String → m (Except FileError Unit)
  /-- Make a folder in one that is there, unless it is there too. -/
  makeFolder : Text → m (Except FileError Unit)

end Utterance

import Utterance.Text.Basic

/-!
# Paths

A path is written as names between slashes. Empty names lead nowhere, a
single dot stays where it is and two dots lead back (`Path.steps`); what
a path leads to is decided by what is there.
-/

namespace Utterance

namespace Path

/-- A name below a path, with a slash between them unless there is one. -/
def join (path name : Text) : Text :=
  if path.isEmpty || path.getLast? == some '/' then path ++ name else path ++ '/' :: name

/-- Names below a path, one after another. -/
def joinAll (path : Text) (names : List Text) : Text :=
  names.foldl join path

/-- The last name of a path. -/
def fileName (path : Text) : Text :=
  (path.splitOn '/').getLastD []

/-- What follows the last dot of a file's name, if something stands before
that dot. -/
def extension? (path : Text) : Option Text :=
  let name := fileName path
  let after := (name.reverse.takeWhile (· ≠ '.')).reverse
  let before := name.take (name.length - (after.length + 1))
  if name.contains '.' && !before.isEmpty then some after else none

/-- One step along a path. -/
inductive Step where
  /-- Stay. -/
  | stay
  /-- Back to the folder above. -/
  | back
  /-- On to a name. -/
  | name (name : Text)
  deriving Repr, DecidableEq

/-- The step that a part of a path means. -/
def Step.ofPart (part : Text) : Step :=
  if part = ['.'] then .stay else if part = ['.', '.'] then .back else .name part

/-- The steps along a path. -/
def steps (path : Text) : List Step :=
  ((path.splitOn '/').filter fun part => !part.isEmpty).map Step.ofPart

/-- Whether a path leads on from where it is read. The empty path does,
and stays there. -/
def isRelative (path : Text) : Bool :=
  path.head? != some '/'

/-- Whether a path ends in a slash, which only a folder may stand before. -/
def endsInSlash (path : Text) : Bool :=
  path.getLast? == some '/'

/-- The number of bytes that a path must stay below. -/
def byteLimit : Nat := 4096

/-- Whether a path is short enough. -/
def fits (path : Text) : Bool :=
  path.byteSize < byteLimit

/-- The longest name, in bytes, that a file may have. -/
def nameLimit : Nat := 255

end Path

end Utterance

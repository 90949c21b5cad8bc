import BuildInputs.FileSystem.Workspace

namespace BuildInputs
namespace Workspace

/-!
# Arranging files

The tool itself writes files and nothing else.  The operations here make the other kinds of
entries and take entries away, so that a file system can be built up step by step.  They follow
links on the way to the entry and never at the entry itself.
-/

/-- Make one directory, which may be there already. -/
def makeDirectory (workspace : Workspace) (path : Path) : Except Failure Workspace :=
  match workspace.walk .visit path with
  | .ok (.vacant directory name) =>
      .ok { workspace with files := workspace.files.put (directory ++ [name]) .directory }
  | .ok (.present location) =>
      if workspace.files.node? location = some .directory then .ok workspace
      else .error .alreadyExists
  | .error failure => .error failure

/-- The spellings of a path cut after each of its pieces, shortest first. -/
def prefixes (path : Path) : List Path :=
  let pieces := Text.fields Path.slash path
  ((List.range pieces.length).map fun count =>
    Text.joinWith Path.slash (pieces.take (count + 1))).filter fun path => path ≠ []

def makeDirectories (workspace : Workspace) (path : Path) : Except Failure Workspace :=
  (prefixes path).foldlM makeDirectory workspace

/-- The directory that holds the entry that a path names, and the name. -/
def place (workspace : Workspace) (path : Path) : Except Failure (Location × FileName) :=
  match entryOf? path with
  | none => .error .alreadyExists
  | some (parent, piece) =>
      match workspace.locate parent, FileName.ofBytes? piece with
      | .ok directory, some name =>
          if workspace.files.node? directory = some .directory then .ok (directory, name)
          else .error .notADirectory
      | .ok _, none => .error .nameTooLong
      | .error failure, _ => .error failure

/-- Make an entry where none is. -/
def makeEntry (workspace : Workspace) (path : Path) (node : Node) : Except Failure Workspace :=
  (workspace.place path).bind fun place =>
    let location := place.1 ++ [place.2]
    if (workspace.files.node? location).isSome then .error .alreadyExists
    else .ok { workspace with files := workspace.files.put location node }

/-- Make a link with a target that is kept as it is spelled and need not exist. -/
def makeLink (workspace : Workspace) (path target : Path) : Except Failure Workspace :=
  workspace.makeEntry path (.link target)

def makePipe (workspace : Workspace) (path : Path) : Except Failure Workspace :=
  workspace.makeEntry path .pipe

/-- Take away an entry, with everything below it if it is a directory. -/
def remove (workspace : Workspace) (path : Path) : Except Failure Workspace :=
  (workspace.place path).bind fun place =>
    let location := place.1 ++ [place.2]
    if (workspace.files.node? location).isSome then
      .ok { workspace with files := workspace.files.clear location }
    else .error .notFound

end Workspace
end BuildInputs

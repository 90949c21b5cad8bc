import BuildInputs.FileSystem.Walk

namespace BuildInputs

/-!
# Files as a program sees them

A program has a file system and a current directory, from which relative paths start.  It can
ask where a path leads, what stands there, what a file holds and what a directory lists, and it
can write a file.  Every question is answered from the file system as it is now; only writing
gives a new one.  The current directory always has a location, so it cannot be one that has been
taken away.
-/

structure Workspace where
  files : FileSystem
  directory : Location

namespace Workspace

/-- Walk along a path.  The empty path leads nowhere, and a path with a NUL character is refused
before anything is looked up. -/
def walk (workspace : Workspace) (purpose : FileSystem.Purpose) (path : Path) :
    Except Failure FileSystem.Arrival :=
  if 0 ∈ path then .error .nulCharacter
  else if path = [] then .error .notFound
  else
    workspace.files.walk purpose FileSystem.linkLimit (FileSystem.start workspace.directory path)
      (FileSystem.steps path)

/-- The location to which a path leads through all links.  It must exist. -/
def locate (workspace : Workspace) (path : Path) : Except Failure Location :=
  match workspace.walk .visit path with
  | .ok (.present location) => .ok location
  | .ok (.vacant _ _) => .error .notFound
  | .error failure => .error failure

/-- What stands where a path leads, which is never a link. -/
def status (workspace : Workspace) (path : Path) : Except Failure Node :=
  (workspace.locate path).bind fun location =>
    match workspace.files.node? location with
    | some node => .ok node
    | none => .error .notFound

/-- The path without its last name and the slashes after it, as the directory to look in, and
that name.  A path that ends in a slash, `.` or `..` names no entry. -/
def entryOf? (path : Path) : Option (Path × Path) :=
  match Text.cutLast Path.slash path with
  | none =>
      match FileSystem.Step.ofPiece path with
      | .name _ => some ([Path.dot], path)
      | _ => none
  | some (parent, piece) =>
      match FileSystem.Step.ofPiece piece with
      | .name _ => some (parent ++ [Path.slash], piece)
      | _ => none

/-- Whether something stands where a path leads.  If its last name is a link, the link itself is
enough, wherever it leads. -/
def hasEntry (workspace : Workspace) (path : Path) : Bool :=
  match entryOf? path with
  | none => (workspace.locate path).isOk
  | some (parent, piece) =>
      match workspace.locate parent, FileName.ofBytes? piece with
      | .ok directory, some name =>
          workspace.files.node? directory = some .directory &&
            (workspace.files.node? (directory ++ [name])).isSome
      | _, _ => false

def isDirectory (workspace : Workspace) (path : Path) : Bool :=
  match workspace.status path with
  | .ok .directory => true
  | _ => false

def readBytes (workspace : Workspace) (path : Path) : Except Failure (List UInt8) :=
  (workspace.status path).bind fun node =>
    match node with
    | .file contents => .ok contents
    | .directory => .error .isADirectory
    | .pipe => .error .idlePipe
    | .link _ => .error .tooManyLinks

def readText (workspace : Workspace) (path : Path) : Except Failure Text :=
  (workspace.readBytes path).bind fun contents =>
    match Utf8.decode contents with
    | .ok text => .ok text
    | .error _ => .error .notUtf8

/-- The entries of the directory to which a path leads, in the order of the bytes of their
names, each with what stands there before any link is followed. -/
def list (workspace : Workspace) (path : Path) : Except Failure (List (FileName × Node)) :=
  (workspace.locate path).bind fun location =>
    match workspace.files.node? location with
    | some .directory =>
        .ok ((workspace.files.names location).filterMap fun name =>
          (workspace.files.node? (location ++ [name])).map fun node => (name, node))
    | some _ => .error .notADirectory
    | none => .error .notFound

/-- Where a file would be written to.  The path may lead through links, and the file need not
exist yet. -/
def placeToWrite (workspace : Workspace) (path : Path) : Except Failure Location :=
  match workspace.walk .create path with
  | .error failure => .error failure
  | .ok (.vacant directory name) => .ok (directory ++ [name])
  | .ok (.present location) =>
      match workspace.files.node? location with
      | some (.file _) => .ok location
      | some .directory => .error .isADirectory
      | some .pipe => .error .idlePipe
      | some (.link _) => .error .tooManyLinks
      | none => .error .notFound

/-- Replace the contents of a file, or make it. -/
def writeBytes (workspace : Workspace) (path : Path) (contents : List UInt8) :
    Except Failure Workspace :=
  (workspace.placeToWrite path).map fun location =>
    { workspace with files := workspace.files.put location (.file contents) }

def writeText (workspace : Workspace) (path : Path) (text : Text) : Except Failure Workspace :=
  workspace.writeBytes path (Utf8.encode text)

end Workspace
end BuildInputs

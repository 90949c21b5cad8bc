import BuildInputs.CommandLine.Run
import BuildInputs.FileSystem.Change

namespace BuildInputs
namespace CommandLine

/-!
# Snapshots of the disk

A command works on files as a value, so what it may look at is read from the disk before it
starts.  A path is looked at together with every entry on its way.  A link is recorded with the
place where it finally leads, since that is all that a walk through it can show; one that leads
nowhere is recorded with a place where nothing stands, and one that goes round in circles with
itself.  Only files that a command uses, for reading or for writing, are recorded with their
contents.  The null device counts as an empty file for such a command; every other device and
every socket is recorded as a pipe, since it is no regular file either.

The disk is asked by text, so an entry whose name is none is not seen.  Nothing is decided here:
what is missing or wrong is found by the command in the snapshot.
-/

/-- The entries looked at so far, and the directories listed so far, each with the number of
levels below it that were listed, or none for all of them. -/
structure Snapshot where
  files : FileSystem
  listed : List (Location × Option Nat)

abbrev Looking := StateT Snapshot IO

namespace Snapshot

/-- A place where nothing stands. -/
def nowhere : Path := [Path.slash, 1]

def onDisk (path : Path) : String :=
  String.ofList path.display

/-- The device that swallows what is written to it. -/
def nullDevice : Path := Path.ofText "/dev/null".toList

def locationOf (path : Path) : Location :=
  (Text.fields Path.slash path).filterMap FileName.ofBytes?

def realLocation? (path : Path) : IO (Option Location) := do
  match ← (IO.FS.realPath (onDisk path)).toBaseIO with
  | .ok real => pure (some (locationOf (Path.ofText real.toString.toList)))
  | .error _ => pure none

/-- What kind of entry a path names on the disk, without following a link at its end. -/
def kind? (directory name : Path) : IO (Option IO.FS.FileType) := do
  let entry : IO.FS.DirEntry := ⟨onDisk directory, onDisk name⟩
  match ← entry.path.symlinkMetadata.toBaseIO with
  | .ok metadata => pure (some metadata.type)
  | .error _ => pure none

def linkTarget (directory name : Path) : IO Path := do
  let entry : IO.FS.DirEntry := ⟨onDisk directory, onDisk name⟩
  let link := Path.push directory name
  match ← realLocation? link with
  | some location => pure location.path
  | none =>
      match ← entry.path.metadata.toBaseIO with
      | .error (.noFileOrDirectory _ _ _) => pure nowhere
      | _ => pure link

/-- Record an entry of a directory, which is used or only looked at. -/
def lookAtEntry (isUsed : Bool) (directory : Location) (name : FileName) : Looking Unit := do
  let location := directory ++ [name]
  let path := location.path
  let node ← match ← kind? directory.path name.bytes with
    | none => pure none
    | some .dir => pure (some Node.directory)
    | some .symlink => pure (some (.link (← linkTarget directory.path name.bytes)))
    | some .other => pure (some (if isUsed && path = nullDevice then .file [] else .pipe))
    | some .file =>
        if isUsed then
          match ← (IO.FS.readBinFile (onDisk path)).toBaseIO with
          | .ok contents => pure (some (.file contents.toList))
          | .error _ => pure (some (.file []))
        else pure (some (.file []))
  match node with
  | some node => modify fun snapshot => { snapshot with files := snapshot.files.put location node }
  | none => pure ()

/-- Record a location, which passes through no link, and everything on the way to it. -/
def lookAtLocation (isUsed : Bool) (location : Location) : Looking Unit := do
  for depth in List.range location.length do
    match location[depth]? with
    | some name =>
        lookAtEntry (isUsed && depth + 1 = location.length) (location.take depth) name
    | none => pure ()

/-- Record every entry on the way along a path, and the one to which it leads. -/
def lookAtPath (isUsed : Bool) (path : Path) : Looking Unit := do
  for start in Workspace.prefixes path do
    match Workspace.entryOf? start with
    | some (parent, piece) =>
        match ← realLocation? parent, FileName.ofBytes? piece with
        | some directory, some name => do
            lookAtLocation false directory
            lookAtEntry false directory name
        | _, _ => pure ()
    | none => pure ()
    match ← realLocation? start with
    | some location => lookAtLocation (isUsed && start = path) location
    | none => pure ()

/-- Record what lies below a directory, down to a number of levels or, without one, all of it.
Links are followed, but a directory that was listed before is not listed again. -/
partial def lookBelow (levels : Option Nat) (directory : Path) : Looking Unit := do
  lookAtPath false directory
  match levels, ← realLocation? directory with
  | some 0, _ => pure ()
  | _, none => pure ()
  | _, some location =>
      if (location, levels) ∈ (← get).listed then pure ()
      else do
        modify fun snapshot => { snapshot with listed := (location, levels) :: snapshot.listed }
        let root : IO.FS.DirEntry := ⟨onDisk location.path, ""⟩
        match ← root.path.readDir.toBaseIO with
        | .ok entries =>
            for entry in entries do
              lookBelow (levels.map (· - 1))
                (Path.push location.path (Path.ofText entry.fileName.toList))
        | .error _ => pure ()

/-- Record what a pattern may match: what stands below every path that matches its beginning, up
to each of its components in turn. -/
def lookForPattern (here : Location) (pattern : Text) : Looking Unit := do
  let path := Path.ofText pattern
  lookBelow (some 1) (if Path.isAbsolute path then [Path.slash] else [Path.dot])
  for start in Workspace.prefixes path do
    lookAtPath false start
    let levels := if (Path.ofText "**".toList).isSuffixOf start then none else some 1
    match Glob.paths ⟨(← get).files, here⟩ start.display with
    | .ok found => found.forM (lookBelow levels)
    | .error _ => pure ()

def lookForBuildFile (here : Location) (search : BuildFileSearch) : Looking Unit := do
  lookAtPath false search.source
  match (Workspace.mk (← get).files here).locate search.source with
  | .ok location =>
      for candidate in search.candidates location.path do
        lookAtPath false candidate.2
  | .error _ => pure ()

def lookFor (here : Location) (environment : Settings.Environment) : Command -> Looking Unit
  | .containerfile search => lookForBuildFile here search
  | .secrets specs =>
      match SecretSpec.parseAll specs with
      | .ok specs => specs.forM fun spec => lookBelow (some 1) spec.src
      | .error _ => pure ()
  | .auth _ authFile _ =>
      match authFile, Auth.defaultFile environment with
      | some path, _ => lookAtPath true path
      | none, .ok path => lookAtPath true path
      | none, .error _ => pure ()
  | .prefetchInput _ (some directory) =>
      lookForPattern here (Package.Certificates.patternIn directory)
  | .prefetchInput _ none => pure ()
  | .prefetchConfig config output => do
      output.forM (lookAtPath true)
      lookAtPath true config
  | .imageRef _ => pure ()
  | .version => pure ()

def take (environment : Settings.Environment) (command : Command) : IO Workspace := do
  let here := locationOf (Path.ofText (← IO.currentDir).toString.toList)
  let looking : Looking Unit := do
    lookAtLocation false here
    lookFor here environment command
  let ((), snapshot) ← looking.run ⟨.empty, []⟩
  pure ⟨snapshot.files, here⟩

end Snapshot
end CommandLine
end BuildInputs

import BuildInputs.Event
import BuildInputs.FileSystem.Workspace
import BuildInputs.InputError
import BuildInputs.Path.Containment
import BuildInputs.Report
import BuildInputs.Settings

namespace BuildInputs

/-!
# Finding the build file

A build file is looked for below the build context and then directly below the source directory.
If none is named, a Containerfile is preferred to a Dockerfile in both places.  The first
candidate that exists decides: if its links lead out of the source directory the search fails,
and later candidates are not tried.  The source directory itself may be reached through links.
-/

structure BuildFileSearch where
  /-- The application source, which the build file must not leave. -/
  source : Path
  /-- The build context within the source.  The empty path means the source itself. -/
  context : Path := Settings.defaultContext
  buildFile : Option Path := none
  deriving DecidableEq, Repr

namespace BuildFileSearch

def buildFiles (search : BuildFileSearch) : List Path :=
  match search.buildFile with
  | some buildFile => [buildFile]
  | none => Settings.defaultBuildFiles

def contextPath (search : BuildFileSearch) : Path :=
  if search.context = [] then Settings.defaultContext else search.context

/-- The candidates below a boundary, in order, each with the build file it stands for. -/
def candidates (search : BuildFileSearch) (boundary : Path) : List (Path × Path) :=
  let context := Path.joinLexically boundary search.contextPath
  search.buildFiles.flatMap fun buildFile =>
    [(buildFile, Path.joinLexically context buildFile),
      (buildFile, Path.joinLexically boundary buildFile)]

/-- The location of a path as an absolute path, or nothing if the path leads nowhere. -/
def resolvePath (workspace : Workspace) (path : Path) : Except InputError (Option Path) :=
  match workspace.locate path with
  | .ok location => .ok (some location.path)
  | .error .notFound => .ok none
  | .error failure => .error (.linkUnresolved path failure)

/-- The first candidate that exists, as long as it lies inside the boundary. -/
def firstPresent (workspace : Workspace) (boundary : Path) :
    List (Path × Path) -> Report Event InputError (Option Path)
  | [] => pure none
  | (buildFile, candidate) :: others =>
      match resolvePath workspace candidate with
      | .error error => Report.fail error
      | .ok none => firstPresent workspace boundary others
      | .ok (some location) =>
          if Path.isContained location boundary then do
            Report.note (.buildFileFound buildFile location)
            pure (some location)
          else Report.fail (.outsideSource buildFile location boundary)

/-- Look for the build file.  Finding none is no error. -/
def locate (workspace : Workspace) (search : BuildFileSearch) :
    Report Event InputError (Option Path) :=
  if search.source = [] then Report.fail .missingSource
  else
    match workspace.locate search.source with
    | .error failure => Report.fail (.linkUnresolved search.source failure)
    | .ok location => do
        let boundary := location.path
        let found ← firstPresent workspace boundary (search.candidates boundary)
        if found.isNone && search.buildFile.isNone then
          Report.note (.noBuildFileUnder boundary)
        pure found

end BuildFileSearch
end BuildInputs

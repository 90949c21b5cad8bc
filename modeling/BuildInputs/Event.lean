import BuildInputs.Path.Basic

namespace BuildInputs

/-!
# Events

While it works, the library notes what it does.  An event is a value with a level and a
wording, and stays one until somebody wants to read it.
-/

inductive Level where
  | debug
  | info
  deriving DecidableEq, Repr

inductive Event where
  | buildFileFound (buildFile : Path) (location : Path)
  | noBuildFileUnder (boundary : Path)
  | noBuildFile
  | secretDirectorySkipped (directory : Path)
  | secretAdded (id : Text)
  | selectingAuth (repository : Text) (authFile : Path)
  | noRpmPackages
  | usingCertificates (key certificate : Path)
  | configWritten (output : Path)
  | referenceValid (reference : Text)
  deriving DecidableEq, Repr

namespace Event

/-- Results of a command's own work are news; the steps to them are details. -/
def level : Event -> Level
  | .secretAdded _ => .info
  | .noBuildFile => .info
  | _ => .debug

def message : Event -> Text
  | .buildFileFound buildFile location =>
      "Found ".toList ++ buildFile.display ++ " at: ".toList ++ location.display
  | .noBuildFileUnder boundary =>
      "Neither Containerfile nor Dockerfile found under ".toList ++ boundary.display
  | .noBuildFile => "Containerfile or Dockerfile not found".toList
  | .secretDirectorySkipped directory =>
      "secret directory ".toList ++ directory.display ++
        " doesn't exist but is marked optional, skipping".toList
  | .secretAdded id =>
      "Adding secret ".toList ++ id ++ " to the build, available with ".toList ++
        "'RUN --mount=type=secret,id=".toList ++ id ++ "'".toList
  | .selectingAuth repository authFile =>
      "Selecting registry authentication for ".toList ++ repository ++ " from ".toList ++
        authFile.display
  | .noRpmPackages => "No RPM packages in prefetch input".toList
  | .usingCertificates key certificate =>
      "Using entitlement certificates ".toList ++ key.display ++ " and ".toList ++
        certificate.display
  | .configWritten output => "Wrote filtered config to ".toList ++ output.display
  | .referenceValid reference =>
      "Image reference ".toList ++ reference ++ " is valid".toList

end Event

end BuildInputs

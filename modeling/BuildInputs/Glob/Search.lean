import BuildInputs.FileSystem.Workspace
import BuildInputs.Glob.Pattern

namespace BuildInputs
namespace Glob

/-!
# Finding the paths that match a pattern

A pattern is matched component by component.  A component without wildcards is not looked up in
a listing: it is enough that the entry exists, and a dangling link exists.  A component with
wildcards is matched against the names in the directory, in the order of their bytes, and
directories are found through links.  A name that is no text matches no component; `**` still
looks below it.  A path that does not exist or is not a directory has no matches, and that is no
error.

The matches keep the spelling of the pattern, except that slashes are not doubled and a leading
`./` goes.
-/

abbrev ComponentPattern := List Token

/-- Whether a component stands for any number of directories. -/
def isRecursive (pattern : ComponentPattern) : Bool :=
  pattern.contains .anyDirectories

/-- Whether a path is the current directory, spelled as such. -/
def isHere (path : Path) : Bool :=
  Path.components path = [.current]

/-- The path of an entry of a directory.  Those of the current directory are spelled alone. -/
def entryPath (directory name : Path) : Path :=
  if isHere directory then name else Path.push directory name

/-- Whether the entry that a component without wildcards names is there. -/
def isThere (workspace : Workspace) (directory name : Path) : Bool :=
  if name = [Path.dot] || name = [Path.dot, Path.dot] then workspace.isDirectory directory
  else
    let path := entryPath directory name
    (workspace.locate path).isOk || workspace.hasEntry path

/-- The names `.` and `..`, in the order in which they are found, as far as a component that
begins with a dot stands for them. -/
def specialNames (pattern : ComponentPattern) : List Text :=
  match pattern with
  | .literal '.' :: _ => [['.', '.'], ['.']].filter (isMatch pattern)
  | _ => []

def childNames (workspace : Workspace) (directory : Path) : List Path :=
  match workspace.list directory with
  | .ok entries => entries.map fun entry => entry.1.bytes
  | .error _ => []

/-- Whether a component stands for a name.  It does only if the name is a text. -/
def isNameMatch (pattern : ComponentPattern) (name : Path) : Bool :=
  match Utf8.decode name with
  | .ok text => isMatch pattern text
  | .error _ => false

/-- The paths below a directory that match the components.  The number of steps bounds how far
below the search looks. -/
def search (workspace : Workspace) : Nat -> Path -> List ComponentPattern -> List Path
  | 0, _, _ => []
  | _, _, [] => []
  | steps + 1, directory, pattern :: patterns =>
      let goOn (path : Path) (patterns : List ComponentPattern) : List Path :=
        match patterns with
        | [] => [path]
        | patterns => search workspace steps path patterns
      match literalText? pattern with
      | some text =>
          let name := Path.ofText text
          if isThere workspace directory name then goOn (entryPath directory name) patterns else []
      | none =>
          if workspace.isDirectory directory then
            let special := (specialNames pattern).flatMap fun name =>
              goOn (Path.push directory (Path.ofText name)) patterns
            let children := (childNames workspace directory).flatMap fun name =>
              let path := entryPath directory name
              if isRecursive pattern then
                let others := patterns.dropWhile isRecursive
                let below :=
                  if workspace.isDirectory path then search workspace steps path (pattern :: others)
                  else []
                let found :=
                  match others with
                  | [] => if workspace.isDirectory path then [path] else []
                  | next :: others => if isNameMatch next name then goOn path others else []
                found ++ below
              else if isNameMatch pattern name then goOn path patterns
              else []
            special ++ children
          else []

def readComponents : List Text -> Except PatternError (List ComponentPattern)
  | [] => .ok []
  | piece :: pieces =>
      (parse piece).bind fun pattern =>
        (readComponents pieces).map (pattern :: ·)

/-- The number of steps that is enough for any pattern with so many components: a directory
below another is reached through the listed entries, and each link on the way starts afresh. -/
def stepBound (workspace : Workspace) (components : Nat) : Nat :=
  components + (FileSystem.linkLimit + 1) * (workspace.files.rows.length + 1)

/-- The paths that match a pattern.  The pattern as a whole must be right, and then each of its
components. -/
def paths (workspace : Workspace) (pattern : Text) : Except PatternError (List Path) :=
  (parse pattern).bind fun _ =>
    let absolute : Bool := pattern.head? = some '/'
    let body := if absolute then pattern.drop 1 else pattern
    let pieces := Text.fields '/' body
    let pieces := if pieces.getLast? = some [] then pieces.dropLast else pieces
    (readComponents pieces).map fun patterns =>
      search workspace (stepBound workspace patterns.length)
        (if absolute then [Path.slash] else [Path.dot]) patterns

end Glob
end BuildInputs

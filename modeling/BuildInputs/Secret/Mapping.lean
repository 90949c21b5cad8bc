import BuildInputs.Event
import BuildInputs.FileSystem.Workspace
import BuildInputs.Report
import BuildInputs.Secret.Spec

namespace BuildInputs

/-!
# Secrets of a build

Every regular file in a secret directory becomes a secret, and so does every link that leads to
one; directories, pipes and links to them are passed over.  A secret has an id, by which the
build refers to it.  Two secrets with one id would hide one another, so that is an error and
not a choice.  The order is that of the specifications, and of the bytes of the names in each
directory.

Ids are texts, while names are bytes.  A name is turned into the text that is shown for it as
soon as it is read, and this text, not the name, goes into the id and into the source.

Nothing changes between listing a directory and looking at its entries, and the current directory
has a path.  So of the failures of the system only those of the listing and of a link are left.
-/

/-- A file and the id under which the build sees it. -/
structure SecretMapping where
  src : Path
  id : Text
  deriving DecidableEq, Repr

namespace SecretMapping

def buildArgument (mapping : SecretMapping) : Text :=
  "--secret=src=".toList ++ mapping.src.display ++ ",id=".toList ++ mapping.id

/-- The id of a file below a prefix.  Slashes that are doubled and components `.` go. -/
def secretId (idPrefix fileName : Text) : Text :=
  let path := Path.push (Path.ofText idPrefix) (Path.ofText fileName)
  (Path.ofComponents ((Path.components path).filter fun part => part ≠ .current)).display

/-- Whether a directory entry is a secret.  A link must lead somewhere, and counts as what it
leads to. -/
def isSecret (workspace : Workspace) (directory : Path) (name : FileName) (node : Node) :
    Except InputError Bool :=
  match node with
  | .file _ => .ok true
  | .link _ =>
      let path := Path.push directory name.bytes
      match workspace.status path with
      | .ok (.file _) => .ok true
      | .ok _ => .ok false
      | .error failure => .error (.secretUnreadable path failure)
  | _ => .ok false

/-- The secrets among the entries of one directory, given the ids that are taken. -/
def ofEntries (workspace : Workspace) (spec : SecretSpec) (taken : List Text) :
    List (FileName × Node) -> Report Event InputError (List SecretMapping)
  | [] => pure []
  | (name, node) :: entries =>
      match isSecret workspace spec.src name node with
      | .error error => Report.fail error
      | .ok false => ofEntries workspace spec taken entries
      | .ok true =>
          let fileName := name.display
          let id := secretId spec.idPrefix fileName
          if id ∈ taken then Report.fail (.duplicateSecretId id)
          else do
            Report.note (.secretAdded id)
            let mappings ← ofEntries workspace spec (id :: taken) entries
            let source :=
              Path.push (Path.absolute (Location.path workspace.directory) spec.src)
                (Path.ofText fileName)
            pure (⟨source, id⟩ :: mappings)

/-- The secrets of the directories of some specifications, given the ids that are taken.  A
directory that is missing is passed over if that is allowed. -/
def ofSpecs (workspace : Workspace) (taken : List Text) :
    List SecretSpec -> Report Event InputError (List SecretMapping)
  | [] => pure []
  | spec :: specs =>
      match workspace.list spec.src with
      | .ok entries => do
          let mappings ← ofEntries workspace spec taken entries
          let more ← ofSpecs workspace (mappings.map SecretMapping.id ++ taken) specs
          pure (mappings ++ more)
      | .error failure =>
          if failure = .notFound && spec.optional then do
            Report.note (.secretDirectorySkipped spec.src)
            ofSpecs workspace taken specs
          else Report.fail (.secretDirectoryUnreadable spec.src failure)

def resolve (workspace : Workspace) (specs : List SecretSpec) :
    Report Event InputError (List SecretMapping) :=
  ofSpecs workspace [] specs

end SecretMapping
end BuildInputs

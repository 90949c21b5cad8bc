import BuildInputs.Auth.Credentials
import BuildInputs.Auth.File
import BuildInputs.Event
import BuildInputs.FileSystem.Workspace
import BuildInputs.Image.Reference
import BuildInputs.Report

namespace BuildInputs
namespace Auth

/-!
# Selecting the credentials for an image

The token of the most specific scope is handed on as the token of the whole registry, for tools
that know no narrower scopes.  An entry with an empty token counts as missing.
-/

structure RegistryAuth where
  registry : Text
  token : Text
  deriving DecidableEq, Repr

namespace RegistryAuth

def credentials (auth : RegistryAuth) : Except InputError Credentials :=
  credentialsOf auth.token

/-- The text of an auth file for this registry alone. -/
def fileText (auth : RegistryAuth) : Text :=
  (AuthFile.single auth.registry auth.token).write

end RegistryAuth

/-- The auth file to use if none is named: in the directory of the registry configuration if
that is set and not empty, and below the home directory otherwise. -/
def defaultFile (environment : Settings.Environment) : Except InputError Path :=
  match environment .dockerConfig with
  | some (first :: rest) =>
      .ok (Path.push (Path.ofText (first :: rest)) (Path.ofText "config.json".toList))
  | _ =>
      match environment .home with
      | some (first :: rest) =>
          .ok (Path.push (Path.push (Path.ofText (first :: rest)) (Path.ofText ".docker".toList))
            (Path.ofText "config.json".toList))
      | _ => .error .homeUnknown

def load (workspace : Workspace) (path : Path) : Except InputError AuthFile :=
  match workspace.readText path with
  | .error failure => .error (.authFileUnreadable path failure)
  | .ok text =>
      match AuthFile.parse text with
      | some file => .ok file
      | none => .error (.authFileMalformed path)

def choose (file : AuthFile) (repository : Text) : Except InputError RegistryAuth :=
  match file.find? repository with
  | some (first :: rest) => .ok ⟨AuthFile.registryOf repository, first :: rest⟩
  | _ => .error (.authNotConfigured repository)

def select (workspace : Workspace) (authFile : Path) (image : Text) :
    Report Event InputError RegistryAuth :=
  let repository := Image.name image
  if repository = [] then Report.fail (.badReference image)
  else do
    Report.note (.selectingAuth repository authFile)
    let file ← Report.ofExcept (load workspace authFile)
    Report.ofExcept (choose file repository)

end Auth
end BuildInputs

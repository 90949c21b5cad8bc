import BuildInputs.FileSystem.Failure
import BuildInputs.Path.Basic

namespace BuildInputs

/-!
# What can be wrong with the inputs of a build

One constructor for each cause, with what is needed to name it.  `message` is the plain wording.
`userMessage` is what the person at the command line reads: for three causes that a person can
mend it explains how, and for all others it is the plain wording.
-/

inductive InputError where
  | missingSource
  | linkUnresolved (path : Path) (failure : Failure)
  /-- The build file leads to `location`, outside the source directory. -/
  | outsideSource (buildFile location boundary : Path)
  | unknownAttribute (key : Text)
  | badOptionalValue (value : Text)
  | secretDirectoryUnreadable (path : Path) (failure : Failure)
  | secretUnreadable (path : Path) (failure : Failure)
  | duplicateSecretId (id : Text)
  | badReference (reference : Text)
  | badTag (tag : Text)
  | badLabelName (name : Text)
  | authFileUnreadable (path : Path) (failure : Failure)
  | authFileMalformed (path : Path)
  | authNotConfigured (repository : Text)
  | badCredential (reason : Text)
  | homeUnknown
  | fileAccess (failure : Failure)
  deriving DecidableEq, Repr

namespace InputError

/-- The plain wording of a cause.  That of a malformed auth file ends at its path: the JSON reader's
own explanation, which would follow, is left out. -/
def message : InputError -> Text
  | .missingSource => "Missing source directory".toList
  | .linkUnresolved path failure =>
      "Error on evaluating symlink for ".toList ++ path.display ++ ": ".toList ++ failure.message
  | .outsideSource buildFile location boundary =>
      "Dockerfile ".toList ++ buildFile.display ++ " is not present under source '".toList ++
        boundary.display ++ "' (resolved to ".toList ++ location.display ++ ")".toList
  | .unknownAttribute key => "invalid attribute: ".toList ++ key
  | .badOptionalValue value =>
      "invalid argument: optional=".toList ++ value ++ " (expected true|false)".toList
  | .secretDirectoryUnreadable path failure =>
      "failed to read secret directory ".toList ++ path.display ++ ": ".toList ++ failure.message
  | .secretUnreadable path failure =>
      "failed to stat ".toList ++ path.display ++ ": ".toList ++ failure.message
  | .duplicateSecretId id =>
      "duplicate secret ID '".toList ++ id ++
        "': ensure unique basename/filename combinations".toList
  | .badReference reference =>
      "Invalid image reference '".toList ++ reference ++ "'".toList
  | .badTag tag => "Invalid tag: ".toList ++ tag
  | .badLabelName name => "Invalid image label name '".toList ++ name ++ "'".toList
  | .authFileUnreadable path failure =>
      "Failed to read auth file ".toList ++ path.display ++ ": ".toList ++ failure.message
  | .authFileMalformed path => "Failed to parse auth file ".toList ++ path.display
  | .authNotConfigured repository =>
      "Registry authentication is not configured for ".toList ++ repository ++ ".".toList
  | .badCredential reason => "invalid credential format: ".toList ++ reason
  | .homeUnknown =>
      "ホームディレクトリが見つかりません。\n".toList ++
        "DOCKER_CONFIG 環境変数で認証ファイルのディレクトリを直接指定できます".toList
  | .fileAccess failure => "IO error: ".toList ++ failure.message

def userMessage : InputError -> Text
  | .outsideSource buildFile _ boundary =>
      "Containerfile がソースディレクトリの外を指しています: ".toList ++ buildFile.display ++
        "\n\n解決方法:\n".toList ++
        "1. シンボリックリンクがソース外を参照していないか確認してください\n".toList ++
        "2. パスに '..' を含めず、ソース (".toList ++ boundary.display ++
        ") 内のファイルを指定してください".toList
  | .duplicateSecretId id =>
      "シークレットIDが重複しています: ".toList ++ id ++
        "\n\n--secret-dirs の name= でディレクトリごとに別名を付けてください:\n".toList ++
        "src=path/to/dir,name=alias".toList
  | .authNotConfigured repository =>
      "レジストリ認証が設定されていません: ".toList ++ repository ++
        "\n\n認証ファイル (~/.docker/config.json または $DOCKER_CONFIG/config.json) の\n".toList ++
        "auths にレジストリまたはリポジトリのエントリを追加してください。".toList
  | error => error.message

end InputError
end BuildInputs

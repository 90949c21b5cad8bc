import BuildInputs.Auth.Selection
import BuildInputs.CommandLine.Command
import BuildInputs.GoProxy
import BuildInputs.Image.Label
import BuildInputs.Image.Reference
import BuildInputs.Package.Rpm
import BuildInputs.Secret.Mapping

namespace BuildInputs
namespace CommandLine

/-!
# Carrying out commands

What a command does is a value: what it prints as its result, what it says about its work, which
events it notes, and the files as it leaves them.  Results go to the standard output and
everything for people to the standard error.  What was printed before a failure stays printed;
files are changed by the last step of a command only, so that a failure changes none.
-/

inductive Emission where
  | output (text : Text)
  | notice (text : Text)
  | event (event : Event)
  deriving DecidableEq, Repr

inductive CommandError where
  | input (error : InputError)
  | prepare (error : Package.PrepareError)
  | configUnreadable (path : Path) (failure : Failure)
  | configUnwritable (path : Path) (failure : Failure)
  | badName (name : Text)
  | badTag (tag : Text)
  | badDigest (digest : Text)
  | badTagSuffix (suffix : Text)
  deriving DecidableEq, Repr

/-- What the person at the command line reads about a failure. -/
def CommandError.message : CommandError -> Text
  | .input error => error.userMessage
  | .prepare error => error.messageWithCause
  | .configUnreadable path failure =>
      "設定ファイルを読み込めません: ".toList ++ path.display ++ ": ".toList ++ failure.message
  | .configUnwritable path failure =>
      "設定ファイルを書き込めません: ".toList ++ path.display ++ ": ".toList ++ failure.message
  | .badName name => "イメージ名が不正です: ".toList ++ name
  | .badTag tag => "タグが不正です: ".toList ++ tag
  | .badDigest digest => "ダイジェストが不正です: ".toList ++ digest
  | .badTagSuffix suffix => "タグサフィックスが不正です: ".toList ++ suffix

abbrev Work := Report Emission CommandError

/-- A line of the result. -/
def say (line : Text) : Work Unit :=
  Report.note (.output (line ++ ['\n']))

/-- A line for people. -/
def tell (line : Text) : Work Unit :=
  Report.note (.notice (line ++ ['\n']))

def sayAll (lines : List Text) : Work Unit :=
  ⟨lines.map fun line => .output (line ++ ['\n']), .ok ()⟩

def noteEvent (event : Event) : Work Unit :=
  Report.note (.event event)

def ofReport {α : Type} (report : Report Event InputError α) : Work α :=
  report.reword .event .input

def ofCheck {α : Type} (check : Except InputError α) : Work α :=
  Report.ofExcept (check.mapError .input)

def require (holds : Bool) (error : CommandError) : Work Unit :=
  if holds then pure () else Report.fail error

def runContainerfile (workspace : Workspace) (search : BuildFileSearch) : Work Unit := do
  let found ← ofReport (search.locate workspace)
  match found with
  | some path => do
      tell "✓ Containerfile が見つかりました".toList
      say path.display
  | none => do
      noteEvent .noBuildFile
      tell ("Containerfile または Dockerfile が見つかりません (source: ".toList ++
        search.source.display ++ ", context: ".toList ++ search.context.display ++ ")".toList)

def runSecrets (workspace : Workspace) (specs : List Text) : Work Unit := do
  let specs ← ofCheck (SecretSpec.parseAll specs)
  let mappings ← ofReport (SecretMapping.resolve workspace specs)
  sayAll (mappings.map SecretMapping.buildArgument)

/-- Select credentials and print the registry and the user name, or an auth file. -/
def runAuth (workspace : Workspace) (environment : Settings.Environment) (image : Text)
    (authFile : Option Path) (asJson : Bool) : Work Unit := do
  let path ← match authFile with
    | some path => pure path
    | none => ofCheck (Auth.defaultFile environment)
  let auth ← ofReport (Auth.select workspace path image)
  let credentials ← ofCheck auth.credentials
  tell ("認証ファイル: ".toList ++ path.display)
  if asJson then say auth.fileText
  else do
    say ("registry: ".toList ++ auth.registry)
    say ("username: ".toList ++ credentials.username)

def runPrefetchInput (workspace : Workspace) (input : Text) (directory : Option Path) :
    Work Unit := do
  let prepared ← Report.reword .event .prepare
    (Package.prepare workspace Settings.caBundle (Package.parse input) directory)
  say prepared.write

/-- Take Go proxies out of a configuration, and print it or write it to a file.  The file is
read as a whole before anything is written, so both may be the same. -/
def runPrefetchConfig (workspace : Workspace) (config : Path) (output : Option Path) :
    Work Workspace := do
  let content ← Report.ofExcept
    ((workspace.readText config).mapError fun failure => .configUnreadable config failure)
  let filtered := GoProxy.drop content
  match output with
  | none => do
      Report.note (.output filtered)
      pure workspace
  | some path => do
      let written ← Report.ofExcept
        ((workspace.writeText path filtered).mapError fun failure => .configUnwritable path failure)
      noteEvent (.configWritten path)
      tell ("✓ Go プロキシ設定を除去しました: ".toList ++ path.display)
      pure written

/-- Check the tag and the digest that follow the name in a reference. -/
def checkRest (rest : Text) : Work Unit := do
  let (tagPart, digest) :=
    match Text.cutFirst '@' rest with
    | some (tagPart, digest) => (tagPart, some digest)
    | none => (rest, none)
  match tagPart with
  | ':' :: tag => require (Image.isTag tag) (.badTag tag)
  | _ => pure ()
  match digest with
  | some digest => require (Image.isDigest digest) (.badDigest digest)
  | none => pure ()

/-- The lines for the Containerfile artifact of an image. -/
def artifactLines (name digest suffix : Text) : List Text :=
  [name ++ ':' :: Image.artifactTag digest suffix, Settings.artifactType]

def runImageRef (request : ReferenceRequest) : Work Unit := do
  let name := Image.name request.reference
  require (Image.isName name) (.badName name)
  checkRest (request.reference.drop name.length)
  noteEvent (.referenceValid request.reference)
  tell "✓ イメージ参照は有効です".toList
  say name
  match request.digest with
  | none => pure ()
  | some digest => do
      require (Image.isDigest digest) (.badDigest digest)
      require (Image.isTagSuffix request.tagSuffix) (.badTagSuffix request.tagSuffix)
      sayAll (artifactLines name digest request.tagSuffix)
  ofCheck (Image.checkTags request.tags)
  let labelTags ← match request.label with
    | none => pure []
    | some (labelName, value) => ofCheck (Image.tagsFromLabel labelName value)
  sayAll ((request.tags ++ labelTags).map fun tag => name ++ ':' :: tag)

/-- Carry out a command.  The result is the files as they are afterwards. -/
def run (workspace : Workspace) (environment : Settings.Environment) (command : Command) :
    Work Workspace :=
  match command with
  | .containerfile search => do runContainerfile workspace search; pure workspace
  | .secrets specs => do runSecrets workspace specs; pure workspace
  | .auth image authFile asJson => do
      runAuth workspace environment image authFile asJson
      pure workspace
  | .prefetchInput input directory => do runPrefetchInput workspace input directory; pure workspace
  | .prefetchConfig config output => runPrefetchConfig workspace config output
  | .imageRef request => do runImageRef request; pure workspace
  | .version => do
      say ("buildprep ".toList ++ Settings.version)
      pure workspace

end CommandLine
end BuildInputs

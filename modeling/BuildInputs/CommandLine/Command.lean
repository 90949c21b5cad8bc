import BuildInputs.BuildFile
import BuildInputs.CommandLine.Arguments

namespace BuildInputs
namespace CommandLine

/-!
# Commands

The first argument names a command and the others are sorted by its rules.  An option that is
given wins over the environment, and the environment over the default.
-/

/-- What the `image-ref` command checks and tags. -/
structure ReferenceRequest where
  reference : Text
  /-- The digest of the built image, if the tag of its Containerfile artifact is wanted. -/
  digest : Option Text := none
  tagSuffix : Text := Settings.artifactTagSuffix
  tags : List Text := []
  /-- The name and the value of a label that lists tags. -/
  label : Option (Text × Text) := none
  deriving DecidableEq, Repr

inductive Command where
  | containerfile (search : BuildFileSearch)
  | secrets (specs : List Text)
  | auth (image : Text) (authFile : Option Path) (asJson : Bool)
  | prefetchInput (input : Text) (entitlementDirectory : Option Path)
  | prefetchConfig (config : Path) (output : Option Path)
  | imageRef (request : ReferenceRequest)
  | version
  deriving DecidableEq, Repr

namespace Rule

def source : OptionRule :=
  { long := "source".toList, short := some 's', isPath := true, variableName := some .source }

def context : OptionRule :=
  { long := "context".toList, short := some 'c', isPath := true, variableName := some .context }

def containerfile : OptionRule :=
  { long := "containerfile".toList, short := some 'f', isPath := true,
    variableName := some .containerfile }

def secretDirs : OptionRule :=
  { long := "secret-dirs".toList, arity := .many '\n', variableName := some .secretDirs }

def authfile : OptionRule :=
  { long := "authfile".toList, isPath := true, variableName := some .authfile }

def registryAuthJson : OptionRule :=
  { long := "registry-auth-json".toList, arity := .flag }

def entitlementDir : OptionRule :=
  { long := "rhsm-entitlement-dir".toList, arity := .optional Settings.entitlementDirectory,
    isPath := true, variableName := some .entitlementDir }

def output : OptionRule :=
  { long := "output".toList, short := some 'o', isPath := true }

def digest : OptionRule :=
  { long := "digest".toList, variableName := some .imageDigest }

def tagSuffix : OptionRule :=
  { long := "tag-suffix".toList, variableName := some .tagSuffix }

def tags : OptionRule :=
  { long := "tags".toList, arity := .many ' ', variableName := some .tags }

def tagsFromImageLabel : OptionRule :=
  { long := "tags-from-image-label".toList, variableName := some .tagsFromImageLabel }

def tagsLabelValue : OptionRule :=
  { long := "tags-label-value".toList, variableName := some .tagsLabelValue }

end Rule

def sorted (rules : List OptionRule) (positionals : List PositionalRule)
    (arguments : List Text) : Except Stop Given :=
  sortArguments rules positionals Given.none none arguments

def readContainerfile (environment : Settings.Environment) (arguments : List Text) :
    Except Stop Command := do
  let given ← sorted [Rule.source, Rule.context, Rule.containerfile] [] arguments
  let source ← requiredValue environment given Rule.source
  let context ← optionValue environment given Rule.context
  let buildFile ← optionValue environment given Rule.containerfile
  pure (.containerfile ⟨Path.ofText source,
    (context.map Path.ofText).getD Settings.defaultContext, buildFile.map Path.ofText⟩)

def readSecrets (environment : Settings.Environment) (arguments : List Text) :
    Except Stop Command := do
  let given ← sorted [Rule.secretDirs] [] arguments
  let specs ← optionValues environment given Rule.secretDirs
  pure (.secrets (specs.getD []))

def readAuth (environment : Settings.Environment) (arguments : List Text) :
    Except Stop Command := do
  let positionals : List PositionalRule := [{}]
  let given ← sorted [Rule.authfile, Rule.registryAuthJson] positionals arguments
  let image ← positionalValue environment given positionals 0
  let authFile ← optionValue environment given Rule.authfile
  pure (.auth image (authFile.map Path.ofText) (given.values? Rule.registryAuthJson.long).isSome)

def readPrefetchInput (environment : Settings.Environment) (arguments : List Text) :
    Except Stop Command := do
  let positionals : List PositionalRule := [{ variableName := some .prefetchInput }]
  let given ← sorted [Rule.entitlementDir] positionals arguments
  let input ← positionalValue environment given positionals 0
  let directory ← optionValue environment given Rule.entitlementDir
  pure (.prefetchInput input (directory.map Path.ofText))

def readPrefetchConfig (environment : Settings.Environment) (arguments : List Text) :
    Except Stop Command := do
  let positionals : List PositionalRule := [{ isPath := true }]
  let given ← sorted [Rule.output] positionals arguments
  let config ← positionalValue environment given positionals 0
  let output ← optionValue environment given Rule.output
  pure (.prefetchConfig (Path.ofText config) (output.map Path.ofText))

/-- The name and the value of a label need each other. -/
def pairLabel (name value : Option Text) : Except Stop (Option (Text × Text)) :=
  match name, value with
  | some name, some value => .ok (some (name, value))
  | none, none => .ok none
  | _, _ => .error .wrong

def readImageRef (environment : Settings.Environment) (arguments : List Text) :
    Except Stop Command := do
  let positionals : List PositionalRule := [{}]
  let given ← sorted
    [Rule.digest, Rule.tagSuffix, Rule.tags, Rule.tagsFromImageLabel, Rule.tagsLabelValue]
    positionals arguments
  let reference ← positionalValue environment given positionals 0
  let digest ← optionValue environment given Rule.digest
  let tagSuffix ← optionValue environment given Rule.tagSuffix
  let tags ← optionValues environment given Rule.tags
  let labelName ← optionValue environment given Rule.tagsFromImageLabel
  let labelValue ← optionValue environment given Rule.tagsLabelValue
  let label ← pairLabel labelName labelValue
  pure (.imageRef
    ⟨reference, digest, tagSuffix.getD Settings.artifactTagSuffix, tags.getD [], label⟩)

def readVersion (arguments : List Text) : Except Stop Command :=
  (sorted [] [] arguments).map fun _ => .version

/-- The commands, each with the way to read its arguments. -/
def readers : List (Text × (Settings.Environment -> List Text -> Except Stop Command)) :=
  [("containerfile".toList, readContainerfile),
    ("secrets".toList, readSecrets),
    ("auth".toList, readAuth),
    ("prefetch-input".toList, readPrefetchInput),
    ("prefetch-config".toList, readPrefetchConfig),
    ("image-ref".toList, readImageRef),
    ("version".toList, fun _ => readVersion)]

/-- What to do about a word that stands in the place of a command and is none.  After `help` there
may be one word that names a command. -/
def readHelp (word : Text) (arguments : List Text) : Stop :=
  if word = "help".toList then
    match arguments with
    | [] => .helpWanted
    | [name] =>
        if name = "help".toList || (readers.lookup name).isSome then .helpWanted else .wrong
    | _ => .wrong
  else if word = "--help".toList || "-h".toList.isPrefixOf word then .helpWanted
  else .wrong

def Command.read (environment : Settings.Environment) : List Text -> Except Stop Command
  | [] => .error .wrong
  | word :: arguments =>
      match readers.lookup word with
      | some readArguments => readArguments environment arguments
      | none => .error (readHelp word arguments)

end CommandLine
end BuildInputs

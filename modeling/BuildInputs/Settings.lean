import BuildInputs.Path.Basic

namespace BuildInputs
namespace Settings

/-!
# Settings

The fixed names and default values, and the environment variables that stand in for options.
-/

/-- The build context when none is given: the source directory itself. -/
def defaultContext : Path := Path.ofText ".".toList

/-- The build files looked for when none is given, in this order. -/
def defaultBuildFiles : List Path :=
  ["./Containerfile".toList, "./Dockerfile".toList].map Path.ofText

/-- Where registration puts the entitlement certificates. -/
def entitlementDirectory : Text := "/etc/pki/entitlement".toList

/-- The certificate authority that RPM repositories are checked against. -/
def caBundle : Path := Path.ofText "/etc/rhsm/ca/redhat-uep.pem".toList

def artifactTagSuffix : Text := ".containerfile".toList

def artifactType : Text := "application/vnd.konflux.containerfile".toList

/-- The registry whose credentials may be stored under `dockerIndex` instead. -/
def dockerRegistry : Text := "docker.io".toList

/-- The scope under which some tools store the credentials for `dockerRegistry`. -/
def dockerIndex : Text := "https://index.docker.io/v1/".toList

/-- The package type that needs entitlement certificates. -/
def rpmType : Text := "rpm".toList

def version : Text := "0.3.0".toList

inductive Variable where
  | source
  | context
  | containerfile
  | secretDirs
  | authfile
  | prefetchInput
  | entitlementDir
  | imageDigest
  | tagSuffix
  | tags
  | tagsFromImageLabel
  | tagsLabelValue
  | dockerConfig
  | home
  deriving DecidableEq, Repr

/-- The variables that stand in for options, in the order of the options, and the directory of
the registry configuration. -/
def Variable.listed : List Variable :=
  [.source, .context, .containerfile, .secretDirs, .authfile, .prefetchInput, .entitlementDir,
    .imageDigest, .tagSuffix, .tags, .tagsFromImageLabel, .tagsLabelValue, .dockerConfig]

def Variable.name : Variable -> Text
  | .source => "BUILDPREP_SOURCE".toList
  | .context => "BUILDPREP_CONTEXT".toList
  | .containerfile => "BUILDPREP_CONTAINERFILE".toList
  | .secretDirs => "BUILDPREP_SECRET_DIRS".toList
  | .authfile => "BUILDPREP_AUTHFILE".toList
  | .prefetchInput => "BUILDPREP_PREFETCH_INPUT".toList
  | .entitlementDir => "BUILDPREP_RHSM_ENTITLEMENT_DIR".toList
  | .imageDigest => "BUILDPREP_IMAGE_DIGEST".toList
  | .tagSuffix => "BUILDPREP_TAG_SUFFIX".toList
  | .tags => "BUILDPREP_TAGS".toList
  | .tagsFromImageLabel => "BUILDPREP_TAGS_FROM_IMAGE_LABEL".toList
  | .tagsLabelValue => "BUILDPREP_TAGS_LABEL_VALUE".toList
  | .dockerConfig => "DOCKER_CONFIG".toList
  | .home => "HOME".toList

/-- The values of the variables that are set. -/
abbrev Environment := Variable -> Option Text

end Settings
end BuildInputs

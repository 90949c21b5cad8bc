import BuildInputs.Event
import BuildInputs.Package.Certificates
import BuildInputs.Package.Tree
import BuildInputs.Report
import BuildInputs.Settings

namespace BuildInputs
namespace Package

/-!
# Preparing RPM packages

An input that asks for RPM packages is completed before it is handed on: every one of them gets
a summary, and if an entitlement directory is given, the connection settings for it.  The
certificates must then be there.  An input without RPM packages is left as it is, and no
certificates are looked for.
-/

inductive PrepareError where
  | badPattern (error : Glob.PatternError)
  | certificatesMissing (directory : Path)
  deriving DecidableEq, Repr

def PrepareError.message : PrepareError -> Text
  | .badPattern error => "invalid glob pattern: ".toList ++ error.message
  | .certificatesMissing directory =>
      "no entitlement certificate files found in ".toList ++ directory.display

/-- The wording of a refusal followed by that of its cause, where it has one. -/
def PrepareError.messageWithCause : PrepareError -> Text
  | .badPattern error =>
      (PrepareError.badPattern error).message ++ ": ".toList ++ error.message
  | error => error.message

def requireCertificates (workspace : Workspace) (directory : Path) :
    Except PrepareError Certificates :=
  match Certificates.find workspace directory with
  | .error error => .error (.badPattern error)
  | .ok none => .error (.certificatesMissing directory)
  | .ok (some certificates) => .ok certificates

def prepare (workspace : Workspace) (caBundle : Path) (input : Json) (directory : Option Path) :
    Report Event PrepareError Json :=
  if containsType Settings.rpmType input then
    let summarised := injectSummary Settings.rpmType input
    match directory with
    | none => pure summarised
    | some directory => do
        let certificates ← Report.ofExcept (requireCertificates workspace directory)
        Report.note (.usingCertificates certificates.clientKey certificates.clientCertificate)
        pure (injectSsl Settings.rpmType (certificates.sslOptions caBundle) summarised)
  else do
    Report.note .noRpmPackages
    pure input

end Package
end BuildInputs

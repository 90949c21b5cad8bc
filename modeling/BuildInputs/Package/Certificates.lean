import BuildInputs.Glob.Search
import BuildInputs.Json.Value

namespace BuildInputs
namespace Package

/-!
# Entitlement certificates

A registered system has a client key and a client certificate in one directory, in files that
end in `.pem`.  A file that ends in `-key.pem` is a key and any other a certificate.  Of several
the last in order counts, and one of each kind is needed.  The directory is part of a pattern
and not escaped, so wildcards in it are wildcards.  A pattern is a text, so the directory goes
into it as it is shown.
-/

structure Certificates where
  clientKey : Path
  clientCertificate : Path
  deriving DecidableEq, Repr

namespace Certificates

def patternIn (directory : Path) : Text :=
  (Path.push directory (Path.ofText "*.pem".toList)).display

def isKey (path : Path) : Bool :=
  match Path.fileName path with
  | some name => "-key.pem".toList.isSuffixOf name.display
  | none => false

/-- The last key and the last certificate among some files. -/
def ofPaths (paths : List Path) : Option Certificates :=
  match (paths.filter isKey).getLast?, (paths.filter fun path => !isKey path).getLast? with
  | some key, some certificate => some ⟨key, certificate⟩
  | _, _ => none

/-- The key and the certificate in a directory, if it has both. -/
def find (workspace : Workspace) (directory : Path) :
    Except Glob.PatternError (Option Certificates) :=
  (Glob.paths workspace (patternIn directory)).map ofPaths

def sslOptions (certificates : Certificates) (caBundle : Path) : Json.Fields :=
  [("client_key".toList, .string certificates.clientKey.display),
    ("client_cert".toList, .string certificates.clientCertificate.display),
    ("ca_bundle".toList, .string caBundle.display)]

end Certificates
end Package
end BuildInputs

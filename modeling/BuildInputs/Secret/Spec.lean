import BuildInputs.InputError
import BuildInputs.Text.WhiteSpace

namespace BuildInputs

/-!
# Specifications of secret directories

A specification is a list of attributes between commas.  `src` is the directory, `name` an alias
for it and `optional` says whether it may be missing.  A piece without `=` is the directory.  Of
several values for one attribute the last counts, and white space around keys and values does
not.
-/

/-- A directory whose files are secrets. -/
structure SecretSpec where
  src : Path
  /-- What the ids of the secrets begin with, in place of the directory's name. -/
  name : Option Text
  optional : Bool
  deriving DecidableEq, Repr

namespace SecretSpec

def blank : SecretSpec :=
  ⟨[], none, false⟩

/-- The key and the value of one piece, without the white space around them. -/
def keyAndValue (piece : Text) : Text × Text :=
  match Text.cutFirst '=' piece with
  | some (key, value) => (Text.trim key, Text.trim value)
  | none => ("src".toList, Text.trim piece)

def set (spec : SecretSpec) (key value : Text) : Except InputError SecretSpec :=
  if key = "src".toList then .ok { spec with src := Path.ofText value }
  else if key = "name".toList then .ok { spec with name := some value }
  else if key = "optional".toList then
    if value = "true".toList then .ok { spec with optional := true }
    else if value = "false".toList then .ok { spec with optional := false }
    else .error (.badOptionalValue value)
  else .error (.unknownAttribute key)

def setAll (spec : SecretSpec) : List Text -> Except InputError SecretSpec
  | [] => .ok spec
  | piece :: pieces =>
      let (key, value) := keyAndValue piece
      (set spec key value).bind fun spec => setAll spec pieces

def parse (text : Text) : Except InputError SecretSpec :=
  setAll blank (Text.fields ',' text)

/-- Read specifications in order.  The first that is wrong decides the refusal. -/
def parseAll : List Text -> Except InputError (List SecretSpec)
  | [] => .ok []
  | text :: texts =>
      (parse text).bind fun spec => (parseAll texts).map (spec :: ·)

/-- What the ids of the secrets begin with: the alias, unless it is missing or empty, then the
directory's own name, then the path itself if it ends in none.  An id is a text, so a directory
goes into it as it is shown. -/
def idPrefix (spec : SecretSpec) : Text :=
  match spec.name with
  | some (first :: rest) => first :: rest
  | _ => ((Path.fileName spec.src).getD spec.src).display

end SecretSpec
end BuildInputs

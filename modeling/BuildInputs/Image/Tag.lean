import BuildInputs.InputError
import BuildInputs.Text.Utf8

namespace BuildInputs
namespace Image

/-!
# Tags and digests

A tag has 1 to 128 ASCII letters, digits and `_`, `.`, `-`, and begins with neither `.` nor `-`.
A digest is `sha256:` and 64 lower-case hexadecimal digits.  The tag of a Containerfile artifact
is made from a digest by writing `-` for its colon and adding a suffix.
-/

def isLower (letter : Char) : Bool :=
  'a' ≤ letter && letter ≤ 'z'

def isUpper (letter : Char) : Bool :=
  'A' ≤ letter && letter ≤ 'Z'

/-- An ASCII letter, a digit or an underscore. -/
def isWordLetter (letter : Char) : Bool :=
  isLower letter || isUpper letter || Text.isDigit letter || letter = '_'

def isTagLetter (letter : Char) : Bool :=
  isWordLetter letter || letter = '.' || letter = '-'

def isTag : Text -> Bool
  | [] => false
  | first :: rest => isWordLetter first && rest.all isTagLetter && rest.length ≤ 127

def isTagSuffix (suffix : Text) : Bool :=
  suffix.all isTagLetter && 1 ≤ suffix.length && suffix.length ≤ 57

def digestMark : Text := "sha256:".toList

def isLowerHex (letter : Char) : Bool :=
  Text.isDigit letter || ('a' ≤ letter && letter ≤ 'f')

def isHex (letter : Char) : Bool :=
  isLowerHex letter || ('A' ≤ letter && letter ≤ 'F')

/-- Whether a text is `sha256:` and 64 digits of a given kind. -/
def isDigestOf (digit : Char -> Bool) (text : Text) : Bool :=
  digestMark.isPrefixOf text && (text.drop digestMark.length).length = 64 &&
    (text.drop digestMark.length).all digit

def isDigest (text : Text) : Bool :=
  isDigestOf isLowerHex text

/-- The tag of the Containerfile artifact of the image with this digest.  Nothing is checked. -/
def artifactTag (digest suffix : Text) : Text :=
  match Text.cutFirst ':' digest with
  | some (algorithm, value) => algorithm ++ '-' :: value ++ suffix
  | none => digest ++ suffix

/-- Refuse the first text that is not a tag. -/
def checkTags (tags : List Text) : Except InputError Unit :=
  match tags.find? fun tag => !isTag tag with
  | some tag => .error (.badTag tag)
  | none => .ok ()

end Image
end BuildInputs

import BuildInputs.Image.Tag

namespace BuildInputs
namespace Image

/-!
# Image references

A reference is a repository name, optionally followed by `:` and a tag and by `@` and a digest.
The name is what is left when a digest, in digits of either case, and then a tag are taken off
the end.  Something that only looks similar, a tag that is too long or a digest of the wrong
length, is not taken off and stays in the name, where it makes the name invalid.
-/

def dropDigest (reference : Text) : Text :=
  match Text.cutLast '@' reference with
  | some (front, digest) => if isDigestOf isHex digest then front else reference
  | none => reference

def dropTag (reference : Text) : Text :=
  match Text.cutLast ':' reference with
  | some (front, tag) => if isTag tag then front else reference
  | none => reference

def name (reference : Text) : Text :=
  dropTag (dropDigest reference)

/-- The longest name, in bytes. -/
def longestName : Nat := 128

def forbiddenRuns : List Text :=
  ["___".toList, "//".toList, "..".toList, "--".toList, "_.".toList, "._".toList, "-.".toList,
    ".-".toList, "-_".toList, "_-".toList]

/-- A lower-case letter or a digit. -/
def isNameLetter (letter : Char) : Bool :=
  isLower letter || Text.isDigit letter

def isPartLetter (letter : Char) : Bool :=
  isNameLetter letter || letter = '_' || letter = '.' || letter = '-'

/-- Whether a text can be one part of a name: it has only such characters, and its first and
last are letters or digits. -/
def isPart (part : Text) : Bool :=
  part.all isPartLetter && part.head?.any isNameLetter && part.getLast?.any isNameLetter

/-- Whether a text is a port number: ASCII digits, possibly with leading zeros, and not above
65535. -/
def isPort (port : Text) : Bool :=
  port ≠ [] && port.all Text.isDigit && Text.digitsValue port ≤ 65535

/-- Whether a text can be the first of several parts, which may name a port. -/
def isRegistry (part : Text) : Bool :=
  match Text.cutFirst ':' part with
  | some (host, port) => isPart host && isPort port
  | none => isPart part

def isName (name : Text) : Bool :=
  name ≠ [] && Utf8.size name ≤ longestName &&
    !(forbiddenRuns.any fun run => Text.hasWord run name) &&
    match Text.fields '/' name with
    | [] => false
    | [part] => isPart part
    | registry :: parts => isRegistry registry && parts.all isPart

end Image
end BuildInputs

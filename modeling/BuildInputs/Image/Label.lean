import BuildInputs.Image.Tag
import BuildInputs.Text.WhiteSpace

namespace BuildInputs
namespace Image

/-!
# Tags from image labels

An image may list further tags in the value of a label, separated by white space and commas.
White space at the two ends of the value does not count; a comma there does, and leaves an empty
tag, which is refused.
-/

/-- The longest label name, in bytes. -/
def longestLabelName : Nat := 256

def isLabelSeparator (letter : Char) : Bool :=
  letter = '/' || letter = '.' || letter = '_' || letter = '-'

def isLabelLetter (letter : Char) : Bool :=
  isLower letter || Text.isDigit letter || isLabelSeparator letter

def hasDoubleSeparator : Text -> Bool
  | first :: second :: rest =>
      (isLabelSeparator first && isLabelSeparator second) || hasDoubleSeparator (second :: rest)
  | _ => false

/-- Whether a text is the name of a label.  It has two characters at least, since the first and
the last are both letters. -/
def isLabelName (name : Text) : Bool :=
  2 ≤ name.length && Utf8.size name ≤ longestLabelName && !hasDoubleSeparator name &&
    name.all isLabelLetter && name.head?.any isLower && name.getLast?.any isLower

def isTagSeparator (letter : Char) : Bool :=
  Text.isWhiteSpace letter || letter = ','

/-- The pieces between runs of separators.  `inRun` says that a run has begun before the text. -/
def tagPieces (inRun : Bool) : Text -> List Text
  | [] => [[]]
  | letter :: rest =>
      if isTagSeparator letter then
        if inRun then tagPieces true rest else [] :: tagPieces true rest
      else Text.addToFirst letter (tagPieces false rest)

/-- The tags that a label value lists, valid or not. -/
def parseTags (value : Text) : List Text :=
  match Text.trim value with
  | [] => []
  | trimmed => tagPieces false trimmed

/-- The tags that a label lists.  The name is checked before the value is read. -/
def tagsFromLabel (name value : Text) : Except InputError (List Text) :=
  if isLabelName name then
    (checkTags (parseTags value)).map fun _ => parseTags value
  else .error (.badLabelName name)

end Image
end BuildInputs

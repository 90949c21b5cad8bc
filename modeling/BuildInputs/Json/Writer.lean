import BuildInputs.Json.Shortest
import BuildInputs.Json.Value

namespace BuildInputs
namespace Json

/-!
# Writing JSON

The written form of a value has no blanks.  In strings the quote, the backslash and the
characters below U+0020 are escaped, the common ones by a letter and the others by four
lower-case hexadecimal digits; everything else is written as it is.  Fields come in their order.
-/

def hexDigit (value : Nat) : Char :=
  if value < 10 then Char.ofNat ('0'.toNat + value) else Char.ofNat ('a'.toNat + (value - 10))

def writeLetter (letter : Char) : Text :=
  match letter with
  | '"' => ['\\', '"']
  | '\\' => ['\\', '\\']
  | '\x08' => ['\\', 'b']
  | '\x0c' => ['\\', 'f']
  | '\n' => ['\\', 'n']
  | '\r' => ['\\', 'r']
  | '\t' => ['\\', 't']
  | letter =>
      if letter.toNat < 0x20 then
        ['\\', 'u', '0', '0', hexDigit (letter.toNat / 16), hexDigit (letter.toNat % 16)]
      else [letter]

def writeString (text : Text) : Text :=
  '"' :: text.flatMap writeLetter ++ ['"']

def writeInteger (value : Int) : Text :=
  if value < 0 then '-' :: Text.ofNat value.natAbs else Text.ofNat value.natAbs

def writeNumber : Number -> Text
  | .integer value => writeInteger value
  | .double value => value.text

mutual

def write : Json -> Text
  | .null => "null".toList
  | .bool true => "true".toList
  | .bool false => "false".toList
  | .number value => writeNumber value
  | .string text => writeString text
  | .array items => '[' :: writeItems items ++ [']']
  | .object fields => '{' :: writeFields fields ++ ['}']

def writeItems : List Json -> Text
  | [] => []
  | [item] => write item
  | item :: next :: items => write item ++ ',' :: writeItems (next :: items)

def writeFields : Fields -> Text
  | [] => []
  | [(key, value)] => writeString key ++ ':' :: write value
  | (key, value) :: next :: fields =>
      writeString key ++ ':' :: write value ++ ',' :: writeFields (next :: fields)

end

/-- Put a field where its key belongs in the order of code points. -/
def insertSorted (field : Text × Json) : Fields -> Fields
  | [] => [field]
  | head :: fields =>
      if field.1 < head.1 then field :: head :: fields else head :: insertSorted field fields

mutual

/-- The value with the fields of every object in the order of their keys. -/
def sorted : Json -> Json
  | .array items => .array (sortedItems items)
  | .object fields => .object (sortedFields fields)
  | value => value

def sortedItems : List Json -> List Json
  | [] => []
  | item :: items => sorted item :: sortedItems items

def sortedFields : Fields -> Fields
  | [] => []
  | (key, value) :: fields => insertSorted (key, sorted value) (sortedFields fields)

end

end Json
end BuildInputs

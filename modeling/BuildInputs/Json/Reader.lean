import BuildInputs.Json.Spelling

namespace BuildInputs
namespace Json

/-!
# Reading JSON

The grammar is strict: no comments, no trailing commas, no leading zeros, no raw control
characters in strings, white space is space, tab, line feed and carriage return only, and
nothing may follow the document.  Each reader takes what it recognises from the front of a text
and returns the rest.

Values nest without limit.  Every reader of a value gets a number of steps that bounds the
nesting and the number of items together.  Twice the length of the text is always enough, since
no two steps in a row leave the text as it is.
-/

/-- The four characters that may stand between tokens. -/
def isBlank (letter : Char) : Bool :=
  letter = ' ' || letter = '\t' || letter = '\n' || letter = '\r'

def skipBlanks (text : Text) : Text :=
  text.dropWhile isBlank

def afterWord (word : Text) (text : Text) : Option Text :=
  if word.isPrefixOf text then some (text.drop word.length) else none

def hexValue? (letter : Char) : Option Nat :=
  if Text.isDigit letter then some (letter.toNat - '0'.toNat)
  else if 'a' ≤ letter && letter ≤ 'f' then some (letter.toNat - 'a'.toNat + 10)
  else if 'A' ≤ letter && letter ≤ 'F' then some (letter.toNat - 'A'.toNat + 10)
  else none

def hexQuad? (first second third fourth : Char) : Option Nat :=
  match hexValue? first, hexValue? second, hexValue? third, hexValue? fourth with
  | some a, some b, some c, some d => some (((a * 16 + b) * 16 + c) * 16 + d)
  | _, _, _, _ => none

def shortEscape? (letter : Char) : Option Char :=
  match letter with
  | '"' => some '"'
  | '\\' => some '\\'
  | '/' => some '/'
  | 'b' => some '\x08'
  | 'f' => some '\x0c'
  | 'n' => some '\n'
  | 'r' => some '\r'
  | 't' => some '\t'
  | _ => none

/-- The letters of a string up to the closing quote.  The opening quote is behind us. -/
def readLetters : Text -> Option (List Letter × Text)
  | [] => none
  | '"' :: rest => some ([], rest)
  | '\\' :: 'u' :: first :: second :: third :: fourth :: rest =>
      match hexQuad? first second third fourth with
      | some code => (readLetters rest).map fun read => (.unit code :: read.1, read.2)
      | none => none
  | '\\' :: letter :: rest =>
      match shortEscape? letter with
      | some meant => (readLetters rest).map fun read => (.plain meant :: read.1, read.2)
      | none => none
  | letter :: rest =>
      if letter.toNat < 0x20 || letter = '\\' then none
      else (readLetters rest).map fun read => (.plain letter :: read.1, read.2)

/-- Digits, one at least. -/
def readDigits (text : Text) : Option (Text × Text) :=
  match text.takeWhile Text.isDigit with
  | [] => none
  | digits => some (digits, text.dropWhile Text.isDigit)

/-- The digits before the point: a lone zero, or digits that do not begin with one. -/
def readWhole : Text -> Option (Text × Text)
  | '0' :: rest => some (['0'], rest)
  | text => readDigits text

/-- The point and the digits after it, if there is a point. -/
def readFraction : Text -> Option (Option Text × Text)
  | '.' :: rest => (readDigits rest).map fun read => (some read.1, read.2)
  | text => some (none, text)

def readExponent (text : Text) : Option (Option (Bool × Text) × Text) :=
  match text with
  | letter :: rest =>
      if letter = 'e' || letter = 'E' then
        match rest with
        | '-' :: rest => (readDigits rest).map fun read => (some (true, read.1), read.2)
        | '+' :: rest => (readDigits rest).map fun read => (some (false, read.1), read.2)
        | rest => (readDigits rest).map fun read => (some (false, read.1), read.2)
      else some (none, text)
  | [] => some (none, text)

def readUnsigned (negative : Bool) (text : Text) : Option (NumberSpelling × Text) :=
  (readWhole text).bind fun whole =>
    (readFraction whole.2).bind fun fraction =>
      (readExponent fraction.2).map fun exponent =>
        (⟨negative, whole.1, fraction.1, exponent.1⟩, exponent.2)

def readNumber : Text -> Option (NumberSpelling × Text)
  | '-' :: rest => readUnsigned true rest
  | text => readUnsigned false text

mutual

/-- A value with the blanks in front of it. -/
def readValue : Nat -> Text -> Option (Spelled × Text)
  | 0, _ => none
  | steps + 1, text =>
      match skipBlanks text with
      | [] => none
      | '"' :: rest => (readLetters rest).map fun read => (.string read.1, read.2)
      | '[' :: rest =>
          match skipBlanks rest with
          | ']' :: rest => some (.array [], rest)
          | _ => (readItems steps rest).map fun read => (.array read.1, read.2)
      | '{' :: rest =>
          match skipBlanks rest with
          | '}' :: rest => some (.object [], rest)
          | _ => (readFields steps rest).map fun read => (.object read.1, read.2)
      | 'n' :: rest => (afterWord "ull".toList rest).map fun rest => (.null, rest)
      | 't' :: rest => (afterWord "rue".toList rest).map fun rest => (.bool true, rest)
      | 'f' :: rest => (afterWord "alse".toList rest).map fun rest => (.bool false, rest)
      | text => (readNumber text).map fun read => (.number read.1, read.2)

/-- The items of an array up to the closing bracket, one at least. -/
def readItems : Nat -> Text -> Option (List Spelled × Text)
  | 0, _ => none
  | steps + 1, text =>
      match readValue steps text with
      | none => none
      | some (item, rest) =>
          match skipBlanks rest with
          | ']' :: rest => some ([item], rest)
          | ',' :: rest => (readItems steps rest).map fun read => (item :: read.1, read.2)
          | _ => none

/-- The fields of an object up to the closing brace, one at least. -/
def readFields : Nat -> Text -> Option (List (List Letter × Spelled) × Text)
  | 0, _ => none
  | steps + 1, text =>
      match skipBlanks text with
      | '"' :: rest =>
          match readLetters rest with
          | none => none
          | some (key, rest) =>
              match skipBlanks rest with
              | ':' :: rest =>
                  match readValue steps rest with
                  | none => none
                  | some (value, rest) =>
                      match skipBlanks rest with
                      | '}' :: rest => some ([(key, value)], rest)
                      | ',' :: rest =>
                          (readFields steps rest).map fun read =>
                            ((key, value) :: read.1, read.2)
                      | _ => none
              | _ => none
      | _ => none

end

def read (text : Text) : Option Spelled :=
  match readValue (2 * text.length + 1) text with
  | some (value, rest) => if skipBlanks rest = [] then some value else none
  | none => none

end Json
end BuildInputs

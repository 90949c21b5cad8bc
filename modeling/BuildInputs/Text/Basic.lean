namespace BuildInputs

/-!
# Texts as lists of characters

Every rule about texts in this library is a recursion on characters, so a text is the list of
its characters and nothing more.  The operations below cut a text at a separator and put the
pieces together again.  Cutting never loses a character: the pieces joined by the separator are
the text that was cut, and there is always at least one piece, possibly empty.  They do not ask
what a letter is, so that paths, which are bytes, are cut in the same way.
-/

abbrev Text := List Char

namespace Text

section Cuts

variable {Letter : Type}

def addToFirst (letter : Letter) : List (List Letter) -> List (List Letter)
  | [] => [[letter]]
  | piece :: pieces => (letter :: piece) :: pieces

/-- The pieces with one separator between any two. -/
def joinWith (separator : Letter) : List (List Letter) -> List Letter
  | [] => []
  | [piece] => piece
  | piece :: pieces => piece ++ separator :: joinWith separator pieces

variable [DecidableEq Letter]

/-- The pieces between the occurrences of a separator.  Two separators in a row, or one at an
end, give an empty piece. -/
def fields (separator : Letter) : List Letter -> List (List Letter)
  | [] => [[]]
  | letter :: rest =>
      if letter = separator then [] :: fields separator rest
      else addToFirst letter (fields separator rest)

/-- What stands before and after the first occurrence of a separator. -/
def cutFirst (separator : Letter) : List Letter -> Option (List Letter × List Letter)
  | [] => none
  | letter :: rest =>
      if letter = separator then some ([], rest)
      else (cutFirst separator rest).map fun parts => (letter :: parts.1, parts.2)

def cutLast (separator : Letter) : List Letter -> Option (List Letter × List Letter)
  | [] => none
  | letter :: rest =>
      match cutLast separator rest with
      | some parts => some (letter :: parts.1, parts.2)
      | none => if letter = separator then some ([], rest) else none

end Cuts

def hasWord (word : Text) : Text -> Bool
  | [] => word.isEmpty
  | letter :: rest => word.isPrefixOf (letter :: rest) || hasWord word rest

/-- A number in decimal digits, without leading zeros. -/
def ofNat (number : Nat) : Text :=
  Nat.toDigits 10 number

/-- The ASCII digits, whatever other digits Unicode has. -/
def isDigit (letter : Char) : Bool :=
  '0' ≤ letter && letter ≤ '9'

def digitsValue (digits : Text) : Nat :=
  digits.foldl (fun value digit => 10 * value + (digit.toNat - '0'.toNat)) 0

end Text

end BuildInputs

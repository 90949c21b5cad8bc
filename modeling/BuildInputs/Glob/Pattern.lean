import BuildInputs.Text.Basic

namespace BuildInputs
namespace Glob

/-!
# Patterns for names

In a pattern `?` stands for one character, `*` for any number of them, `[…]` for one character
of a set and `[!…]` for one outside it; everything else stands for itself.  A set lists
characters and ranges, and a `]` directly after its opening stands for itself.  `**` is only
allowed as a whole component, where it stands for any number of directories.

A pattern is read from the left, and the first thing wrong with it is reported with its place.
-/

inductive SetItem where
  | single (letter : Char)
  | range (first last : Char)
  deriving DecidableEq, Repr

inductive Token where
  | literal (letter : Char)
  | anyChar
  | anySequence
  | anyDirectories
  | oneOf (items : List SetItem)
  | noneOf (items : List SetItem)
  deriving DecidableEq, Repr

inductive PatternFault where
  | wildcards
  | recursiveWildcards
  | invalidRange
  deriving DecidableEq, Repr

/-- A fault and its place, counted in characters. -/
structure PatternError where
  position : Nat
  fault : PatternFault
  deriving DecidableEq, Repr

def PatternFault.message : PatternFault -> Text
  | .wildcards => "wildcards are either regular `*` or recursive `**`".toList
  | .recursiveWildcards => "recursive wildcards must form a single path component".toList
  | .invalidRange => "invalid range pattern".toList

def PatternError.message (error : PatternError) : Text :=
  "Pattern syntax error near position ".toList ++ Text.ofNat error.position ++ ": ".toList ++
    error.fault.message

def setItems : Text -> List SetItem
  | first :: '-' :: last :: rest => .range first last :: setItems rest
  | first :: rest => .single first :: setItems rest
  | [] => []

/-- The inside of a set and what comes after its closing bracket.  The first character is always
inside. -/
def cutSet : Text -> Option (Text × Text)
  | [] => none
  | first :: rest =>
      (Text.cutFirst ']' rest).map fun parts => (first :: parts.1, parts.2)

/-- The set after an opening bracket, and what follows it. -/
def readSet : Text -> Option (Token × Text)
  | '!' :: rest => (cutSet rest).map fun parts => (.noneOf (setItems parts.1), parts.2)
  | rest => (cutSet rest).map fun parts => (.oneOf (setItems parts.1), parts.2)

/-- The first element of a pattern and what follows it.  `previous` is the character in front,
and `position` its place.  A `**` takes the slash after it along. -/
def readToken (previous : Option Char) (position : Nat) (first : Char) (rest : Text) :
    Except PatternError (Token × Text) :=
  if first = '?' then .ok (.anyChar, rest)
  else if first = '*' then
    match rest with
    | '*' :: '*' :: _ => .error ⟨position + 2, .wildcards⟩
    | '*' :: after =>
        if previous = none || previous = some '/' then
          match after with
          | [] => .ok (.anyDirectories, [])
          | '/' :: after => .ok (.anyDirectories, after)
          | _ => .error ⟨position + 2, .recursiveWildcards⟩
        else .error ⟨position - 1, .recursiveWildcards⟩
    | rest => .ok (.anySequence, rest)
  else if first = '[' then
    match readSet rest with
    | some read => .ok read
    | none => .error ⟨position, .invalidRange⟩
  else .ok (.literal first, rest)

/-- The elements of the part of a pattern that begins at `position`.  The number of steps must
not be less than its length. -/
def readTokens (previous : Option Char) (position : Nat) :
    Nat -> Text -> Except PatternError (List Token)
  | _, [] => .ok []
  | 0, _ => .ok []
  | steps + 1, first :: rest =>
      (readToken previous position first rest).bind fun (token, after) =>
        let taken := (first :: rest).take (rest.length + 1 - after.length)
        (readTokens taken.getLast? (position + taken.length) steps after).map (token :: ·)

def parse (pattern : Text) : Except PatternError (List Token) :=
  readTokens none 0 pattern.length pattern

def SetItem.holds (letter : Char) : SetItem -> Bool
  | .single listed => letter = listed
  | .range first last => first ≤ letter && letter ≤ last

def Token.holds (letter : Char) : Token -> Bool
  | .literal listed => letter = listed
  | .anyChar => true
  | .oneOf items => items.any (SetItem.holds letter)
  | .noneOf items => !(items.any (SetItem.holds letter))
  | _ => false

/-- Whether some end of a text, after any number of characters, satisfies a test. -/
def anyEnd (test : Text -> Bool) : Text -> Bool
  | [] => test []
  | letter :: rest => test (letter :: rest) || anyEnd test rest

def isMatch : List Token -> Text -> Bool
  | [], name => name.isEmpty
  | .anySequence :: tokens, name => anyEnd (isMatch tokens) name
  | .anyDirectories :: tokens, name => anyEnd (isMatch tokens) name
  | token :: tokens, name =>
      match name with
      | [] => false
      | letter :: rest => token.holds letter && isMatch tokens rest

/-- The text that a pattern without wildcards stands for. -/
def literalText? : List Token -> Option Text
  | [] => some []
  | .literal letter :: tokens => (literalText? tokens).map (letter :: ·)
  | _ => none

end Glob
end BuildInputs

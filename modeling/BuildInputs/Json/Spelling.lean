import BuildInputs.Text.Basic

namespace BuildInputs
namespace Json

/-!
# JSON as it is spelled

Reading JSON happens in two steps.  The first, in the next module, finds the structure and
leaves numbers and strings as they are spelled.  The second gives them their meaning.  A part of
a document that nobody uses needs to pass only the first step, so an unpaired surrogate or a
number too large for a double does no harm there.
-/

/-- A number as it is spelled: digits before the point, digits after it, and the exponent, which
is negative if its flag is set. -/
structure NumberSpelling where
  negative : Bool
  whole : Text
  fraction : Option Text
  exponent : Option (Bool × Text)
  deriving DecidableEq, Repr

/-- One character of a string as it is spelled: itself or a short escape for it, or the number
of a UTF-16 unit. -/
inductive Letter where
  | plain (letter : Char)
  | unit (code : Nat)
  deriving DecidableEq, Repr

/-- A document in which numbers and strings are left as they are spelled. -/
inductive Spelled where
  | null
  | bool (value : Bool)
  | number (spelling : NumberSpelling)
  | string (letters : List Letter)
  | array (items : List Spelled)
  | object (fields : List (List Letter × Spelled))

def isHighSurrogate (code : Nat) : Bool :=
  0xd800 ≤ code && code ≤ 0xdbff

def isLowSurrogate (code : Nat) : Bool :=
  0xdc00 ≤ code && code ≤ 0xdfff

/-- The text of a string.  Two units that form a surrogate pair are one character, and half a
pair is no character at all. -/
def decodeLetters : List Letter -> Option Text
  | [] => some []
  | .plain letter :: rest => (decodeLetters rest).map (letter :: ·)
  | .unit code :: rest =>
      if isHighSurrogate code then
        match rest with
        | .unit second :: rest =>
            if isLowSurrogate second then
              (decodeLetters rest).map
                (Char.ofNat (0x10000 + (code - 0xd800) * 0x400 + (second - 0xdc00)) :: ·)
            else none
        | _ => none
      else if isLowSurrogate code then none
      else (decodeLetters rest).map (Char.ofNat code :: ·)

end Json
end BuildInputs

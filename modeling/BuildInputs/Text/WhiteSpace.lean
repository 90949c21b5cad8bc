import BuildInputs.Text.Basic

namespace BuildInputs
namespace Text

/-!
# White space

A character is white space when it has the Unicode property `White_Space`.  This is a wider
class than the ASCII blanks, and it is not the class of invisible characters: the separators
U+001C to U+001F, the zero-width space U+200B and the byte-order mark U+FEFF are outside it.
-/

/-- The ranges of code points with the property `White_Space`, in order. -/
def whiteSpaceRanges : List (Nat × Nat) :=
  [(0x9, 0xd), (0x20, 0x20), (0x85, 0x85), (0xa0, 0xa0), (0x1680, 0x1680), (0x2000, 0x200a),
    (0x2028, 0x2029), (0x202f, 0x202f), (0x205f, 0x205f), (0x3000, 0x3000)]

def isWhiteSpace (letter : Char) : Bool :=
  whiteSpaceRanges.any fun range => range.1 ≤ letter.toNat && letter.toNat ≤ range.2

def trim (text : Text) : Text :=
  ((text.dropWhile isWhiteSpace).reverse.dropWhile isWhiteSpace).reverse

end Text
end BuildInputs

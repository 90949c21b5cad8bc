import BuildInputs.Text.Basic

namespace BuildInputs
namespace Utf8

/-!
# UTF-8

Texts are stored as bytes.  Encoding is total.  Decoding accepts exactly the well-formed
sequences: the shortest form only, no surrogates, nothing above U+10FFFF.  A refusal says where
the valid beginning ends and how many bytes there still look like the start of a character, or
that the bytes stop in the middle of one.

Bytes that are shown to somebody are decoded in any case, with a replacement character where they
are refused.  That loses what the bytes were, so different bytes may be shown alike.
-/

def encodeChar (letter : Char) : List UInt8 :=
  let code := letter.toNat
  if code < 0x80 then [UInt8.ofNat code]
  else if code < 0x800 then
    [UInt8.ofNat (0xc0 + code / 0x40), UInt8.ofNat (0x80 + code % 0x40)]
  else if code < 0x10000 then
    [UInt8.ofNat (0xe0 + code / 0x1000), UInt8.ofNat (0x80 + code / 0x40 % 0x40),
      UInt8.ofNat (0x80 + code % 0x40)]
  else
    [UInt8.ofNat (0xf0 + code / 0x40000), UInt8.ofNat (0x80 + code / 0x1000 % 0x40),
      UInt8.ofNat (0x80 + code / 0x40 % 0x40), UInt8.ofNat (0x80 + code % 0x40)]

def encode (text : Text) : List UInt8 :=
  text.flatMap encodeChar

def size (text : Text) : Nat :=
  (encode text).length

inductive Error where
  /-- At `position` stand `length` bytes that begin a character, and the next one does not
  continue it. -/
  | malformed (position length : Nat)
  /-- The bytes end inside the character that begins at `position`. -/
  | unfinished (position : Nat)
  deriving DecidableEq, Repr

def Error.message : Error -> Text
  | .malformed position length =>
      "invalid utf-8 sequence of ".toList ++ Text.ofNat length ++ " bytes from index ".toList ++
        Text.ofNat position
  | .unfinished position =>
      "incomplete utf-8 byte sequence from index ".toList ++ Text.ofNat position

def isContinuation (byte : UInt8) : Bool :=
  0x80 ≤ byte && byte ≤ 0xbf

/-- The second bytes that may follow the first byte of a three-byte or four-byte character.
The bounds exclude longer forms than needed, the surrogates and codes above U+10FFFF. -/
def mayFollow (first second : UInt8) : Bool :=
  if first = 0xe0 then 0xa0 ≤ second && second ≤ 0xbf
  else if first = 0xed then 0x80 ≤ second && second ≤ 0x9f
  else if first = 0xf0 then 0x90 ≤ second && second ≤ 0xbf
  else if first = 0xf4 then 0x80 ≤ second && second ≤ 0x8f
  else isContinuation second

/-- The low six bits that a continuation byte carries. -/
def payload (byte : UInt8) : Nat :=
  byte.toNat % 0x40

/-- What bytes begin with. -/
inductive Front where
  /-- A character that takes `length` bytes. -/
  | letter (letter : Char) (length : Nat)
  /-- As many bytes that begin a character, and one that does not continue it. -/
  | malformed (length : Nat)
  /-- A character that is cut off by the end. -/
  | unfinished
  deriving DecidableEq, Repr

/-- What stands at the front of some bytes, of which there is one at least. -/
def front (first : UInt8) (rest : List UInt8) : Front :=
  if first < 0x80 then .letter (Char.ofNat first.toNat) 1
  else if 0xc2 ≤ first && first ≤ 0xdf then
    match rest with
    | [] => .unfinished
    | second :: _ =>
        if isContinuation second then
          .letter (Char.ofNat (first.toNat % 0x20 * 0x40 + payload second)) 2
        else .malformed 1
  else if 0xe0 ≤ first && first ≤ 0xef then
    match rest with
    | [] => .unfinished
    | second :: rest =>
        if mayFollow first second then
          match rest with
          | [] => .unfinished
          | third :: _ =>
              if isContinuation third then
                .letter (Char.ofNat (first.toNat % 0x10 * 0x1000 + payload second * 0x40 +
                  payload third)) 3
              else .malformed 2
        else .malformed 1
  else if 0xf0 ≤ first && first ≤ 0xf4 then
    match rest with
    | [] => .unfinished
    | second :: rest =>
        if mayFollow first second then
          match rest with
          | [] => .unfinished
          | third :: rest =>
              if isContinuation third then
                match rest with
                | [] => .unfinished
                | fourth :: _ =>
                    if isContinuation fourth then
                      .letter (Char.ofNat (first.toNat % 8 * 0x40000 + payload second * 0x1000 +
                        payload third * 0x40 + payload fourth)) 4
                    else .malformed 3
              else .malformed 2
        else .malformed 1
  else .malformed 1

/-- Decode the bytes that stand at `position` and after it.  The first `skip` of them belong to
a character that is read. -/
def decodeFrom : Nat -> Nat -> List UInt8 -> Except Error Text
  | _, _, [] => .ok []
  | position, skip + 1, _ :: rest => decodeFrom (position + 1) skip rest
  | position, 0, first :: rest =>
      match front first rest with
      | .letter letter length => (decodeFrom (position + 1) (length - 1) rest).map (letter :: ·)
      | .malformed length => .error (.malformed position length)
      | .unfinished => .error (.unfinished position)

def decode (bytes : List UInt8) : Except Error Text :=
  decodeFrom 0 0 bytes

/-- The character that is shown where bytes are no text. -/
def replacement : Char := '\uFFFD'

/-- Decode bytes that need not be a text.  Where they are none, the bytes that would be named in
a refusal are taken for one `replacement`, and decoding goes on behind them. -/
def decodeLossyFrom : Nat -> List UInt8 -> Text
  | _, [] => []
  | skip + 1, _ :: rest => decodeLossyFrom skip rest
  | 0, first :: rest =>
      match front first rest with
      | .letter letter length => letter :: decodeLossyFrom (length - 1) rest
      | .malformed length => replacement :: decodeLossyFrom (length - 1) rest
      | .unfinished => [replacement]

def decodeLossy (bytes : List UInt8) : Text :=
  decodeLossyFrom 0 bytes

end Utf8
end BuildInputs

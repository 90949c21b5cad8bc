import BuildInputs.Text.Basic

namespace BuildInputs
namespace Base64

/-!
# Base64 with required padding

Three bytes are written as four symbols of the standard alphabet.  A last group of one or two
bytes is filled up with `=`, and the bits that it does not use are zero.  Decoding accepts
exactly what encoding writes, so a sequence of bytes has one written form.  A refusal names the
first rule that the input breaks, in the order in which `check` lists them.
-/

def padding : UInt8 := 61

def symbol (value : Nat) : UInt8 :=
  if value < 26 then UInt8.ofNat (65 + value)
  else if value < 52 then UInt8.ofNat (97 + (value - 26))
  else if value < 62 then UInt8.ofNat (48 + (value - 52))
  else if value = 62 then 43
  else 47

def value? (byte : UInt8) : Option Nat :=
  if 65 ≤ byte && byte ≤ 90 then some (byte.toNat - 65)
  else if 97 ≤ byte && byte ≤ 122 then some (byte.toNat - 97 + 26)
  else if 48 ≤ byte && byte ≤ 57 then some (byte.toNat - 48 + 52)
  else if byte = 43 then some 62
  else if byte = 47 then some 63
  else none

/-- Whether a byte is one of the sixty-four symbols.  The padding is not. -/
def isSymbol (byte : UInt8) : Bool :=
  (value? byte).isSome

def encode : List UInt8 -> List UInt8
  | [] => []
  | [first] =>
      [symbol (first.toNat / 4), symbol (first.toNat % 4 * 16), padding, padding]
  | [first, second] =>
      [symbol (first.toNat / 4), symbol (first.toNat % 4 * 16 + second.toNat / 16),
        symbol (second.toNat % 16 * 4), padding]
  | first :: second :: third :: rest =>
      symbol (first.toNat / 4) :: symbol (first.toNat % 4 * 16 + second.toNat / 16) ::
        symbol (second.toNat % 16 * 4 + third.toNat / 64) :: symbol (third.toNat % 64) ::
        encode rest

inductive Error where
  | invalidSymbol (byte : UInt8) (offset : Nat)
  | invalidLength (length : Nat)
  | invalidPadding
  /-- The last symbol carries bits that belong to no byte. -/
  | invalidLastSymbol (byte : UInt8) (offset : Nat)
  deriving DecidableEq, Repr

def Error.message : Error -> Text
  | .invalidSymbol byte offset =>
      "Invalid symbol ".toList ++ Text.ofNat byte.toNat ++ ", offset ".toList ++
        Text.ofNat offset ++ ".".toList
  | .invalidLength length => "Invalid input length: ".toList ++ Text.ofNat length
  | .invalidPadding => "Invalid padding".toList
  | .invalidLastSymbol byte offset =>
      "Invalid last symbol ".toList ++ Text.ofNat byte.toNat ++ ", offset ".toList ++
        Text.ofNat offset ++ ".".toList

/-- A single byte left over at the end is refused first if it could never be part of any
input. -/
def checkLeftover (input : List UInt8) : Except Error Unit :=
  match input.getLast? with
  | some last =>
      if input.length % 4 = 1 && last != padding && !isSymbol last then
        .error (.invalidSymbol last (input.length - 1))
      else .ok ()
  | none => .ok ()

/-- How many bytes stand before the last group of four or fewer. -/
def lastGroupStart (length : Nat) : Nat :=
  if length = 0 then 0
  else if length % 4 = 0 then length - 4
  else length - length % 4

def checkSymbols (offset : Nat) : List UInt8 -> Except Error Unit
  | [] => .ok ()
  | byte :: rest =>
      if isSymbol byte then checkSymbols (offset + 1) rest
      else .error (.invalidSymbol byte offset)

/-- In the last group padding may come only after two symbols, and only padding may come after
it.  `start` is where the group begins and `index` how far into it the bytes stand. -/
def checkLastGroup (start index : Nat) (firstPadding : Option Nat) :
    List UInt8 -> Except Error Unit
  | [] => .ok ()
  | byte :: rest =>
      if byte = padding then
        if index < 2 then .error (.invalidSymbol padding (start + index))
        else checkLastGroup start (index + 1) (some (firstPadding.getD index)) rest
      else
        match firstPadding with
        | some first => .error (.invalidSymbol padding (start + first))
        | none =>
            if isSymbol byte then checkLastGroup start (index + 1) none rest
            else .error (.invalidSymbol byte (start + index))

/-- The last group must have two symbols at least, be filled up to four, and leave no bit over.
Its unused bits are the low four of a second symbol or the low two of a third. -/
def checkLength (start : Nat) (group : List UInt8) : Except Error Unit :=
  let symbols := group.filter isSymbol
  let count := symbols.length
  if group.isEmpty then .ok ()
  else if count < 2 then .error (.invalidLength (start + count))
  else if group.length % 4 != 0 then .error .invalidPadding
  else
    match symbols.getLast? with
    | none => .ok ()
    | some last =>
        let unused := if count = 2 then 16 else if count = 3 then 4 else 1
        if ((value? last).getD 0) % unused != 0 then
          .error (.invalidLastSymbol last (start + count - 1))
        else .ok ()

/-- All rules, in the order in which a refusal names them. -/
def check (input : List UInt8) : Except Error Unit :=
  let start := lastGroupStart input.length
  let group := input.drop start
  (checkLeftover input).bind fun _ =>
    (checkSymbols 0 (input.take start)).bind fun _ =>
      (checkLastGroup start 0 none group).bind fun _ =>
        checkLength start group

/-- The six-bit number of a byte, with padding and anything else counting as zero. -/
def bits (byte : UInt8) : Nat :=
  (value? byte).getD 0

/-- The bytes of checked input, group by group.  A group gives one byte for every symbol after
the first. -/
def groups : List UInt8 -> List UInt8
  | first :: second :: third :: fourth :: rest =>
      let head := UInt8.ofNat (bits first * 4 + bits second / 16)
      let middle := UInt8.ofNat (bits second % 16 * 16 + bits third / 4)
      let tail := UInt8.ofNat (bits third % 4 * 64 + bits fourth)
      if third = padding then head :: groups rest
      else if fourth = padding then head :: middle :: groups rest
      else head :: middle :: tail :: groups rest
  | _ => []

def decode (input : List UInt8) : Except Error (List UInt8) :=
  (check input).map fun _ => groups input

end Base64
end BuildInputs

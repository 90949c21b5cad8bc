import BuildInputs.Json.Double
import BuildInputs.Json.Reader

namespace BuildInputs

/-!
# JSON values

A value is what a document means.  Fields keep the order in which they were first given, and a
key that comes again only replaces the value.  Integers in the range of 64-bit words stay
integers; all other numbers are doubles, and so is a negative zero.
-/

namespace Json

inductive Number where
  | integer (value : Int)
  | double (value : Double)
  deriving DecidableEq, Repr

/-- The largest integer that is not turned into a double. -/
def greatestInteger : Nat := Nat.pow 2 64 - 1

/-- The largest magnitude of a negative integer that is not turned into a double. -/
def greatestNegative : Nat := Nat.pow 2 63

/-- Take in the digits before the point.  As soon as the significand would no longer fit 64 bits,
the remaining digits only raise the power of ten. -/
def takeWhole (significand : Nat) : Text -> Nat × Int
  | [] => (significand, 0)
  | digit :: rest =>
      let next := 10 * significand + (digit.toNat - '0'.toNat)
      if next ≤ greatestInteger then takeWhole next rest
      else (significand, (rest.length : Int) + 1)

/-- Take in the digits after the point, as long as the significand fits 64 bits. -/
def takeFraction (significand : Nat) (power : Int) : Text -> Nat × Int
  | [] => (significand, power)
  | digit :: rest =>
      let next := 10 * significand + (digit.toNat - '0'.toNat)
      if next ≤ greatestInteger then takeFraction next (power - 1) rest
      else (significand, power)

def doubleOf (spelling : NumberSpelling) : Option Double :=
  let (significand, power) := takeWhole 0 spelling.whole
  let (significand, power) := takeFraction significand power (spelling.fraction.getD [])
  let exponent : Int :=
    match spelling.exponent with
    | none => 0
    | some (true, digits) => -(Text.digitsValue digits : Int)
    | some (false, digits) => Text.digitsValue digits
  Double.ofDecimal spelling.negative significand (power + exponent)

/-- The number that a spelling stands for, unless it is beyond the doubles. -/
def numberOf (spelling : NumberSpelling) : Option Number :=
  let value := Text.digitsValue spelling.whole
  if spelling.fraction.isSome || spelling.exponent.isSome then
    (doubleOf spelling).map .double
  else if spelling.negative then
    if 0 < value && value ≤ greatestNegative then some (.integer (-(value : Int)))
    else (doubleOf spelling).map .double
  else if value ≤ greatestInteger then some (.integer value)
  else (doubleOf spelling).map .double

end Json

inductive Json where
  | null
  | bool (value : Bool)
  | number (value : Json.Number)
  | string (text : Text)
  | array (items : List Json)
  | object (fields : List (Text × Json))

namespace Json

abbrev Fields := List (Text × Json)

namespace Fields

def get? (fields : Fields) (key : Text) : Option Json :=
  (fields.find? fun field => field.1 = key).map (·.2)

/-- Set the value of a key, in its place if it has one and at the end otherwise. -/
def insert (fields : Fields) (key : Text) (value : Json) : Fields :=
  match fields with
  | [] => [(key, value)]
  | field :: rest =>
      if field.1 = key then (key, value) :: rest else field :: insert rest key value

def insertAll (fields additions : Fields) : Fields :=
  additions.foldl (fun fields field => insert fields field.1 field.2) fields

end Fields

mutual

/-- How deep arrays and objects nest. -/
def Spelled.depth : Spelled -> Nat
  | .array items => Spelled.itemsDepth items + 1
  | .object fields => Spelled.fieldsDepth fields + 1
  | _ => 0

def Spelled.itemsDepth : List Spelled -> Nat
  | [] => 0
  | item :: items => max item.depth (itemsDepth items)

def Spelled.fieldsDepth : List (List Letter × Spelled) -> Nat
  | [] => 0
  | (_, value) :: fields => max value.depth (fieldsDepth fields)

end

mutual

/-- What a document means.  A number beyond the doubles or half a surrogate pair has no
meaning. -/
def ofSpelled : Spelled -> Option Json
  | .null => some .null
  | .bool value => some (.bool value)
  | .number spelling => (numberOf spelling).map .number
  | .string letters => (decodeLetters letters).map .string
  | .array items => (ofItems items).map .array
  | .object fields => (ofFields [] fields).map .object

def ofItems : List Spelled -> Option (List Json)
  | [] => some []
  | item :: items =>
      (ofSpelled item).bind fun value => (ofItems items).map (value :: ·)

/-- The fields so far with further ones put in. -/
def ofFields (known : Fields) : List (List Letter × Spelled) -> Option Fields
  | [] => some known
  | (key, value) :: fields =>
      (decodeLetters key).bind fun key =>
        (ofSpelled value).bind fun value => ofFields (known.insert key value) fields

end

def depthLimit : Nat := 127

def parse (text : Text) : Option Json :=
  (read text).bind fun document =>
    if document.depth ≤ depthLimit then ofSpelled document else none

/-- Whether two numbers are the same.  An integer is never the same as a double. -/
def Number.same : Number -> Number -> Bool
  | .integer first, .integer second => first = second
  | .double first, .double second => first.sameNumber second
  | _, _ => false

mutual

/-- Whether two values are the same when the order of keys does not count. -/
def same : Json -> Json -> Bool
  | .null, .null => true
  | .bool first, .bool second => first = second
  | .number first, .number second => first.same second
  | .string first, .string second => first = second
  | .array first, .array second => sameItems first second
  | .object first, .object second =>
      first.length = second.length && sameFields first second
  | _, _ => false

def sameItems : List Json -> List Json -> Bool
  | [], [] => true
  | first :: others, second :: rest => same first second && sameItems others rest
  | _, _ => false

/-- Whether each field has the same value in other fields. -/
def sameFields : Fields -> Fields -> Bool
  | [], _ => true
  | (key, value) :: fields, others =>
      (match others.get? key with
        | some other => same value other
        | none => false) && sameFields fields others

end

end Json
end BuildInputs

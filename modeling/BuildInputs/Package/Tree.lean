import BuildInputs.Json.Value

namespace BuildInputs
namespace Package

/-!
# Package inputs

What the prefetch tool is asked to fetch is a JSON value without a fixed schema: a package
object with a `type`, an object with a list of `packages`, or an array of such things.  A text
that is not JSON is taken as the type of a single package.

Package objects are found along arrays and `packages` lists only, and whatever else they hold is
left alone, even if it looks like a package.  An object with a `packages` list is changed inside
that list and nowhere else, whether or not it has a `type` of its own.

An input is a value that some text spells: what is neither an array nor an object holds none.
-/

def packagesKey : Text := "packages".toList

def typeKey : Text := "type".toList

/-- The package input that a text spells.  There is always one. -/
def parse (text : Text) : Json :=
  match Json.parse text with
  | some value => value
  | none => .object [(typeKey, .string text)]

/-- Whether an object has a given type, as a string. -/
def hasType (target : Text) (fields : Json.Fields) : Bool :=
  match fields.get? typeKey with
  | some (.string text) => text = target
  | _ => false

def hasPackages (fields : Json.Fields) : Bool :=
  match fields.get? packagesKey with
  | some (.array _) => true
  | _ => false

mutual

def containsType (target : Text) : Json -> Bool
  | .array items => anyContainsType target items
  | .object fields => listContainsType target fields || hasType target fields
  | _ => false

def anyContainsType (target : Text) : List Json -> Bool
  | [] => false
  | item :: items => containsType target item || anyContainsType target items

def listContainsType (target : Text) : Json.Fields -> Bool
  | [] => false
  | (key, value) :: fields =>
      if key = packagesKey then
        match value with
        | .array items => anyContainsType target items
        | _ => false
      else listContainsType target fields

end

mutual

/-- Change every package object of a type. -/
def transform (target : Text) (change : Json.Fields -> Json.Fields) : Json -> Json
  | .array items => .array (transformItems target change items)
  | .object fields =>
      if hasPackages fields then .object (transformList target change fields)
      else if hasType target fields then .object (change fields)
      else .object fields
  | value => value

def transformItems (target : Text) (change : Json.Fields -> Json.Fields) :
    List Json -> List Json
  | [] => []
  | item :: items => transform target change item :: transformItems target change items

def transformList (target : Text) (change : Json.Fields -> Json.Fields) :
    Json.Fields -> Json.Fields
  | [] => []
  | (key, value) :: fields =>
      if key = packagesKey then
        match value with
        | .array items => (key, .array (transformItems target change items)) :: fields
        | value => (key, value) :: fields
      else (key, value) :: transformList target change fields

end

/-- The key that asks for a summary of the packages in the bill of materials. -/
def summaryKey : Text := "include_summary_in_sbom".toList

def optionsKey : Text := "options".toList

def sslKey : Text := "ssl".toList

def setSummary (fields : Json.Fields) : Json.Fields :=
  fields.insert summaryKey (.bool true)

/-- Put connection settings into the options of a package.  If there are such settings already
the two are merged, and otherwise the options as a whole are replaced. -/
def setSsl (ssl : Json.Fields) (fields : Json.Fields) : Json.Fields :=
  match fields.get? optionsKey with
  | some (.object options) =>
      match Json.Fields.get? options sslKey with
      | some (.object known) =>
          fields.insert optionsKey
            (.object (Json.Fields.insert options sslKey
              (.object (Json.Fields.insertAll known ssl))))
      | _ => fields.insert optionsKey (.object [(sslKey, .object ssl)])
  | _ => fields.insert optionsKey (.object [(sslKey, .object ssl)])

def injectSummary (target : Text) (input : Json) : Json :=
  transform target setSummary input

def injectSsl (target : Text) (ssl : Json.Fields) (input : Json) : Json :=
  transform target (setSsl ssl) input

end Package
end BuildInputs

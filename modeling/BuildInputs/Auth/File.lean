import BuildInputs.Json.Reader
import BuildInputs.Json.Writer
import BuildInputs.Settings

namespace BuildInputs

/-!
# Auth files

An auth file maps scopes to tokens.  A scope is a registry or a repository in it, and the scope
of an enclosing path stands in where a repository has none of its own.

The document is an object with a field `auths`, whose fields are the scopes, and each entry is
an object with a field `auth`.  Either of these two fields may be missing, none may come twice,
and fields of other names are ignored together with whatever they hold.  In place of such an
object an array may list its one field.  A scope that comes again replaces the one before.
-/

structure AuthFile where
  scopes : List (Text × Text)
  deriving DecidableEq, Repr

namespace AuthFile

def empty : AuthFile :=
  ⟨[]⟩

def token? (file : AuthFile) (scope : Text) : Option Text :=
  (file.scopes.find? fun entry => entry.1 = scope).map (·.2)

def insert (file : AuthFile) (scope token : Text) : AuthFile :=
  ⟨(scope, token) :: file.scopes.filter fun entry => entry.1 ≠ scope⟩

/-- A string that is used, so that it must be a text. -/
def textOf : Json.Spelled -> Option Text
  | .string letters => Json.decodeLetters letters
  | _ => none

/-- The values of the fields with a given key, in order.  Every key must be a text, also those
of fields that are ignored. -/
def valuesOf (key : Text) : List (List Json.Letter × Json.Spelled) -> Option (List Json.Spelled)
  | [] => some []
  | (letters, value) :: fields =>
      (Json.decodeLetters letters).bind fun name =>
        (valuesOf key fields).map fun values => if name = key then value :: values else values

/-- The one field of a record that is known by its key, or alone in an array. -/
def soleField (key : Text) : Json.Spelled -> Option (Option Json.Spelled)
  | .object fields =>
      (valuesOf key fields).bind fun values =>
        match values with
        | [] => some none
        | [value] => some (some value)
        | _ => none
  | .array [] => some none
  | .array [value] => some (some value)
  | _ => none

/-- The token of an entry.  It is empty if the entry does not give one. -/
def entryToken (entry : Json.Spelled) : Option Text :=
  (soleField "auth".toList entry).bind fun value =>
    match value with
    | none => some []
    | some value => textOf value

def insertEntries (file : AuthFile) :
    List (List Json.Letter × Json.Spelled) -> Option AuthFile
  | [] => some file
  | (letters, entry) :: entries =>
      (Json.decodeLetters letters).bind fun scope =>
        (entryToken entry).bind fun token => insertEntries (file.insert scope token) entries

/-- The auth file that a document describes. -/
def ofSpelled (document : Json.Spelled) : Option AuthFile :=
  (soleField "auths".toList document).bind fun value =>
    match value with
    | none => some empty
    | some (.object entries) => insertEntries empty entries
    | some _ => none

def parse (text : Text) : Option AuthFile :=
  (Json.read text).bind ofSpelled

/-- The beginnings of a repository that end before a slash, shortest first. -/
def enclosing : Text -> List Text
  | [] => []
  | letter :: rest =>
      let longer := (enclosing rest).map (letter :: ·)
      if letter = '/' then [] :: longer else longer

/-- The scopes that may stand in for a repository, the most specific first. -/
def scopesFor (repository : Text) : List Text :=
  repository :: (enclosing repository).reverse

/-- The part of a repository before the first slash. -/
def registryOf (repository : Text) : Text :=
  repository.takeWhile fun letter => letter ≠ '/'

/-- The token for a repository: that of its most specific scope.  For the main registry of
Docker the scope of its index is the last resort. -/
def find? (file : AuthFile) (repository : Text) : Option Text :=
  match (scopesFor repository).findSome? file.token? with
  | some token => some token
  | none =>
      if registryOf repository = Settings.dockerRegistry then
        file.token? Settings.dockerIndex
      else none

def single (scope token : Text) : Json :=
  .object [("auths".toList, .object [(scope, .object [("auth".toList, .string token)])])]

end AuthFile
end BuildInputs

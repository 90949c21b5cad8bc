import BuildInputs.Text.Utf8

namespace BuildInputs

/-!
# Paths as they are spelled

A path is a string of bytes that is never normalised behind the caller's back.  What it means is
read off its components: repeated and trailing slashes do not count, and neither does a `.`
unless it is the first component of a relative path.  Paths are compared by components, while
`push` and `pop` edit the spelling.

The bytes need not be a text.  What a person writes is a text and spells a path by its bytes;
what a person reads of a path is a text that stands for it, and if the bytes are none, then it
spells another path.
-/

/-- A path is kept as the bytes in which it is spelled. -/
abbrev Path := List UInt8

namespace Path

@[match_pattern] def slash : UInt8 := 0x2f

@[match_pattern] def dot : UInt8 := 0x2e

/-- The path that a text spells. -/
def ofText (text : Text) : Path :=
  Utf8.encode text

def display (path : Path) : Text :=
  Utf8.decodeLossy path

inductive Component where
  | root
  | current
  | parent
  | name (spelling : Path)
  deriving DecidableEq, Repr

/-- The component that a piece between slashes stands for, if it stands for one that counts
anywhere in a path. -/
def Component.ofPiece? (piece : Path) : Option Component :=
  if piece = [] then none
  else if piece = [dot] then none
  else if piece = [dot, dot] then some .parent
  else some (.name piece)

def isAbsolute (path : Path) : Bool :=
  path.head? = some slash

/-- The components of a path.  The piece in front of the first slash decides how it begins: it
is empty for an absolute path, and `.` is kept there and nowhere else. -/
def components (path : Path) : List Component :=
  match path, Text.fields slash path with
  | [], _ => []
  | _, [] => []
  | _, head :: pieces =>
      let start :=
        if head = [] then [Component.root]
        else if head = [dot] then [Component.current]
        else (Component.ofPiece? head).toList
      start ++ pieces.filterMap Component.ofPiece?

/-- A path that ends where another path leads from here.  An absolute one starts afresh, and a
slash is put between the two only where the spelling needs it. -/
def push (path addition : Path) : Path :=
  if isAbsolute addition then addition
  else if path = [] || path.getLast? = some slash then path ++ addition
  else path ++ slash :: addition

/-- Pieces in reverse order, without those at the front that do not count.  The very first piece
of the path always counts. -/
def skipBlank : List Path -> List Path
  | [] => []
  | [first] => [first]
  | piece :: next :: pieces =>
      if (Component.ofPiece? piece).isNone then skipBlank (next :: pieces)
      else piece :: next :: pieces

/-- The spelling of a path cut just after its parent's last component.  A path that has no
parent, the empty one or the root, stays as it is. -/
def pop (path : Path) : Path :=
  match skipBlank (Text.fields slash path).reverse with
  | [] => path
  | [first] => if first = [] then path else []
  | _ :: pieces =>
      match skipBlank pieces with
      | [[]] => [slash]
      | kept => Text.joinWith slash kept.reverse

/-- The last component, when it is a name. -/
def fileName (path : Path) : Option Path :=
  match (components path).getLast? with
  | some (.name spelling) => some spelling
  | _ => none

/-- Whether the components of one path begin with those of another. -/
def startsWith (path start : Path) : Bool :=
  (components start).isPrefixOf (components path)

def Component.spelling : Component -> Path
  | .root => [slash]
  | .current => [dot]
  | .parent => [dot, dot]
  | .name spelling => spelling

def ofComponents (parts : List Component) : Path :=
  parts.foldl (fun path part => push path part.spelling) []

/-- The same path from the root, given the path of the current directory.  Slashes and dots that
do not count go, exactly two leading slashes stay, and no `..` is taken back. -/
def absolute (here path : Path) : Path :=
  let parts := (components path).filter fun part => part ≠ .current && part ≠ .root
  let base :=
    if isAbsolute path then
      if [slash, slash].isPrefixOf path && !([slash, slash, slash].isPrefixOf path) then
        [slash, slash]
      else [slash]
    else here
  parts.foldl (fun path part => push path part.spelling) base

end Path
end BuildInputs

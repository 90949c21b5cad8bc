import BuildInputs.FileSystem.Name

namespace BuildInputs

/-!
# File systems as values

A file system says what stands at each location.  It is a finite table, and if a location is
listed twice the first row counts, so that putting something somewhere is adding a row.  The
root is a directory whatever the table says.  Nothing here follows a link: that is the walk
along a path, in the next module.

Owners, permissions and times are left out, and so are devices and sockets, and disks that are
full.  A name has a greatest length, a path as a whole has none.
-/

inductive Node where
  | file (contents : List UInt8)
  | directory
  | link (target : Path)
  | pipe
  deriving DecidableEq, Repr

structure FileSystem where
  rows : List (Location × Node)

namespace FileSystem

def empty : FileSystem :=
  ⟨[]⟩

def node? (files : FileSystem) (location : Location) : Option Node :=
  if location = [] then some .directory
  else (files.rows.find? fun row => row.1 = location).map (·.2)

/-- Put a node at a location, in place of what was there. -/
def put (files : FileSystem) (location : Location) (node : Node) : FileSystem :=
  ⟨(location, node) :: files.rows⟩

/-- Take away a location and everything below it. -/
def clear (files : FileSystem) (location : Location) : FileSystem :=
  ⟨files.rows.filter fun row => !location.isPrefixOf row.1⟩

/-- The name by which a directory knows a location directly below it. -/
def childName? (directory location : Location) : Option FileName :=
  if location.dropLast = directory then location.getLast? else none

/-- Insert a name into a list that is in order, once. -/
def insertName (name : FileName) : List FileName -> List FileName
  | [] => [name]
  | head :: tail =>
      if name = head then head :: tail
      else if name.before head then name :: head :: tail
      else head :: insertName name tail

/-- The names in a directory, each once, in the order of their bytes. -/
def names (files : FileSystem) (directory : Location) : List FileName :=
  (files.rows.filterMap fun row => childName? directory row.1).foldr insertName []

end FileSystem
end BuildInputs

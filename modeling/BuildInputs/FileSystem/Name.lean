import BuildInputs.Path.Basic

namespace BuildInputs

/-!
# Names and locations

A directory knows its entries by name.  A name is a string of bytes that can stand between two
slashes and means one entry: it is not empty, `.` or `..`, holds no slash and no NUL, and takes
at most 255 bytes.  It need not be a text.  A location is the list of names that leads from the
root to an entry, so it has no spelling variants and passes through no link.
-/

/-- What a directory accepts as the name of an entry. -/
def FileName.IsName (bytes : List UInt8) : Prop :=
  bytes ≠ [] ∧ bytes ≠ [Path.dot] ∧ bytes ≠ [Path.dot, Path.dot] ∧ Path.slash ∉ bytes ∧
    0 ∉ bytes ∧ bytes.length ≤ 255

instance (bytes : List UInt8) : Decidable (FileName.IsName bytes) :=
  inferInstanceAs (Decidable (_ ∧ _))

structure FileName where
  bytes : List UInt8
  isName : FileName.IsName bytes
  deriving DecidableEq

namespace FileName

theorem bytes_injective : Function.Injective bytes := by
  intro first second same
  cases first
  cases second
  cases same
  rfl

def ofBytes? (bytes : List UInt8) : Option FileName :=
  if isName : IsName bytes then some ⟨bytes, isName⟩ else none

def display (name : FileName) : Text :=
  Path.display name.bytes

/-- Names in the order of their bytes. -/
def before (first second : FileName) : Bool :=
  decide (first.bytes < second.bytes)

end FileName

/-- The names that lead from the root to an entry. -/
abbrev Location := List FileName

namespace Location

/-- The absolute path that spells a location. -/
def path (location : Location) : Path :=
  Path.slash :: Text.joinWith Path.slash (location.map FileName.bytes)

end Location

end BuildInputs

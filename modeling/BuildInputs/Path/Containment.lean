import BuildInputs.Path.Basic

namespace BuildInputs
namespace Path

/-!
# Staying below a directory

A path given by a user is first folded into a directory without looking at any file: it counts
as relative even if it starts with a slash, and `..` takes back one component but never the
root.  Whether a path lies below a boundary is then a comparison of components, so that
`/src-other` does not lie below `/src`.  Folding alone does not keep a path inside, since enough
`..` lead out and links are not followed; the comparison is made after links are resolved.
-/

def joinComponent (path : Path) : Component -> Path
  | .root => path
  | .current => path
  | .parent => pop path
  | .name spelling => push path spelling

/-- Fold a path into a base, component by component. -/
def joinLexically (base relative : Path) : Path :=
  (components relative).foldl joinComponent base

/-- Whether a path is a boundary or lies below it.  Both are taken as they are. -/
def isContained (candidate boundary : Path) : Bool :=
  startsWith candidate boundary

end Path
end BuildInputs

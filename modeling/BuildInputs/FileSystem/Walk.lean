import BuildInputs.FileSystem.Basic
import BuildInputs.FileSystem.Failure

namespace BuildInputs
namespace FileSystem

/-!
# Walking along a path

A path is walked one step at a time.  Every step starts in a directory: going on from a file or
a pipe fails, even if the next step is `.`, `..` or only a trailing slash.  A name must exist,
also when a `..` follows it.  A link is replaced by the steps of its target, at most forty times
in one walk.  The walk ends at a location, which passes through no link, or at a free name in a
directory that exists.

Whoever wants to create a file asks for a little more: a last name with a slash after it can
only be a directory, so it is refused before looking whether it exists.
-/

/-- How many links one walk may follow. -/
def linkLimit : Nat := 40

inductive Step where
  | stay
  | up
  | name (name : FileName)
  /-- A piece that cannot be the name of anything. -/
  | refused (failure : Failure)
  /-- Slashes at the very end. -/
  | slash
  deriving DecidableEq

/-- The step that a piece between slashes asks for. -/
def Step.ofPiece (piece : Path) : Step :=
  if piece = [Path.dot] then .stay
  else if piece = [Path.dot, Path.dot] then .up
  else if isName : FileName.IsName piece then .name ⟨piece, isName⟩
  else if 0 ∈ piece then .refused .nulCharacter
  else .refused .nameTooLong

def steps (path : Path) : List Step :=
  ((Text.fields Path.slash path).filter fun piece => piece ≠ []).map Step.ofPiece ++
    if path.getLast? = some Path.slash then [.slash] else []

/-- Where a path starts, for somebody in a given directory. -/
def start (here : Location) (path : Path) : Location :=
  if Path.isAbsolute path then [] else here

inductive Purpose where
  | visit
  | create
  deriving DecidableEq

inductive Arrival where
  /-- Something stands at this location, and it is not a link. -/
  | present (location : Location)
  /-- The directory exists and has no entry of this name. -/
  | vacant (directory : Location) (name : FileName)
  deriving DecidableEq

/-- Take the steps from a location, following at most `links` links. -/
def walk (files : FileSystem) (purpose : Purpose) (links : Nat) (here : Location)
    (steps : List Step) : Except Failure Arrival :=
  match steps with
  | [] => .ok (.present here)
  | step :: rest =>
      if files.node? here ≠ some .directory then .error .notADirectory
      else
        match step with
        | .stay => walk files purpose links here rest
        | .slash => walk files purpose links here rest
        | .up => walk files purpose links here.dropLast rest
        | .refused failure => .error failure
        | .name name =>
            if purpose = .create && rest = [.slash] then .error .isADirectory
            else
              match files.node? (here ++ [name]) with
              | none =>
                  if rest = [] then .ok (.vacant here name) else .error .notFound
              | some (.link target) =>
                  match links with
                  | 0 => .error .tooManyLinks
                  | links + 1 =>
                      if target = [] then .error .notFound
                      else
                        walk files purpose links (start here target)
                          (FileSystem.steps target ++ rest)
              | some _ => walk files purpose links (here ++ [name]) rest
  termination_by (links, steps.length)

end FileSystem
end BuildInputs

import BuildInputs.CommandLine.Outcome
import BuildInputs.CommandLine.Snapshot

namespace BuildInputs
namespace CommandLine

/-!
# The command-line tool

The tool takes a snapshot of what its command may look at, carries the command out on that
snapshot, writes the file that the command writes, if any, and prints the rest.
-/

def readEnvironment : IO Settings.Environment := do
  let names := .home :: Settings.Variable.listed
  let values ← names.mapM fun name => do
    pure (name, ← IO.getEnv (String.ofList name.name))
  pure fun name => (values.lookup name).bind fun value => value.map String.toList

/-- The files that a command line may look at.  One that is wrong looks at none. -/
def takeSnapshot (environment : Settings.Environment) (arguments : List Text) : IO Workspace :=
  match Command.read environment arguments with
  | .ok command => Snapshot.take environment command
  | .error _ => pure ⟨.empty, []⟩

/-- Write on the disk what a successful run has written. -/
def writeFiles (environment : Settings.Environment) (arguments : List Text)
    (outcome : Outcome) : IO Unit :=
  match Command.read environment arguments with
  | .ok (.prefetchConfig _ (some path)) =>
      match outcome.code, outcome.workspace.readText path with
      | 0, .ok text => IO.FS.writeFile (Snapshot.onDisk path) (String.ofList text)
      | _, _ => pure ()
  | _ => pure ()

end CommandLine
end BuildInputs

open BuildInputs CommandLine in
def main (arguments : List String) : IO UInt32 := do
  let environment ← readEnvironment
  let arguments := arguments.map String.toList
  let workspace ← takeSnapshot environment arguments
  let outcome := Outcome.ofArguments workspace environment arguments
  writeFiles environment arguments outcome
  IO.print (String.ofList outcome.output)
  IO.eprint (String.ofList outcome.notices)
  pure (UInt32.ofNat outcome.code)

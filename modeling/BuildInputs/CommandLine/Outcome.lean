import BuildInputs.CommandLine.Run

namespace BuildInputs
namespace CommandLine

/-!
# What a run of the tool leaves behind

A run ends with an exit code: 0 for success, 1 for a command that failed, and 2 for a command
line that could not be read, in which case nothing was done.
-/

structure Outcome where
  code : Nat
  /-- The standard output. -/
  output : Text
  /-- The standard error. -/
  notices : Text
  events : List Event
  /-- The files afterwards. -/
  workspace : Workspace

def outputOf (emissions : List Emission) : Text :=
  emissions.flatMap fun emission =>
    match emission with
    | .output text => text
    | _ => []

def noticesOf (emissions : List Emission) : Text :=
  emissions.flatMap fun emission =>
    match emission with
    | .notice text => text
    | _ => []

def eventsOf (emissions : List Emission) : List Event :=
  emissions.filterMap fun emission =>
    match emission with
    | .event event => some event
    | _ => none

/-- The outcome of some work that started from given files.  A failure is told last. -/
def Outcome.ofWork (workspace : Workspace) (work : Work Workspace) : Outcome :=
  let output := outputOf work.notes
  let notices := noticesOf work.notes
  let events := eventsOf work.notes
  match work.result with
  | .ok changed => ⟨0, output, notices, events, changed⟩
  | .error error =>
      ⟨1, output, notices ++ "Error: ".toList ++ error.message ++ ['\n'], events, workspace⟩

/-- How the tool is used, in short. -/
def usage : Text :=
  "Usage: buildprep ".toList ++ Text.joinWith '|' (readers.map (·.1)) ++
    " [OPTIONS] [ARGUMENTS]\n".toList

def Outcome.ofArguments (workspace : Workspace) (environment : Settings.Environment)
    (arguments : List Text) : Outcome :=
  match Command.read environment arguments with
  | .ok command => Outcome.ofWork workspace (run workspace environment command)
  | .error .helpWanted => ⟨0, usage, [], [], workspace⟩
  | .error .wrong => ⟨2, [], usage, [], workspace⟩

end CommandLine
end BuildInputs

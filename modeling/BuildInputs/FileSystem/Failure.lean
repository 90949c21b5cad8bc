import BuildInputs.Text.Basic

namespace BuildInputs

/-!
# Why a file could not be used

Each cause has a fixed wording.  The causes that the operating system numbers show their number;
the others are found before the system is asked, or after it has answered.
-/

inductive Failure where
  | notFound
  | permissionDenied
  | alreadyExists
  | notADirectory
  | isADirectory
  | directoryNotEmpty
  | nameTooLong
  | tooManyLinks
  /-- A path with a NUL character names nothing, not even something that is missing. -/
  | nulCharacter
  | notUtf8
  /-- A pipe has nobody at its other end. -/
  | idlePipe
  deriving DecidableEq, Repr

namespace Failure

/-- The number that the operating system gives to a cause. -/
def number? : Failure -> Option Nat
  | .notFound => some 2
  | .permissionDenied => some 13
  | .alreadyExists => some 17
  | .notADirectory => some 20
  | .isADirectory => some 21
  | .directoryNotEmpty => some 39
  | .nameTooLong => some 36
  | .tooManyLinks => some 40
  | .nulCharacter => none
  | .notUtf8 => none
  | .idlePipe => none

def numbered : List Failure :=
  [.notFound, .permissionDenied, .alreadyExists, .notADirectory, .isADirectory,
    .directoryNotEmpty, .nameTooLong, .tooManyLinks]

def ofNumber? (number : Nat) : Option Failure :=
  numbered.find? fun failure => failure.number? = some number

def description : Failure -> Text
  | .notFound => "No such file or directory".toList
  | .permissionDenied => "Permission denied".toList
  | .alreadyExists => "File exists".toList
  | .notADirectory => "Not a directory".toList
  | .isADirectory => "Is a directory".toList
  | .directoryNotEmpty => "Directory not empty".toList
  | .nameTooLong => "File name too long".toList
  | .tooManyLinks => "Too many levels of symbolic links".toList
  | .nulCharacter => "file name contained an unexpected NUL byte".toList
  | .notUtf8 => "stream did not contain valid UTF-8".toList
  | .idlePipe => "the pipe has no other end".toList

/-- The wording with the number in brackets, where there is one. -/
def message (failure : Failure) : Text :=
  match failure.number? with
  | some number =>
      failure.description ++ " (os error ".toList ++ Text.ofNat number ++ ")".toList
  | none => failure.description

end Failure
end BuildInputs

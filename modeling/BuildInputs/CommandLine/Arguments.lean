import BuildInputs.Settings

namespace BuildInputs
namespace CommandLine

/-!
# Reading arguments

A command says which options and positional arguments it takes, and the arguments are sorted by
these rules.  A long option is written `--name value` or `--name=value`, a short one `-n value`,
`-nvalue` or `-n=value`.  An option that takes several values takes all arguments up to the next
one that begins with a dash; one that is written with `=` takes that value alone.  After `--`
every argument is positional.  A lone `-` is a value.

A rule that is broken makes the whole command line wrong, and nothing is said about where.
Arguments and the values of variables are texts.
-/

inductive Arity where
  | flag
  | one
  /-- One value, or none and then the given one. -/
  | optional (missing : Text)
  /-- One value or more, each cut at a separator.  The option may come again. -/
  | many (separator : Char)
  deriving DecidableEq, Repr

structure OptionRule where
  long : Text
  short : Option Char := none
  arity : Arity := .one
  /-- Whether the values are paths, which must not be empty. -/
  isPath : Bool := false
  /-- The environment variable that stands in for the option. -/
  variableName : Option Settings.Variable := none
  deriving DecidableEq, Repr

structure PositionalRule where
  isPath : Bool := false
  variableName : Option Settings.Variable := none
  deriving DecidableEq, Repr

/-- Why a command line is not carried out. -/
inductive Stop where
  | wrong
  | helpWanted
  deriving DecidableEq, Repr

/-- The arguments sorted by rules: the values of each option that was given, and the positional
arguments. -/
structure Given where
  options : List (Text × List Text)
  positionals : List Text
  deriving DecidableEq, Repr

namespace Given

def none : Given :=
  ⟨[], []⟩

def values? (given : Given) (long : Text) : Option (List Text) :=
  match given.options.filter fun option => option.1 = long with
  | [] => Option.none
  | options => some (options.flatMap (·.2))

/-- Record the values of an option.  A path must not be empty, and only an option with several
values may come again. -/
def record (given : Given) (rule : OptionRule) (values : List Text) : Except Stop Given :=
  if rule.isPath && values.contains [] then .error .wrong
  else
    match rule.arity with
    | .many separator =>
        .ok { given with
          options := given.options ++ [(rule.long, values.flatMap (Text.fields separator))] }
    | _ =>
        if (given.values? rule.long).isSome then .error .wrong
        else .ok { given with options := given.options ++ [(rule.long, values)] }

def recordPositional (given : Given) (rules : List PositionalRule) (value : Text) :
    Except Stop Given :=
  match rules[given.positionals.length]? with
  | some rule =>
      if rule.isPath && value = [] then .error .wrong
      else .ok { given with positionals := given.positionals ++ [value] }
  | Option.none => .error .wrong

end Given

/-- An option that waits for values, and those it has. -/
abbrev Pending := Option (OptionRule × List Text)

def settle (given : Given) : Pending -> Except Stop Given
  | none => .ok given
  | some (rule, values) =>
      match rule.arity, values with
      | .flag, _ => given.record rule []
      | .optional missing, [] => given.record rule [missing]
      | _, [] => .error .wrong
      | _, values => given.record rule values

/-- Give a value to the option that waits for one, or take it as a positional argument. -/
def takeValue (positionals : List PositionalRule) (given : Given) (pending : Pending)
    (value : Text) : Except Stop (Given × Pending) :=
  match pending with
  | none => (given.recordPositional positionals value).map fun given => (given, none)
  | some (rule, values) =>
      match rule.arity with
      | .many _ => .ok (given, some (rule, values ++ [value]))
      | _ => (given.record rule [value]).map fun given => (given, none)

/-- What stands for an option: its rule, and a value that is written in the same argument. -/
def readLong (rules : List OptionRule) (body : Text) :
    Except Stop (OptionRule × Option Text) :=
  let (name, value) :=
    match Text.cutFirst '=' body with
    | some (name, value) => (name, some value)
    | none => (body, none)
  if name = "help".toList then .error (if value.isSome then .wrong else .helpWanted)
  else
    match rules.find? fun rule => rule.long = name with
    | none => .error .wrong
    | some rule =>
        if rule.arity = .flag && value.isSome then .error .wrong else .ok (rule, value)

def readShort (rules : List OptionRule) (letter : Char) (body : Text) :
    Except Stop (OptionRule × Option Text) :=
  if letter = 'h' then .error .helpWanted
  else
    match rules.find? fun rule => rule.short = some letter with
    | none => .error .wrong
    | some rule =>
        match body with
        | [] => .ok (rule, none)
        | '=' :: value => .ok (rule, some value)
        | value => .ok (rule, some value)

def takeOption (given : Given) (read : OptionRule × Option Text) :
    Except Stop (Given × Pending) :=
  match read with
  | (rule, some value) => (given.record rule [value]).map fun given => (given, none)
  | (rule, none) =>
      if rule.arity = .flag then (given.record rule []).map fun given => (given, none)
      else .ok (given, some (rule, []))

/-- Sort arguments by the rules, given what was sorted before and the option that waits. -/
def sortArguments (rules : List OptionRule) (positionals : List PositionalRule) (given : Given)
    (pending : Pending) : List Text -> Except Stop Given
  | [] => settle given pending
  | argument :: arguments =>
      match argument with
      | ['-', '-'] =>
          (settle given pending).bind fun given =>
            arguments.foldlM (fun given value => given.recordPositional positionals value) given
      | '-' :: '-' :: body =>
          (settle given pending).bind fun given =>
            (readLong rules body).bind fun read =>
              (takeOption given read).bind fun (given, pending) =>
                sortArguments rules positionals given pending arguments
      | '-' :: letter :: body =>
          (settle given pending).bind fun given =>
            (readShort rules letter body).bind fun read =>
              (takeOption given read).bind fun (given, pending) =>
                sortArguments rules positionals given pending arguments
      | value =>
          (takeValue positionals given pending value).bind fun (given, pending) =>
            sortArguments rules positionals given pending arguments

/-- The values of an option, given or from the environment. -/
def optionValues (environment : Settings.Environment) (given : Given) (rule : OptionRule) :
    Except Stop (Option (List Text)) :=
  match given.values? rule.long with
  | some values => .ok (some values)
  | none =>
      match rule.variableName.bind environment with
      | none => .ok none
      | some value =>
          if rule.isPath && value = [] then .error .wrong
          else
            match rule.arity with
            | .many separator => .ok (some (Text.fields separator value))
            | _ => .ok (some [value])

def optionValue (environment : Settings.Environment) (given : Given) (rule : OptionRule) :
    Except Stop (Option Text) :=
  (optionValues environment given rule).map fun values => values.bind List.head?

def requiredValue (environment : Settings.Environment) (given : Given) (rule : OptionRule) :
    Except Stop Text :=
  (optionValue environment given rule).bind fun value =>
    match value with
    | some value => .ok value
    | none => .error .wrong

def positionalValue (environment : Settings.Environment) (given : Given)
    (rules : List PositionalRule) (index : Nat) : Except Stop Text :=
  match given.positionals[index]? with
  | some value => .ok value
  | none =>
      match (rules[index]?.bind fun rule => rule.variableName).bind environment with
      | some value => .ok value
      | none => .error .wrong

end CommandLine
end BuildInputs

import BuildInputs.CommandLine.Outcome
import BuildInputs.Proofs.Report

namespace BuildInputs
namespace CommandLine

/-!
# Work that succeeds and prints

Most of what a command gives out is for people or for the log.  `Prints` keeps of some work only
what a script that calls the command sees: that it succeeds, the value it hands on, and the text
it prints.  There is one law for each step of which commands are made, so that what a command
prints is read off its text without unfolding any step.
-/

variable {α β : Type}

/-- The work succeeds with a value, and what it prints as the result is the given text. -/
def Prints (work : Work α) (value : α) (output : Text) : Prop :=
  work.result = .ok value ∧ outputOf work.notes = output

/-- Each line with its end. -/
def spellLines (lines : List Text) : Text :=
  lines.flatMap fun line => line ++ ['\n']

theorem outputOf_append (first second : List Emission) :
    outputOf (first ++ second) = outputOf first ++ outputOf second :=
  List.flatMap_append

theorem spellLines_append (first second : List Text) :
    spellLines (first ++ second) = spellLines first ++ spellLines second :=
  List.flatMap_append

theorem outputOf_sayAll (lines : List Text) : outputOf (sayAll lines).notes = spellLines lines :=
  List.flatMap_map _ _ lines

theorem result_eq_ok_iff {work : Work α} {value : α} :
    work.result = .ok value ↔ exists output, Prints work value output :=
  ⟨fun succeeds => ⟨_, succeeds, rfl⟩, fun ⟨_, succeeds, _⟩ => succeeds⟩

/-! ## Steps on the way -/

variable {next : α -> Work β} {value : β} {output : Text}

theorem not_prints_fail {error : CommandError} : ¬ Prints (Report.fail error) value output := by
  rintro ⟨impossible, -⟩
  cases impossible

/-- What a step has printed stands before what the next one prints. -/
theorem prints_ok_bind {notes : List Emission} {inner : α} :
    Prints (⟨notes, .ok inner⟩ >>= next) value output ↔
      exists rest, Prints (next inner) value rest ∧ output = outputOf notes ++ rest := by
  unfold Prints
  rw [Report.ok_bind, outputOf_append]
  constructor
  · rintro ⟨succeeds, rfl⟩
    exact ⟨_, ⟨succeeds, rfl⟩, rfl⟩
  · rintro ⟨_, ⟨succeeds, rfl⟩, rfl⟩
    exact ⟨succeeds, rfl⟩

theorem prints_tell_bind {line : Text} {next : Unit -> Work β} :
    Prints (tell line >>= next) value output ↔ Prints (next ()) value output :=
  Iff.rfl

theorem prints_noteEvent_bind {event : Event} {next : Unit -> Work β} :
    Prints (noteEvent event >>= next) value output ↔ Prints (next ()) value output :=
  Iff.rfl

theorem prints_sayAll_bind {lines : List Text} {next : Unit -> Work β} :
    Prints (sayAll lines >>= next) value output ↔
      exists rest, Prints (next ()) value rest ∧ output = spellLines lines ++ rest := by
  rw [← outputOf_sayAll]
  exact prints_ok_bind

theorem prints_say_bind {line : Text} {next : Unit -> Work β} :
    Prints (say line >>= next) value output ↔
      exists rest, Prints (next ()) value rest ∧ output = spellLines [line] ++ rest := by
  change Prints (sayAll [line] >>= next) value output ↔ _
  exact prints_sayAll_bind

theorem prints_ofCheck_bind {check : Except InputError α} :
    Prints (ofCheck check >>= next) value output ↔
      exists inner, check = .ok inner ∧ Prints (next inner) value output := by
  cases check with
  | error failure =>
      constructor
      · intro impossible
        exact absurd impossible not_prints_fail
      · rintro ⟨_, impossible, -⟩
        cases impossible
  | ok inner =>
      change Prints (next inner) value output ↔ _
      simp only [Except.ok.injEq, exists_eq_left']

theorem outputOf_events (events : List Event) : outputOf (events.map .event) = [] :=
  (List.flatMap_map _ _ events).trans (List.flatMap_eq_nil_iff.mpr fun _ _ => rfl)

/-- Work on inputs notes events and prints nothing. -/
theorem prints_reword_bind {ε : Type} {report : Report Event ε α}
    {onFailure : ε -> CommandError} :
    Prints (Report.reword .event onFailure report >>= next) value output ↔
      exists inner, report.result = .ok inner ∧ Prints (next inner) value output := by
  rcases report with ⟨events, failure | inner⟩
  · constructor
    · rintro ⟨impossible, -⟩
      cases impossible
    · rintro ⟨_, impossible, -⟩
      cases impossible
  · change Prints (⟨events.map .event, .ok inner⟩ >>= next) value output ↔ _
    simp only [prints_ok_bind, outputOf_events, List.nil_append, exists_eq_right', Except.ok.injEq,
      exists_eq_left']

theorem prints_require_bind {holds : Bool} {error : CommandError} {next : Unit -> Work β} :
    Prints (require holds error >>= next) value output ↔
      holds = true ∧ Prints (next ()) value output := by
  cases holds with
  | false =>
      constructor
      · intro impossible
        exact absurd impossible not_prints_fail
      · rintro ⟨impossible, -⟩
        cases impossible
  | true => exact (and_iff_right rfl).symm

/-! ## The last step -/

theorem prints_sayAll {lines : List Text} :
    Prints (sayAll lines) () output ↔ output = spellLines lines := by
  rw [← outputOf_sayAll]
  exact ⟨fun ⟨_, printed⟩ => printed.symm, fun printed => ⟨rfl, printed.symm⟩⟩

theorem prints_say {line : Text} : Prints (say line) () output ↔ output = spellLines [line] := by
  change Prints (sayAll [line]) () output ↔ _
  exact prints_sayAll

end CommandLine
end BuildInputs

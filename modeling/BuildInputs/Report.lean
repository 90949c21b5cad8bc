namespace BuildInputs

/-!
# Reports

A report is a result together with what was noted on the way to it, in order.  A failure ends
the report where it happens, and what was noted before it is kept.
-/

/-- A result of type `α`, or a failure of type `ε`, and the notes on the way to it. -/
structure Report (ω ε α : Type) where
  notes : List ω
  result : Except ε α

namespace Report

variable {ω ε α β : Type}

def ofExcept (result : Except ε α) : Report ω ε α :=
  ⟨[], result⟩

def fail (failure : ε) : Report ω ε α :=
  ⟨[], .error failure⟩

def note (entry : ω) : Report ω ε Unit :=
  ⟨[entry], .ok ()⟩

def andThen (report : Report ω ε α) (next : α -> Report ω ε β) : Report ω ε β :=
  match report.result with
  | .error failure => ⟨report.notes, .error failure⟩
  | .ok value => ⟨report.notes ++ (next value).notes, (next value).result⟩

instance : Monad (Report ω ε) where
  pure value := ⟨[], .ok value⟩
  bind := andThen

def reword {ω' ε' : Type} (onNote : ω -> ω') (onFailure : ε -> ε') (report : Report ω ε α) :
    Report ω' ε' α :=
  ⟨report.notes.map onNote, report.result.mapError onFailure⟩

end Report
end BuildInputs

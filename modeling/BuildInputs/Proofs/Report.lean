import BuildInputs.Report

namespace BuildInputs
namespace Report

/-!
# Results of reports

What a report notes never decides its result.  The first laws here follow the result of a report
through its steps and leave the notes aside.  The last ones keep the notes: a failure is the end
of a report, and a success goes on in the next step.
-/

variable {ω ε α β : Type}

@[simp] theorem result_pure (value : α) : (pure value : Report ω ε α).result = .ok value :=
  rfl

@[simp] theorem result_fail (failure : ε) : (fail failure : Report ω ε α).result = .error failure :=
  rfl

@[simp] theorem result_note (entry : ω) : (note entry : Report ω ε Unit).result = .ok () :=
  rfl

@[simp] theorem result_ofExcept (result : Except ε α) :
    (ofExcept result : Report ω ε α).result = result :=
  rfl

/-- The first failure of two steps is the failure of both. -/
@[simp] theorem result_bind (report : Report ω ε α) (next : α -> Report ω ε β) :
    (report >>= next).result = report.result.bind fun value => (next value).result := by
  change (report.andThen next).result = _
  unfold andThen
  cases report.result with
  | error failure => rfl
  | ok value => rfl

theorem map_eq_ok_iff {result : Except ε α} {change : α -> β} {value : β} :
    result.map change = .ok value ↔ exists inner, result = .ok inner ∧ change inner = value := by
  cases result <;> simp [Except.map]

theorem map_eq_error_iff {result : Except ε α} {change : α -> β} {failure : ε} :
    result.map change = .error failure ↔ result = .error failure := by
  cases result <;> simp [Except.map]

theorem bind_eq_ok_iff {result : Except ε α} {next : α -> Except ε β} {value : β} :
    result.bind next = .ok value ↔ exists inner, result = .ok inner ∧ next inner = .ok value := by
  cases result <;> simp [Except.bind]

theorem bind_eq_error_iff {result : Except ε α} {next : α -> Except ε β} {failure : ε} :
    result.bind next = .error failure ↔
      result = .error failure ∨ exists inner, result = .ok inner ∧ next inner = .error failure := by
  cases result <;> simp [Except.bind]

/-! ## Whole reports -/

theorem error_bind (notes : List ω) (failure : ε) (next : α -> Report ω ε β) :
    (⟨notes, .error failure⟩ : Report ω ε α) >>= next = ⟨notes, .error failure⟩ :=
  rfl

theorem ok_bind (notes : List ω) (value : α) (next : α -> Report ω ε β) :
    (⟨notes, .ok value⟩ : Report ω ε α) >>= next =
      ⟨notes ++ (next value).notes, (next value).result⟩ :=
  rfl

/-- Steps may be taken together in any way. -/
instance : LawfulMonad (Report ω ε) :=
  LawfulMonad.mk' (Report ω ε)
    (fun report => by
      obtain ⟨notes, failure | value⟩ := report
      · rfl
      · exact congrArg (Report.mk · (.ok value)) (List.append_nil notes))
    (fun _ _ => rfl)
    (fun report next last => by
      obtain ⟨first, failure | value⟩ := report
      · rfl
      · rcases following : next value with ⟨rest, failure | inner⟩
        · simp only [ok_bind, following, error_bind]
        · simp only [ok_bind, following, List.append_assoc])

end Report
end BuildInputs

import BuildInputs.Proofs.Report
import BuildInputs.Proofs.Secret.Id

namespace BuildInputs

/-!
# What is found in secret directories

Resolving specifications runs through directories and, in each, through entries.  It can stop in
three places, and it carries the ids that are taken from one directory into the next.  None of
this depends on the nesting: each directory and each entry contributes a few findings, these are
put in one row, and the row is checked from the left.  The row itself is computed without any
knowledge of the ids that are taken, so what is found and what is refused can be studied apart.
-/

/-- What a directory or an entry contributes. -/
inductive Finding where
  | unreadable (directory : Path) (failure : Failure)
  | broken (link : Path) (failure : Failure)
  | secret (mapping : SecretMapping)

namespace Finding

/-- The secret that was found, if it is one. -/
def mapping? : Finding -> Option SecretMapping
  | .secret mapping => some mapping
  | _ => none

/-- A finding is refused with an error, given the ids that are taken. -/
def Refuses (taken : List Text) (error : InputError) : Finding -> Prop
  | .unreadable directory failure => error = .secretDirectoryUnreadable directory failure
  | .broken link failure => error = .secretUnreadable link failure
  | .secret mapping => mapping.id ∈ taken ∧ error = .duplicateSecretId mapping.id

/-- Accept findings from the left up to the first that is refused. -/
def check (taken : List Text) : List Finding -> Except InputError (List SecretMapping)
  | [] => .ok []
  | .unreadable directory failure :: _ => .error (.secretDirectoryUnreadable directory failure)
  | .broken link failure :: _ => .error (.secretUnreadable link failure)
  | .secret mapping :: findings =>
      if taken.contains mapping.id then .error (.duplicateSecretId mapping.id)
      else (check (mapping.id :: taken) findings).map (mapping :: ·)

theorem eq_map_secret_iff {findings : List Finding} {mappings : List SecretMapping} :
    findings = mappings.map .secret ↔
      (forall finding, finding ∈ findings -> finding.mapping?.isSome = true) ∧
        findings.filterMap mapping? = mappings := by
  constructor
  · rintro rfl
    constructor
    · intro finding member
      rcases List.mem_map.mp member with ⟨mapping, _, rfl⟩
      rfl
    · rw [List.filterMap_map]
      exact List.filterMap_some
  · rintro ⟨secrets, rfl⟩
    induction findings with
    | nil => rfl
    | cons finding findings ih =>
        have rest := ih fun other member => secrets other (List.mem_cons_of_mem _ member)
        have first := secrets finding List.mem_cons_self
        cases finding with
        | unreadable directory failure => cases first
        | broken link failure => cases first
        | secret mapping =>
            rw [List.filterMap_cons, mapping?, List.map_cons, ← rest]

/-! ## Checking a row of findings -/

theorem check_secret_of_new {taken : List Text} {mapping : SecretMapping}
    {findings : List Finding} (unused : mapping.id ∉ taken) :
    check taken (.secret mapping :: findings) =
      (check (mapping.id :: taken) findings).map (mapping :: ·) := by
  rw [check, if_neg fun used => unused (List.contains_iff_mem.mp used)]

theorem check_secret_of_taken {taken : List Text} {mapping : SecretMapping}
    {findings : List Finding} (used : mapping.id ∈ taken) :
    check taken (.secret mapping :: findings) = .error (.duplicateSecretId mapping.id) := by
  rw [check, if_pos (List.contains_iff_mem.mpr used)]

theorem check_congr {taken others : List Text} (same : forall id, id ∈ taken ↔ id ∈ others)
    (findings : List Finding) : check taken findings = check others findings := by
  induction findings generalizing taken others with
  | nil => rfl
  | cons finding findings ih =>
      cases finding with
      | unreadable directory failure => rfl
      | broken link failure => rfl
      | secret mapping =>
          have grown : forall id, id ∈ mapping.id :: taken ↔ id ∈ mapping.id :: others := by
            intro id
            rw [List.mem_cons, List.mem_cons, same id]
          by_cases used : mapping.id ∈ taken
          · rw [check_secret_of_taken used, check_secret_of_taken ((same mapping.id).mp used)]
          · have unused : mapping.id ∉ others := fun other => used ((same mapping.id).mpr other)
            rw [check_secret_of_new used, check_secret_of_new unused, ih grown]

/-- The ids that are taken after some secrets, whether the first of them is counted among the
ids that were taken before or not. -/
theorem mem_ids_cons (taken : List Text) (mapping : SecretMapping)
    (mappings : List SecretMapping) (id : Text) :
    id ∈ mappings.map (·.id) ++ mapping.id :: taken ↔
      id ∈ (mapping :: mappings).map (·.id) ++ taken := by
  simp only [List.mem_append, List.mem_cons, List.map_cons, or_assoc]
  exact or_left_comm

/-- A row is checked in two parts by taking the ids of the first part into the second. -/
theorem check_append (taken : List Text) (first second : List Finding) :
    check taken (first ++ second) =
      (check taken first).bind fun mappings =>
        (check (mappings.map (·.id) ++ taken) second).map (mappings ++ ·) := by
  induction first generalizing taken with
  | nil =>
      simp only [List.nil_append, check, Except.bind, List.map_nil]
      cases check taken second <;> rfl
  | cons finding first ih =>
      cases finding with
      | unreadable directory failure => rfl
      | broken link failure => rfl
      | secret mapping =>
          rw [List.cons_append]
          by_cases used : mapping.id ∈ taken
          · rw [check_secret_of_taken used, check_secret_of_taken used]
            rfl
          · rw [check_secret_of_new used, check_secret_of_new used, ih]
            cases check (mapping.id :: taken) first with
            | error error => rfl
            | ok mappings =>
                simp only [Except.bind, Except.map]
                rw [check_congr (mem_ids_cons taken mapping mappings)]
                cases check ((mapping :: mappings).map (·.id) ++ taken) second <;> rfl

/-- Secrets are accepted if their ids are different and none is taken. -/
theorem check_secrets {taken : List Text} {mappings : List SecretMapping}
    (different : (mappings.map (·.id)).Nodup)
    (unused : forall mapping, mapping ∈ mappings -> mapping.id ∉ taken) :
    check taken (mappings.map .secret) = .ok mappings := by
  induction mappings generalizing taken with
  | nil => rfl
  | cons mapping mappings ih =>
      have parts := List.nodup_cons.mp different
      have still : forall other, other ∈ mappings -> other.id ∉ mapping.id :: taken := by
        intro other member used
        rcases List.mem_cons.mp used with same | used
        · exact parts.1 (List.mem_map.mpr ⟨other, member, same⟩)
        · exact unused other (List.mem_cons_of_mem _ member) used
      rw [List.map_cons, check_secret_of_new (unused mapping List.mem_cons_self),
        ih parts.2 still]
      rfl

/-- Nothing else is accepted. -/
theorem secrets_of_check {taken : List Text} {findings : List Finding}
    {mappings : List SecretMapping} (accepted : check taken findings = .ok mappings) :
    findings = mappings.map .secret ∧ (mappings.map (·.id)).Nodup ∧
      forall mapping, mapping ∈ mappings -> mapping.id ∉ taken := by
  induction findings generalizing taken mappings with
  | nil =>
      cases accepted
      exact ⟨rfl, List.nodup_nil, fun _ member => absurd member List.not_mem_nil⟩
  | cons finding findings ih =>
      cases finding with
      | unreadable directory failure => cases accepted
      | broken link failure => cases accepted
      | secret mapping =>
          by_cases used : mapping.id ∈ taken
          · rw [check_secret_of_taken used] at accepted
            cases accepted
          · rw [check_secret_of_new used] at accepted
            rcases Report.map_eq_ok_iff.mp accepted with ⟨others, checked, rfl⟩
            rcases ih checked with ⟨spelled, different, unused⟩
            refine ⟨congrArg (Finding.secret mapping :: ·) spelled, ?_, ?_⟩
            · refine List.nodup_cons.mpr ⟨fun again => ?_, different⟩
              rcases List.mem_map.mp again with ⟨other, member, same⟩
              exact unused other member (same ▸ List.mem_cons_self)
            · intro other member
              rcases List.mem_cons.mp member with same | member
              · exact same ▸ used
              · exact fun taken => unused other member (List.mem_cons_of_mem _ taken)

theorem check_eq_ok_iff {taken : List Text} {findings : List Finding}
    {mappings : List SecretMapping} :
    check taken findings = .ok mappings ↔
      findings = mappings.map .secret ∧ (mappings.map (·.id)).Nodup ∧
        forall mapping, mapping ∈ mappings -> mapping.id ∉ taken := by
  constructor
  · exact secrets_of_check
  · rintro ⟨rfl, different, unused⟩
    exact check_secrets different unused

theorem Refuses.congr {taken others : List Text} {error : InputError} {finding : Finding}
    (same : forall id, id ∈ taken ↔ id ∈ others) (refused : finding.Refuses taken error) :
    finding.Refuses others error := by
  cases finding with
  | unreadable directory failure => exact refused
  | broken link failure => exact refused
  | secret mapping => exact ⟨(same mapping.id).mp refused.1, refused.2⟩

/-- A finding that is refused ends the row, whatever follows it. -/
theorem check_refused {taken : List Text} {finding : Finding} {error : InputError}
    (refused : finding.Refuses taken error) (findings : List Finding) :
    check taken (finding :: findings) = .error error := by
  cases finding with
  | unreadable directory failure => exact congrArg Except.error refused.symm
  | broken link failure => exact congrArg Except.error refused.symm
  | secret mapping => rw [check_secret_of_taken refused.1, refused.2]

/-- A row is refused by the first finding that is refused after the secrets in front of it. -/
theorem check_eq_error_iff {taken : List Text} {findings : List Finding} {error : InputError} :
    check taken findings = .error error ↔
      exists before finding after,
        findings = before.map .secret ++ finding :: after ∧
          check taken (before.map .secret) = .ok before ∧
            finding.Refuses (before.map (·.id) ++ taken) error := by
  constructor
  · intro refused
    induction findings generalizing taken with
    | nil => cases refused
    | cons finding findings ih =>
        cases finding with
        | unreadable directory failure =>
            cases refused
            exact ⟨[], _, findings, rfl, rfl, rfl⟩
        | broken link failure =>
            cases refused
            exact ⟨[], _, findings, rfl, rfl, rfl⟩
        | secret mapping =>
            by_cases used : mapping.id ∈ taken
            · rw [check_secret_of_taken used] at refused
              cases refused
              exact ⟨[], _, findings, rfl, rfl, used, rfl⟩
            · rw [check_secret_of_new used] at refused
              rcases ih (Report.map_eq_error_iff.mp refused) with
                ⟨before, finding, after, spelled, accepted, offence⟩
              refine ⟨mapping :: before, finding, after, ?_, ?_, ?_⟩
              · rw [spelled]
                rfl
              · rw [List.map_cons, check_secret_of_new used, accepted]
                rfl
              · exact offence.congr (mem_ids_cons taken mapping before)
  · rintro ⟨before, finding, after, rfl, accepted, offence⟩
    rw [check_append, accepted, Except.bind, check_refused offence]
    rfl

end Finding
end BuildInputs

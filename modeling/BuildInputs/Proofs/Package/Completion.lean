import BuildInputs.Proofs.Json.Updates
import BuildInputs.Proofs.Package.Nesting

namespace BuildInputs
namespace Package

/-!
# What a package is completed with

The two changes that complete a package are an update of its fields: the summary is asked for, and
if there are certificates, the options are set.  What the options become depends on what they were.
Connection settings that are an object in options that are an object are updated in place, with
everything beside them kept, and anything else gives way to options with the settings alone.

`IsCompleted` describes this without the functions that do it.  The main result finds it at every
position of a hit, says that no input fails but for its certificates, and why each of these fails.
-/

open BuildInputs.Path (ofText)
open Json (Position)
open Json.Fields (IsUpdate)

/-- The connection settings for a key, a certificate and an authority. -/
def settingsFor (key certificate caBundle : Path) : Json.Fields :=
  [("client_key".toList, .string key.display),
    ("client_cert".toList, .string certificate.display),
    ("ca_bundle".toList, .string caBundle.display)]

/-- Options that came from old ones, if there were any, by putting connection settings in. -/
structure HasSettings (settings : Json.Fields) (old : Option Json) (options : Json.Fields) :
    Prop where
  /-- Settings that were there are updated, and so are the options around them. -/
  merged : forall known existing : Json.Fields, old = some (.object known) ->
    known.get? sslKey = some (.object existing) ->
      exists updated, IsUpdate known [(sslKey, .object updated)] options ∧
        IsUpdate existing settings updated
  /-- Where there are no such settings, nothing is kept of the options. -/
  replaced : (forall known existing : Json.Fields, old = some (.object known) ->
    known.get? sslKey ≠ some (.object existing)) -> options = [(sslKey, .object settings)]

/-- The fields of a package after it was completed, with or without an entitlement directory. -/
def IsCompleted (workspace : Workspace) (caBundle : Path) (fields completed : Json.Fields) :
    Option Path -> Prop
  | none => IsUpdate fields [(summaryKey, .bool true)] completed
  | some directory =>
      exists key certificate options,
        Certificates.find workspace directory = .ok (some ⟨key, certificate⟩) ∧
          IsUpdate fields [(summaryKey, .bool true), (optionsKey, .object options)] completed ∧
          HasSettings (settingsFor key certificate caBundle) (fields.get? optionsKey) options

/-! ## One package -/

theorem IsCompleted.summary {workspace : Workspace} {caBundle : Path}
    {fields completed : Json.Fields} {directory : Option Path}
    (isCompleted : IsCompleted workspace caBundle fields completed directory) :
    completed.get? summaryKey = some (.bool true) := by
  cases directory with
  | none => exact isCompleted.set _ List.mem_cons_self
  | some directory =>
      obtain ⟨_, _, _, _, updated, _⟩ := isCompleted
      exact updated.set _ List.mem_cons_self

theorem isUpdate_insert (fields : Json.Fields) (key : Text) (value : Json) :
    IsUpdate fields [(key, value)] (fields.insert key value) := by
  have distinct : ([(key, value)].map Prod.fst).Nodup := List.nodup_singleton key
  exact Json.Fields.isUpdate_insertAll distinct fields

theorem hasSettings_mergedOptions {settings : Json.Fields}
    (distinct : (settings.map Prod.fst).Nodup) (old : Option Json) :
    HasSettings settings old (mergedOptions settings old) where
  merged := by
    rintro known existing rfl found
    refine ⟨existing.insertAll settings, ?_, Json.Fields.isUpdate_insertAll distinct existing⟩
    rw [mergedOptions, found]
    exact isUpdate_insert known sslKey _
  replaced := by
    intro absent
    rw [mergedOptions.eq_def]
    split
    · next known =>
        split
        · next existing found => exact absurd found (absent known existing rfl)
        · rfl
    · rfl

/-- Asking for a summary leaves the options to be merged as they are, so both changes are one
update. -/
theorem isUpdate_setSsl_setSummary (settings fields : Json.Fields) :
    IsUpdate fields
      [(summaryKey, .bool true),
        (optionsKey, .object (mergedOptions settings (fields.get? optionsKey)))]
      (setSsl settings (setSummary fields)) := by
  have still : (setSummary fields).get? optionsKey = fields.get? optionsKey :=
    Json.Fields.get?_insert_of_ne (by decide) fields _
  rw [setSsl_eq_insert, still]
  apply Json.Fields.isUpdate_insertAll
  change [summaryKey, optionsKey].Nodup
  decide

section

variable {workspace : Workspace} {caBundle : Path} {directory : Option Path}

theorem wantedCertificates_eq_ok_iff {certificates : Option Certificates} :
    wantedCertificates workspace directory = .ok certificates ↔
      match directory with
      | none => certificates = none
      | some directory => exists found, certificates = some found ∧
          Certificates.find workspace directory = .ok (some found) := by
  cases directory with
  | none =>
      exact ⟨fun wanted => (Except.ok.inj wanted).symm, fun none => congrArg Except.ok none.symm⟩
  | some directory =>
      rw [wantedCertificates, Report.map_eq_ok_iff, requireCertificates]
      cases search : Certificates.find workspace directory with
      | error fault => simp [search]
      | ok found => cases found <;> simp [search, eq_comm]

theorem wantedCertificates_eq_error_iff {error : PrepareError} :
    wantedCertificates workspace directory = .error error ↔
      exists given, directory = some given ∧
        ((exists fault, Certificates.find workspace given = .error fault ∧
            error = .badPattern fault) ∨
          (Certificates.find workspace given = .ok none ∧ error = .certificatesMissing given)) := by
  cases directory with
  | none => simp [wantedCertificates]
  | some directory =>
      rw [wantedCertificates, Report.map_eq_error_iff, requireCertificates]
      cases search : Certificates.find workspace directory with
      | error fault => simp [search, eq_comm]
      | ok found => cases found <;> simp [search, eq_comm]

theorem isCompleted_completion {certificates : Option Certificates}
    (wanted : wantedCertificates workspace directory = .ok certificates) (fields : Json.Fields) :
    IsCompleted workspace caBundle fields (completion caBundle certificates fields) directory := by
  have given := wantedCertificates_eq_ok_iff.mp wanted
  cases directory with
  | none =>
      cases given
      exact isUpdate_insert fields summaryKey _
  | some directory =>
      obtain ⟨found, rfl, isFound⟩ := given
      exact ⟨found.clientKey, found.clientCertificate, _, isFound,
        isUpdate_setSsl_setSummary _ fields,
        hasSettings_mergedOptions (nodup_sslOptions found caBundle) _⟩

/-- Preparing fails for want of certificates only. -/
theorem prepare_eq_error_iff {input : Json} {error : PrepareError} :
    (prepare workspace caBundle input directory).result = .error error ↔
      containsType Settings.rpmType input = true ∧
        wantedCertificates workspace directory = .error error := by
  rw [result_prepare]
  split
  · next contained => rw [Report.map_eq_error_iff, and_iff_right contained]
  · next absent => exact ⟨nofun, fun both => absurd both.1 absent⟩

end

/-- In an input that was prepared there stands at each hit the completed package.  An input is not
prepared exactly if it contains RPM packages and an entitlement directory is given for which no
certificates are found, either because its pattern is wrong or because there are none. -/
theorem prepare_completes_hits (workspace : Workspace) (caBundle : Path) (input : Json)
    (directory : Option Path) :
    (forall output, (prepare workspace caBundle input directory).result = .ok output ->
      forall position fields, IsHit Settings.rpmType input position fields ->
        exists completed : Json.Fields, output.at? position = some (.object completed) ∧
          completed.get? summaryKey = some (.bool true) ∧
          IsCompleted workspace caBundle fields completed directory) ∧
    forall error, (prepare workspace caBundle input directory).result = .error error ↔
      containsType Settings.rpmType input = true ∧
        exists given, directory = some given ∧
          ((exists fault, Certificates.find workspace given = .error fault ∧
              error = .badPattern fault) ∨
            (Certificates.find workspace given = .ok none ∧
              error = .certificatesMissing given)) := by
  refine ⟨?_, ?_⟩
  · intro output prepared position fields hit
    have detected := hit.detected
    rcases prepare_eq_ok prepared with ⟨absent, -⟩ | ⟨-, certificates, wanted, rfl⟩
    · rw [detected] at absent
      cases absent
    · have completed : IsCompleted workspace caBundle fields _ directory :=
        isCompleted_completion wanted fields
      exact ⟨_, changedAtHits_transform.hit position fields hit, completed.summary, completed⟩
  · intro error
    rw [prepare_eq_error_iff, wantedCertificates_eq_error_iff]

/-- The fields of the package that has connection settings already. -/
def packageWithSettings : Json.Fields :=
  [(typeKey, .string Settings.rpmType), (optionsKey, .object [(sslKey, .object
    [("ca_bundle".toList, .string "old".toList), ("verify".toList, .number (.integer 0))])])]

theorem isHit_packageWithSettings :
    IsHit Settings.rpmType twoPackages [0] packageWithSettings where
  stands := .item rfl .root
  unlisted := fun _ => nofun
  typed := rfl

theorem prepare_completes_hits_registered :
    (prepare registered Settings.caBundle twoPackages (some (ofText "pki".toList))).result =
        .ok twoCompleted ∧
      IsHit Settings.rpmType twoPackages [0] packageWithSettings ∧
      exists completed : Json.Fields, twoCompleted.at? [0] = some (.object completed) ∧
        completed.get? summaryKey = some (.bool true) ∧
        IsCompleted registered Settings.caBundle packageWithSettings completed
          (some (ofText "pki".toList)) :=
  ⟨prepare_registered, isHit_packageWithSettings,
    (prepare_completes_hits registered Settings.caBundle twoPackages (some (ofText "pki".toList))).1
      twoCompleted prepare_registered [0] packageWithSettings isHit_packageWithSettings⟩

end Package
end BuildInputs

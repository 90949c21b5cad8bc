import Mathlib.Data.List.Permutation
import BuildInputs.Package.Rpm
import BuildInputs.Proofs.Package.Changes
import BuildInputs.Proofs.Report

namespace BuildInputs
namespace Package

/-!
# Preparing an input twice

Once it is known which certificates there are, preparing an input is one change of its RPM
packages.  That change keeps what an object counts as, and it makes no difference the second
time: the summary is asked for already, and the settings that are merged in are there.  So an
input that was prepared is prepared, on the same files, and asks for the same packages as before.
-/

open BuildInputs.Path (ofText)

/-- The certificates for the packages of an input, if a directory is given where they must be. -/
def wantedCertificates (workspace : Workspace) :
    Option Path -> Except PrepareError (Option Certificates)
  | none => .ok none
  | some directory => (requireCertificates workspace directory).map some

/-- The change that completes a package. -/
def completion (caBundle : Path) (certificates : Option Certificates) (fields : Json.Fields) :
    Json.Fields :=
  match certificates with
  | none => setSummary fields
  | some certificates => setSsl (certificates.sslOptions caBundle) (setSummary fields)

section

variable {workspace : Workspace} {caBundle : Path} {directory : Option Path}

theorem keepsRole_completion (certificates : Option Certificates) :
    KeepsRole (completion caBundle certificates) := by
  cases certificates with
  | none => exact keepsRole_setSummary
  | some certificates => exact keepsRole_setSummary.comp (keepsRole_setSsl _)

theorem setSummary_of_get? {fields : Json.Fields}
    (asked : fields.get? summaryKey = some (.bool true)) : setSummary fields = fields :=
  Json.Fields.insert_of_get? asked

theorem get?_summaryKey_setSsl (ssl fields : Json.Fields) :
    (setSsl ssl fields).get? summaryKey = fields.get? summaryKey := by
  rw [setSsl_eq_insert, Json.Fields.get?_insert_of_ne (by decide)]

theorem nodup_sslOptions (certificates : Certificates) (caBundle : Path) :
    ((certificates.sslOptions caBundle).map Prod.fst).Nodup := by
  change ["client_key".toList, "client_cert".toList, "ca_bundle".toList].Nodup
  decide

theorem completion_completion (certificates : Option Certificates) (fields : Json.Fields) :
    completion caBundle certificates (completion caBundle certificates fields) =
      completion caBundle certificates fields := by
  have asked : (setSummary fields).get? summaryKey = some (.bool true) :=
    Json.Fields.get?_insert_self fields summaryKey _
  cases certificates with
  | none => exact setSummary_of_get? asked
  | some certificates =>
      have still := (get?_summaryKey_setSsl (certificates.sslOptions caBundle) _).trans asked
      simp only [completion]
      rw [setSummary_of_get? still, setSsl_setSsl (nodup_sslOptions certificates caBundle)]

/-- What preparing comes to, whatever is noted on the way. -/
theorem result_prepare (input : Json) :
    (prepare workspace caBundle input directory).result =
      if containsType Settings.rpmType input then
        (wantedCertificates workspace directory).map fun certificates =>
          transform Settings.rpmType (completion caBundle certificates) input
      else .ok input := by
  rw [prepare]
  split
  · cases directory with
    | none => rfl
    | some directory =>
        simp only [Report.result_bind, Report.result_ofExcept, Report.result_note,
          Report.result_pure, wantedCertificates]
        cases requireCertificates workspace directory with
        | error failure => rfl
        | ok certificates =>
            exact congrArg Except.ok (transform_transform keepsRole_setSummary _ input)
  · rfl

/-- An input without RPM packages is left alone, and any other gets the one change. -/
theorem prepare_eq_ok {input output : Json}
    (prepared : (prepare workspace caBundle input directory).result = .ok output) :
    (containsType Settings.rpmType input = false ∧ output = input) ∨
      (containsType Settings.rpmType input = true ∧
        exists certificates, wantedCertificates workspace directory = .ok certificates ∧
          output = transform Settings.rpmType (completion caBundle certificates) input) := by
  rw [result_prepare] at prepared
  split at prepared
  · next detected =>
      rcases Report.map_eq_ok_iff.mp prepared with ⟨certificates, wanted, rfl⟩
      exact Or.inr ⟨detected, certificates, wanted, rfl⟩
  · next without =>
      cases prepared
      exact Or.inl ⟨Bool.eq_false_iff.mpr without, rfl⟩

theorem containsType_of_prepare {input output : Json}
    (prepared : (prepare workspace caBundle input directory).result = .ok output)
    (target : Text) : containsType target output = containsType target input := by
  rcases prepare_eq_ok prepared with ⟨_, rfl⟩ | ⟨_, certificates, _, rfl⟩
  · rfl
  · exact containsType_transform (keepsRole_completion certificates) _ target input

theorem prepare_of_prepare {input output : Json}
    (prepared : (prepare workspace caBundle input directory).result = .ok output) :
    (prepare workspace caBundle output directory).result = .ok output := by
  have detected := containsType_of_prepare prepared Settings.rpmType
  rw [result_prepare, detected]
  rcases prepare_eq_ok prepared with ⟨without, rfl⟩ | ⟨found, certificates, wanted, rfl⟩
  · rw [without, if_neg Bool.false_ne_true]
  · rw [if_pos found, wanted]
    exact congrArg Except.ok (transform_idempotent (keepsRole_completion certificates)
      (completion_completion certificates) _ input)

theorem same_injectSummary_injectSsl (target : Text) {ssl : Json.Fields} {input : Json}
    (distinct : input.KeysDistinct) (sslDistinct : (Json.object ssl).KeysDistinct) :
    Json.same (injectSummary target (injectSsl target ssl input))
      (injectSsl target ssl (injectSummary target input)) = true := by
  rw [injectSummary, injectSsl, injectSsl, injectSummary, transform_transform (keepsRole_setSsl ssl),
    transform_transform keepsRole_setSummary]
  exact same_transform distinct fun fields => same_setSummary_setSsl sslDistinct

end

/-- Preparing an input that was prepared gives it back as it is, down to the order of keys, and
preparing changes nothing about which types of packages an input contains.  The two changes that
are made can be made in either order in any input, where the results differ in the order of keys
at most. -/
theorem prepare_settles :
    (forall (workspace : Workspace) (caBundle : Path) (input : Json) (directory : Option Path)
      (output : Json), (prepare workspace caBundle input directory).result = .ok output ->
        (prepare workspace caBundle output directory).result = .ok output ∧
          forall target, containsType target output = containsType target input) ∧
    forall (target : Text) (ssl : Json.Fields) (input : Json),
      input.KeysDistinct -> (Json.object ssl).KeysDistinct ->
        Json.same (injectSummary target (injectSsl target ssl input))
          (injectSsl target ssl (injectSummary target input)) = true := by
  refine ⟨?_, ?_⟩
  · intro workspace caBundle input directory output prepared
    exact ⟨prepare_of_prepare prepared, containsType_of_prepare prepared⟩
  · intro target ssl input distinct sslDistinct
    exact same_injectSummary_injectSsl target distinct sslDistinct

/-- A directory with a key and a certificate. -/
def registered : Workspace :=
  let certificates : FileName := ⟨ofText "pki".toList, by decide⟩
  { directory := []
    files := ⟨[([certificates], .directory),
      ([certificates, ⟨ofText "1-key.pem".toList, by decide⟩], .file []),
      ([certificates, ⟨ofText "1.pem".toList, by decide⟩], .file [])]⟩ }

/-- An input with two RPM packages, one of which has connection settings already. -/
def twoPackages : Json :=
  .array [
    .object [(typeKey, .string Settings.rpmType), (optionsKey, .object [(sslKey, .object
      [("ca_bundle".toList, .string "old".toList), ("verify".toList, .number (.integer 0))])])],
    .object [(packagesKey, .array [.object [(typeKey, .string Settings.rpmType)]])]]

/-- The same input with both packages completed. -/
def twoCompleted : Json :=
  .array [
    .object [(typeKey, .string Settings.rpmType), (optionsKey, .object [(sslKey, .object
        [("ca_bundle".toList, .string Settings.caBundle.display),
          ("verify".toList, .number (.integer 0)),
          ("client_key".toList, .string "pki/1-key.pem".toList),
          ("client_cert".toList, .string "pki/1.pem".toList)])]),
      (summaryKey, .bool true)],
    .object [(packagesKey, .array [.object [(typeKey, .string Settings.rpmType),
      (summaryKey, .bool true), (optionsKey, .object [(sslKey, .object
        [("client_key".toList, .string "pki/1-key.pem".toList),
          ("client_cert".toList, .string "pki/1.pem".toList),
          ("ca_bundle".toList, .string Settings.caBundle.display)])])]])]]

/-- The files of the directory. -/
def registeredFiles : Certificates :=
  ⟨ofText "pki/1-key.pem".toList, ofText "pki/1.pem".toList⟩

theorem search_registered (steps : Nat) :
    Glob.search registered (steps + 2) [Path.dot]
        ["pki".toList.map .literal, .anySequence :: ".pem".toList.map .literal] =
      [registeredFiles.clientKey, registeredFiles.clientCertificate] := by
  have name : Glob.literalText? ("pki".toList.map .literal) = some "pki".toList := by rfl
  have there : Glob.isThere registered [Path.dot] (ofText "pki".toList) = true := by cbv
  have path : Glob.entryPath [Path.dot] (ofText "pki".toList) = ofText "pki".toList := by cbv
  have wild : Glob.literalText? (.anySequence :: ".pem".toList.map .literal) = none := by rfl
  have flat : Glob.isRecursive (.anySequence :: ".pem".toList.map .literal) = false := by rfl
  have isDirectory : registered.isDirectory (ofText "pki".toList) = true := by cbv
  have children : Glob.childNames registered (ofText "pki".toList) =
      [ofText "1-key.pem".toList, ofText "1.pem".toList] := by cbv
  simp only [Glob.search, name, there, if_true, path, wild, isDirectory, children, flat,
    Bool.false_eq_true, if_false]
  rfl

theorem requireCertificates_registered :
    requireCertificates registered (ofText "pki".toList) = .ok registeredFiles := by
  have paths : Glob.paths registered (Certificates.patternIn (ofText "pki".toList)) =
      .ok [registeredFiles.clientKey, registeredFiles.clientCertificate] :=
    congrArg Except.ok (search_registered 164)
  rw [requireCertificates, Certificates.find, paths]
  rfl

theorem prepare_registered :
    (prepare registered Settings.caBundle twoPackages (some (ofText "pki".toList))).result =
      .ok twoCompleted := by
  rw [result_prepare, wantedCertificates, requireCertificates_registered]
  rfl

theorem prepare_settles_registered :
    ((prepare registered Settings.caBundle twoPackages (some (ofText "pki".toList))).result =
        .ok twoCompleted ∧
      (prepare registered Settings.caBundle twoCompleted (some (ofText "pki".toList))).result =
        .ok twoCompleted ∧
      forall target, containsType target twoCompleted = containsType target twoPackages) ∧
    twoPackages.KeysDistinct ∧ (Json.object [(sslKey, .null)]).KeysDistinct ∧
      Json.same
        (injectSummary Settings.rpmType (injectSsl Settings.rpmType [(sslKey, .null)] twoPackages))
        (injectSsl Settings.rpmType [(sslKey, .null)]
          (injectSummary Settings.rpmType twoPackages)) = true := by
  have distinct : twoPackages.KeysDistinct := by
    simp only [twoPackages, Json.keysDistinct_array, Json.keysDistinct_object,
      List.forall_mem_cons, List.not_mem_nil, false_implies, implies_true, Json.keysDistinct_string,
      Json.keysDistinct_number, and_true]
    decide
  have sslDistinct : (Json.object [(sslKey, .null)]).KeysDistinct := by
    simp [Json.keysDistinct_object]
  exact ⟨⟨prepare_registered, prepare_settles.1 _ _ _ _ _ prepare_registered⟩, distinct,
    sslDistinct, prepare_settles.2 _ _ _ distinct sslDistinct⟩

end Package
end BuildInputs

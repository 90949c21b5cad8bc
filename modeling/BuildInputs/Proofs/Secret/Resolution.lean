import Mathlib.Data.List.Permutation
import BuildInputs.Proofs.FileSystem.Listing
import BuildInputs.Proofs.Secret.Findings

namespace BuildInputs
namespace SecretMapping

/-!
# What resolving secret directories gives

Resolving is described without its loops.  It succeeds exactly when every directory can be
listed, or is missing and may be, when no link among the entries leads nowhere, and when the ids
of all files together are different.  The result is then the flat list of these files, directory
by directory in the order of the specifications, and within a directory in the order of the
bytes of the names.  In every other case the result is the error of the first finding that is
refused.

A file is reported on a path from the root, and under an id, in which what is shown for its name
stands last.  This is the name itself if it is a text.
-/

open BuildInputs.Path (ofText)

/-- The path from the root on which a name in a directory is reported: the names of the current
directory if the directory is given relative to it, the pieces of the directory's path but for those
that are empty or `.`, and the text that is shown for the name. -/
def sourceOf (workspace : Workspace) (src : Path) (name : FileName) : Path :=
  Path.leading src ++ Text.joinWith Path.slash
    ((if Path.isAbsolute src then [] else workspace.directory.map FileName.bytes) ++
      ((Text.fields Path.slash src).filter (fun piece => piece ≠ [] ∧ piece ≠ [Path.dot]) ++
        [ofText name.display]))

/-- The secret that a directory entry stands for. -/
def ofName (workspace : Workspace) (spec : SecretSpec) (name : FileName) : SecretMapping :=
  ⟨sourceOf workspace spec.src name, cleanId spec.label name.display⟩

/-- The entries of a directory, or none if it cannot be listed. -/
def entriesOf (workspace : Workspace) (spec : SecretSpec) : List (FileName × Node) :=
  match workspace.list spec.src with
  | .ok entries => entries
  | .error _ => []

/-- Whether an entry is a file or a link that leads to one. -/
def leadsToFile (workspace : Workspace) (spec : SecretSpec) (entry : FileName × Node) : Bool :=
  match entry.2 with
  | .file _ => true
  | .link _ =>
      match workspace.status (Path.push spec.src entry.1.bytes) with
      | .ok (.file _) => true
      | _ => false
  | _ => false

/-- The secrets of one directory. -/
def inDirectory (workspace : Workspace) (spec : SecretSpec) : List SecretMapping :=
  ((entriesOf workspace spec).filter (leadsToFile workspace spec)).map fun entry =>
    ofName workspace spec entry.1

/-- The secrets of all directories, in order. -/
def inDirectories (workspace : Workspace) (specs : List SecretSpec) : List SecretMapping :=
  specs.flatMap (inDirectory workspace)

/-- A directory can be listed, or it is missing and may be. -/
def Readable (workspace : Workspace) (spec : SecretSpec) : Prop :=
  (exists entries, workspace.list spec.src = .ok entries) ∨
    (workspace.list spec.src = .error .notFound ∧ spec.optional = true)

/-- An entry that is a link leads somewhere. -/
def Unbroken (workspace : Workspace) (spec : SecretSpec) (entry : FileName × Node) : Prop :=
  forall target, entry.2 = .link target ->
    exists node, workspace.status (Path.push spec.src entry.1.bytes) = .ok node

/-! ## The row of findings -/

/-- What one entry contributes. -/
def findingsOfEntry (workspace : Workspace) (spec : SecretSpec) (entry : FileName × Node) :
    List Finding :=
  match entry.2 with
  | .file _ => [.secret (ofName workspace spec entry.1)]
  | .link _ =>
      let path := Path.push spec.src entry.1.bytes
      match workspace.status path with
      | .ok (.file _) => [.secret (ofName workspace spec entry.1)]
      | .ok _ => []
      | .error failure => [.broken path failure]
  | _ => []

/-- What one directory contributes. -/
def findingsOfSpec (workspace : Workspace) (spec : SecretSpec) : List Finding :=
  match workspace.list spec.src with
  | .ok entries => entries.flatMap (findingsOfEntry workspace spec)
  | .error failure =>
      if failure = .notFound ∧ spec.optional then [] else [.unreadable spec.src failure]

/-- What all directories contribute, in order. -/
def findings (workspace : Workspace) (specs : List SecretSpec) : List Finding :=
  specs.flatMap (findingsOfSpec workspace)

theorem findings_cons_of_list {workspace : Workspace} {spec : SecretSpec}
    {specs : List SecretSpec} {entries : List (FileName × Node)}
    (listed : workspace.list spec.src = .ok entries) :
    findings workspace (spec :: specs) =
      entries.flatMap (findingsOfEntry workspace spec) ++ findings workspace specs := by
  rw [findings, List.flatMap_cons, findingsOfSpec, listed]
  rfl

/-- What is shown for a name could be one. -/
theorem plain_display (name : FileName) : Path.IsPlain (ofText name.display) :=
  Path.isPlain_shown (FileSystem.plain_of_name name)

theorem id_ofName (workspace : Workspace) (spec : SecretSpec) (name : FileName) :
    secretId spec.idPrefix name.display = (ofName workspace spec name).id := by
  rw [spec.idPrefix_eq_label, secretId_eq_cleanId (plain_display name)]
  rfl

theorem src_ofName (workspace : Workspace) (spec : SecretSpec) (name : FileName) :
    Path.push (Path.absolute (Location.path workspace.directory) spec.src)
      (ofText name.display) = (ofName workspace spec name).src := by
  rw [Location.push_absolute_path _ _ (plain_display name), Path.countingPieces,
    ← Path.decide_eq_counts]
  rfl

/-- There are three kinds of entries: secrets, entries that are passed over and broken links. -/
theorem entry_cases (workspace : Workspace) (spec : SecretSpec) (entry : FileName × Node) :
    (isSecret workspace spec.src entry.1 entry.2 = .ok true ∧
        findingsOfEntry workspace spec entry = [.secret (ofName workspace spec entry.1)] ∧
        leadsToFile workspace spec entry = true ∧ Unbroken workspace spec entry) ∨
      (isSecret workspace spec.src entry.1 entry.2 = .ok false ∧
        findingsOfEntry workspace spec entry = [] ∧
        leadsToFile workspace spec entry = false ∧ Unbroken workspace spec entry) ∨
      exists link failure,
        isSecret workspace spec.src entry.1 entry.2 = .error (.secretUnreadable link failure) ∧
        findingsOfEntry workspace spec entry = [.broken link failure] ∧
        leadsToFile workspace spec entry = false ∧ ¬ Unbroken workspace spec entry := by
  rcases entry with ⟨name, node⟩
  have noLink : (forall target, node ≠ .link target) -> Unbroken workspace spec (name, node) :=
    fun other target same => absurd same (other target)
  cases node with
  | file contents => exact Or.inl ⟨rfl, rfl, rfl, noLink fun _ => Node.noConfusion⟩
  | directory | pipe =>
      exact Or.inr (Or.inl ⟨rfl, rfl, rfl, noLink fun _ => Node.noConfusion⟩)
  | link target =>
      cases reached : workspace.status (Path.push spec.src name.bytes) with
      | error failure =>
          refine Or.inr (Or.inr ⟨Path.push spec.src name.bytes, failure, ?_, ?_, ?_, ?_⟩)
          · simp only [isSecret, reached]
          · simp only [findingsOfEntry, reached]
          · simp only [leadsToFile, reached]
          · intro unbroken
            rcases unbroken target rfl with ⟨node, found⟩
            rw [reached] at found
            cases found
      | ok node =>
          have unbroken : Unbroken workspace spec (name, .link target) :=
            fun _ _ => ⟨node, reached⟩
          cases node with
          | file contents =>
              refine Or.inl ⟨?_, ?_, ?_, unbroken⟩
              · simp only [isSecret, reached]
              · simp only [findingsOfEntry, reached]
              · simp only [leadsToFile, reached]
          | directory | pipe | link =>
              refine Or.inr (Or.inl ⟨?_, ?_, ?_, unbroken⟩)
              · simp only [isSecret, reached]
              · simp only [findingsOfEntry, reached]
              · simp only [leadsToFile, reached]

/-- The entries of a directory are checked in the order of the listing. -/
theorem result_ofEntries (workspace : Workspace) (spec : SecretSpec) (taken : List Text)
    (entries : List (FileName × Node)) :
    (ofEntries workspace spec taken entries).result =
      Finding.check taken (entries.flatMap (findingsOfEntry workspace spec)) := by
  induction entries generalizing taken with
  | nil => rfl
  | cons entry entries ih =>
      rw [List.flatMap_cons]
      rcases entry_cases workspace spec entry with
        ⟨kind, found, _⟩ | ⟨kind, found, _⟩ | ⟨link, failure, kind, found, _⟩
      · rw [ofEntries, kind, found, List.singleton_append]
        dsimp only
        rw [id_ofName, src_ofName]
        split
        · next used =>
            rw [Finding.check_secret_of_taken used]
            rfl
        · next unused =>
            rw [Finding.check_secret_of_new unused, ← ih]
            simp only [Report.result_bind, Report.result_note, Except.bind, Report.result_pure]
            cases (ofEntries workspace spec _ entries).result <;> rfl
      · rw [ofEntries, kind, found, List.nil_append]
        exact ih taken
      · rw [ofEntries, kind, found]
        rfl

/-- The directories are checked in the order of the specifications. -/
theorem result_ofSpecs (workspace : Workspace) (taken : List Text) (specs : List SecretSpec) :
    (ofSpecs workspace taken specs).result = Finding.check taken (findings workspace specs) := by
  induction specs generalizing taken with
  | nil => rfl
  | cons spec specs ih =>
      rw [findings, List.flatMap_cons, ← findings, ofSpecs, findingsOfSpec]
      cases listed : workspace.list spec.src with
      | ok entries =>
          simp only [Report.result_bind, result_ofEntries, ih, Report.result_pure]
          rw [Finding.check_append]
          rfl
      | error failure =>
          have agree : (failure = .notFound && spec.optional) = true ↔
              failure = .notFound ∧ spec.optional = true := by
            rw [Bool.and_eq_true, decide_eq_true_iff]
          by_cases skipped : failure = .notFound ∧ spec.optional = true
          · dsimp only
            rw [if_pos (agree.mpr skipped), if_pos skipped, List.nil_append, Report.result_bind]
            exact ih taken
          · dsimp only
            rw [if_neg (skipped ∘ agree.mp), if_neg skipped]
            rfl

/-! ## Which findings there are -/

/-- An entry contributes only secrets unless it is a broken link. -/
theorem findingsOfEntry_secret_iff {workspace : Workspace} {spec : SecretSpec}
    {entry : FileName × Node} :
    (forall finding, finding ∈ findingsOfEntry workspace spec entry ->
        finding.mapping?.isSome = true) ↔ Unbroken workspace spec entry := by
  rcases entry_cases workspace spec entry with
    ⟨_, found, _, unbroken⟩ | ⟨_, found, _, unbroken⟩ | ⟨link, failure, _, found, _, broken⟩
  · rw [found]
    refine ⟨fun _ => unbroken, fun _ finding member => ?_⟩
    rw [List.mem_singleton.mp member]
    rfl
  · rw [found]
    exact ⟨fun _ => unbroken, fun _ finding member => absurd member List.not_mem_nil⟩
  · rw [found]
    refine ⟨fun secrets => ?_, fun unbroken => absurd unbroken broken⟩
    cases secrets _ List.mem_cons_self

theorem findingsOfSpec_secret_iff {workspace : Workspace} {spec : SecretSpec} :
    (forall finding, finding ∈ findingsOfSpec workspace spec ->
        finding.mapping?.isSome = true) ↔
      Readable workspace spec ∧
        forall entry, entry ∈ entriesOf workspace spec -> Unbroken workspace spec entry := by
  rw [findingsOfSpec, Readable, entriesOf]
  cases workspace.list spec.src with
  | ok entries =>
      simp only [List.mem_flatMap]
      constructor
      · intro secrets
        refine ⟨Or.inl ⟨entries, rfl⟩, fun entry member => findingsOfEntry_secret_iff.mp ?_⟩
        exact fun finding inside => secrets finding ⟨entry, member, inside⟩
      · rintro ⟨_, unbroken⟩ finding ⟨entry, member, inside⟩
        exact findingsOfEntry_secret_iff.mpr (unbroken entry member) finding inside
  | error failure =>
      dsimp only
      split
      · next skipped =>
          refine ⟨fun _ => ⟨Or.inr ⟨congrArg _ skipped.1, skipped.2⟩, ?_⟩, ?_⟩
          · exact fun entry member => absurd member List.not_mem_nil
          · exact fun _ finding member => absurd member List.not_mem_nil
      · next offence =>
          constructor
          · intro secrets
            cases secrets _ List.mem_cons_self
          · rintro ⟨⟨entries, listed⟩ | ⟨missing, allowed⟩, _⟩
            · cases listed
            · exact absurd ⟨Except.error.inj missing, allowed⟩ offence

theorem filterMap_findingsOfEntry (workspace : Workspace) (spec : SecretSpec)
    (entry : FileName × Node) :
    (findingsOfEntry workspace spec entry).filterMap Finding.mapping? =
      if leadsToFile workspace spec entry then [ofName workspace spec entry.1] else [] := by
  rcases entry_cases workspace spec entry with
    ⟨_, found, file, _⟩ | ⟨_, found, file, _⟩ | ⟨link, failure, _, found, file, _⟩
  · rw [found, file]
    rfl
  · rw [found, file]
    rfl
  · rw [found, file]
    rfl

/-- The secrets among the findings of a directory are those of its files. -/
theorem filterMap_findingsOfSpec (workspace : Workspace) (spec : SecretSpec) :
    (findingsOfSpec workspace spec).filterMap Finding.mapping? = inDirectory workspace spec := by
  rw [findingsOfSpec, inDirectory, entriesOf]
  cases workspace.list spec.src with
  | ok entries =>
      dsimp only
      induction entries with
      | nil => rfl
      | cons entry entries ih =>
          rw [List.flatMap_cons, List.filterMap_append, filterMap_findingsOfEntry, ih,
            List.filter_cons]
          split <;> rfl
  | error failure =>
      dsimp only
      split <;> rfl

/-- The secrets among all findings are the flat list. -/
theorem filterMap_findings (workspace : Workspace) (specs : List SecretSpec) :
    (findings workspace specs).filterMap Finding.mapping? = inDirectories workspace specs := by
  have each : (fun spec => (findingsOfSpec workspace spec).filterMap Finding.mapping?) =
      inDirectory workspace := by
    funext spec
    exact filterMap_findingsOfSpec workspace spec
  rw [findings, List.filterMap_flatMap, each, inDirectories]

/-- The findings are all secrets if nothing is wrong, and then they are the flat list. -/
theorem findings_eq_map_secret_iff {workspace : Workspace} {specs : List SecretSpec}
    {mappings : List SecretMapping} :
    findings workspace specs = mappings.map .secret ↔
      (forall spec, spec ∈ specs -> Readable workspace spec) ∧
        (forall spec, spec ∈ specs -> forall entry, entry ∈ entriesOf workspace spec ->
          Unbroken workspace spec entry) ∧
        mappings = inDirectories workspace specs := by
  rw [Finding.eq_map_secret_iff, filterMap_findings]
  constructor
  · rintro ⟨secrets, same⟩
    have inSpec : forall spec, spec ∈ specs -> Readable workspace spec ∧
        forall entry, entry ∈ entriesOf workspace spec -> Unbroken workspace spec entry := by
      intro spec member
      apply findingsOfSpec_secret_iff.mp
      exact fun finding inside => secrets finding (List.mem_flatMap.mpr ⟨spec, member, inside⟩)
    exact ⟨fun spec member => (inSpec spec member).1, fun spec member => (inSpec spec member).2,
      same.symm⟩
  · rintro ⟨readable, unbroken, same⟩
    refine ⟨fun finding inside => ?_, same.symm⟩
    rcases List.mem_flatMap.mp inside with ⟨spec, member, inside⟩
    exact findingsOfSpec_secret_iff.mpr ⟨readable spec member, unbroken spec member⟩ finding inside

/-! ## The result -/

/-- Resolving succeeds exactly if every directory can be listed, or is missing and may be, if
every link in a directory leads somewhere, and if all ids are different; the result is then the
flat list of the files.  Otherwise it is the error of the first finding, in the same order, that
is no secret or has an id that is taken by an earlier one.  What is listed is, in the order of the
names, everything that stands in the directory. -/
theorem resolve_result_iff (workspace : Workspace) (specs : List SecretSpec) :
    (forall mappings, (resolve workspace specs).result = .ok mappings ↔
        (forall spec, spec ∈ specs -> Readable workspace spec) ∧
          (forall spec, spec ∈ specs -> forall entry, entry ∈ entriesOf workspace spec ->
            Unbroken workspace spec entry) ∧
          ((inDirectories workspace specs).map (·.id)).Nodup ∧
          mappings = inDirectories workspace specs) ∧
      (forall error, (resolve workspace specs).result = .error error ↔
        exists (before : List SecretMapping) (finding : Finding) (after : List Finding),
          findings workspace specs = before.map .secret ++ finding :: after ∧
            (before.map (·.id)).Nodup ∧ finding.Refuses (before.map (·.id)) error) ∧
      (forall spec, spec ∈ specs -> forall entries, workspace.list spec.src = .ok entries ->
        workspace.IsListing spec.src entries) := by
  rw [resolve, result_ofSpecs]
  refine ⟨fun mappings => ?_, fun error => ?_, fun spec _ entries listed => ?_⟩
  · rw [Finding.check_eq_ok_iff, findings_eq_map_secret_iff]
    constructor
    · rintro ⟨⟨readable, unbroken, same⟩, different, _⟩
      exact ⟨readable, unbroken, same ▸ different, same⟩
    · rintro ⟨readable, unbroken, different, same⟩
      exact ⟨⟨readable, unbroken, same⟩, same ▸ different, fun _ _ => List.not_mem_nil⟩
  · rw [Finding.check_eq_error_iff]
    constructor
    · rintro ⟨before, finding, after, spelled, accepted, refused⟩
      rw [List.append_nil] at refused
      exact ⟨before, finding, after, spelled, (Finding.check_eq_ok_iff.mp accepted).2.1, refused⟩
    · rintro ⟨before, finding, after, spelled, different, refused⟩
      rw [← List.append_nil (before.map (·.id))] at refused
      exact ⟨before, finding, after, spelled,
        Finding.check_secrets different fun _ _ => List.not_mem_nil, refused⟩
  · exact Workspace.isListing_of_list listed

/-- A current directory, and in it a directory with a file, a link to the file and another
directory. -/
def nearby : Workspace :=
  let run : FileName := ⟨ofText "run".toList, by decide⟩
  let pins : FileName := ⟨ofText "pins".toList, by decide⟩
  { directory := [run]
    files := ⟨[([run], .directory), ([run, pins], .directory),
      ([run, pins, ⟨ofText "pin".toList, by decide⟩], .file []),
      ([run, pins, ⟨ofText "old".toList, by decide⟩], .directory),
      ([run, pins, ⟨ofText "main".toList, by decide⟩], .link (ofText "pin".toList))]⟩ }

/-- The directory, relative to the current one. -/
def nearbySpec : SecretSpec :=
  ⟨ofText "./pins//".toList, none, false⟩

theorem resolve_result_iff_nearby :
    (resolve nearby [nearbySpec]).result =
      .ok [⟨ofText "/run/pins/main".toList, "pins/main".toList⟩,
        ⟨ofText "/run/pins/pin".toList, "pins/pin".toList⟩] := by
  have listed : nearby.list nearbySpec.src =
      .ok [(⟨ofText "main".toList, by decide⟩, .link (ofText "pin".toList)),
        (⟨ofText "old".toList, by decide⟩, .directory),
        (⟨ofText "pin".toList, by decide⟩, .file [])] := by cbv
  have reached : nearby.status (Path.push nearbySpec.src (ofText "main".toList)) =
      .ok (.file []) := by cbv
  have leads : leadsToFile nearby nearbySpec
      (⟨ofText "main".toList, by decide⟩, .link (ofText "pin".toList)) = true := by
    rw [leadsToFile, reached]
  have found : inDirectories nearby [nearbySpec] =
      [⟨ofText "/run/pins/main".toList, "pins/main".toList⟩,
        ⟨ofText "/run/pins/pin".toList, "pins/pin".toList⟩] := by
    rw [inDirectories, List.flatMap_singleton, inDirectory, entriesOf, listed]
    dsimp only
    rw [List.filter_cons_of_pos leads]
    rfl
  refine ((resolve_result_iff nearby [nearbySpec]).1 _).mpr ⟨?_, ?_, ?_, found.symm⟩
  · exact List.forall_mem_singleton.mpr (.inl ⟨_, listed⟩)
  · refine List.forall_mem_singleton.mpr fun entry member target same => ⟨.file [], ?_⟩
    rw [entriesOf, listed] at member
    simp only [List.mem_cons, List.not_mem_nil, or_false] at member
    rcases member with rfl | rfl | rfl
    · exact reached
    · cases same
    · cases same
  · rw [found]
    decide

end SecretMapping
end BuildInputs

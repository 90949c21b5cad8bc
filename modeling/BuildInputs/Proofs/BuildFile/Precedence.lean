import BuildInputs.Proofs.BuildFile.Containment

namespace BuildInputs
namespace BuildFileSearch

/-!
# The first candidate that is there decides

The candidates of a search are in order: a Containerfile comes before a Dockerfile, and the
context before the source directory itself.  A candidate that is missing is passed over.  The
first one that is not decides the search for good, whether it is a build file, lies outside of the
source directory or cannot be looked at, and nothing that stands in the later places can change
that.  So the order of the build files is stronger than the order of the places.
-/

open BuildInputs.Path (ofText)

/-- Nothing is where a path leads. -/
def IsAbsent (workspace : Workspace) (path : Path) : Prop :=
  workspace.locate path = .error .notFound

/-- The build files to try and where, in the order in which they are preferred. -/
def preferences (search : BuildFileSearch) (boundary : Path) : List (Path × Path) :=
  let context :=
    Path.joinLexically boundary (if search.context = [] then [Path.dot] else search.context)
  match search.buildFile with
  | some buildFile =>
      [(buildFile, Path.joinLexically context buildFile),
        (buildFile, Path.joinLexically boundary buildFile)]
  | none =>
      [(ofText "./Containerfile".toList,
          Path.joinLexically context (ofText "Containerfile".toList)),
        (ofText "./Containerfile".toList,
          Path.joinLexically boundary (ofText "Containerfile".toList)),
        (ofText "./Dockerfile".toList, Path.joinLexically context (ofText "Dockerfile".toList)),
        (ofText "./Dockerfile".toList, Path.joinLexically boundary (ofText "Dockerfile".toList))]

/-- What a candidate that is there comes to: a build file if its links stay in the source
directory. -/
def verdict (workspace : Workspace) (boundary : Location) (candidate : Path × Path) :
    Except InputError (Option Path) :=
  match workspace.locate candidate.2 with
  | .error failure => .error (.linkUnresolved candidate.2 failure)
  | .ok location =>
      if boundary <+: location then .ok (some location.path)
      else .error (.outsideSource candidate.1 location.path boundary.path)

/-- The same search for a given build file. -/
def forBuildFile (search : BuildFileSearch) (buildFile : Path) : BuildFileSearch :=
  { search with buildFile := some buildFile }

section

variable {workspace : Workspace} {search : BuildFileSearch} {boundary : Location}

/-- The dot in front of a default build file names no other place. -/
theorem candidates_eq_preferences (search : BuildFileSearch) (boundary : Path) :
    search.candidates boundary = search.preferences boundary := by
  obtain ⟨source, context, buildFile⟩ := search
  cases buildFile <;> rfl

theorem candidates_forBuildFile (unnamed : search.buildFile = none) (boundary : Path) :
    search.candidates boundary =
      (search.forBuildFile (ofText "./Containerfile".toList)).candidates boundary ++
        (search.forBuildFile (ofText "./Dockerfile".toList)).candidates boundary := by
  obtain ⟨source, context, buildFile⟩ := search
  cases unnamed
  rfl

/-! ## One candidate after another -/

theorem firstPresent_of_absent {candidate : Path × Path} (absent : IsAbsent workspace candidate.2)
    (boundary : Path) (others : List (Path × Path)) :
    firstPresent workspace boundary (candidate :: others) =
      firstPresent workspace boundary others := by
  rw [firstPresent, resolvePath, absent]

theorem resolvePath_of_failure {path : Path} {failure : Failure}
    (failed : workspace.locate path = .error failure) (found : failure ≠ .notFound) :
    resolvePath workspace path = .error (.linkUnresolved path failure) := by
  rw [resolvePath, failed]
  cases failure with
  | notFound => exact absurd rfl found
  | _ => rfl

theorem result_firstPresent_of_present {candidate : Path × Path}
    (present : ¬ IsAbsent workspace candidate.2) (others : List (Path × Path)) :
    (firstPresent workspace boundary.path (candidate :: others)).result =
      verdict workspace boundary candidate := by
  rw [firstPresent, verdict]
  cases located : workspace.locate candidate.2 with
  | error failure =>
      have found : failure ≠ .notFound := by
        rintro rfl
        exact present located
      rw [resolvePath_of_failure located found]
      rfl
  | ok location =>
      rw [resolvePath, located]
      dsimp only
      by_cases inside : boundary <+: location
      · rw [if_pos inside, if_pos (Location.isContained_path_iff.mpr inside)]
        rfl
      · rw [if_neg inside, if_neg (fun contained =>
          inside (Location.isContained_path_iff.mp contained))]
        rfl

theorem verdict_ne_none (candidate : Path × Path) :
    verdict workspace boundary candidate ≠ .ok none := by
  rw [verdict]
  split
  · exact nofun
  · split <;> exact nofun

theorem firstPresent_append_of_absent {before : List (Path × Path)}
    (absent : forall candidate, candidate ∈ before -> IsAbsent workspace candidate.2)
    (boundary : Path) (others : List (Path × Path)) :
    firstPresent workspace boundary (before ++ others) =
      firstPresent workspace boundary others := by
  induction before with
  | nil => rfl
  | cons candidate before ih =>
      rw [List.forall_mem_cons] at absent
      rw [List.cons_append, firstPresent_of_absent absent.1, ih absent.2]

/-- Either every candidate is missing or there is a first one that is not. -/
theorem absent_or_exists_first (workspace : Workspace) (candidates : List (Path × Path)) :
    (forall candidate, candidate ∈ candidates -> IsAbsent workspace candidate.2) ∨
      exists before candidate after, candidates = before ++ candidate :: after ∧
        (forall earlier, earlier ∈ before -> IsAbsent workspace earlier.2) ∧
        ¬ IsAbsent workspace candidate.2 := by
  induction candidates with
  | nil => exact Or.inl fun _ impossible => absurd impossible List.not_mem_nil
  | cons head others ih =>
      by_cases absent : IsAbsent workspace head.2
      · rcases ih with all | ⟨before, candidate, after, rfl, earlier, present⟩
        · exact Or.inl (List.forall_mem_cons.mpr ⟨absent, all⟩)
        · exact Or.inr ⟨head :: before, candidate, after, rfl,
            List.forall_mem_cons.mpr ⟨absent, earlier⟩, present⟩
      · exact Or.inr ⟨[], head, others, rfl,
          fun _ impossible => absurd impossible List.not_mem_nil, absent⟩

theorem result_firstPresent_eq_none_iff {candidates : List (Path × Path)} :
    (firstPresent workspace boundary.path candidates).result = .ok none ↔
      forall candidate, candidate ∈ candidates -> IsAbsent workspace candidate.2 := by
  constructor
  · intro unfound
    rcases absent_or_exists_first workspace candidates with
      all | ⟨before, candidate, after, rfl, earlier, present⟩
    · exact all
    · rw [firstPresent_append_of_absent earlier, result_firstPresent_of_present present] at unfound
      exact absurd unfound (verdict_ne_none candidate)
  · intro absent
    rw [← List.append_nil candidates, firstPresent_append_of_absent absent]
    rfl

/-- Later candidates count only if all earlier ones are missing. -/
theorem result_firstPresent_append (workspace : Workspace) (boundary : Location)
    (first second : List (Path × Path)) :
    (firstPresent workspace boundary.path (first ++ second)).result =
      match (firstPresent workspace boundary.path first).result with
      | .ok none => (firstPresent workspace boundary.path second).result
      | decided => decided := by
  rcases absent_or_exists_first workspace first with
    all | ⟨before, candidate, after, rfl, earlier, present⟩
  · rw [firstPresent_append_of_absent all, result_firstPresent_eq_none_iff.mpr all]
  · rw [List.append_assoc, List.cons_append, firstPresent_append_of_absent earlier,
      firstPresent_append_of_absent earlier, result_firstPresent_of_present present,
      result_firstPresent_of_present present]
    split
    · next unfound => exact absurd unfound (verdict_ne_none candidate)
    · rfl

/-! ## The whole search -/

theorem result_locate_of_located (named : search.source ≠ [])
    (located : workspace.locate search.source = .ok boundary) :
    (search.locate workspace).result =
      (firstPresent workspace boundary.path (search.preferences boundary.path)).result := by
  rw [result_locate workspace search named, located, ← candidates_eq_preferences]

theorem result_locate_of_first {before after : List (Path × Path)} {candidate : Path × Path}
    (named : search.source ≠ []) (located : workspace.locate search.source = .ok boundary)
    (ordered : search.preferences boundary.path = before ++ candidate :: after)
    (absent : forall earlier, earlier ∈ before -> IsAbsent workspace earlier.2)
    (present : ¬ IsAbsent workspace candidate.2) :
    (search.locate workspace).result = verdict workspace boundary candidate := by
  rw [result_locate_of_located named located, ordered, firstPresent_append_of_absent absent,
    result_firstPresent_of_present present]

theorem result_locate_unnamed (named : search.source ≠ []) (unnamed : search.buildFile = none) :
    (search.locate workspace).result =
      match ((search.forBuildFile (ofText "./Containerfile".toList)).locate workspace).result with
      | .ok none => ((search.forBuildFile (ofText "./Dockerfile".toList)).locate workspace).result
      | decided => decided := by
  have same : forall buildFile, (search.forBuildFile buildFile).source = search.source :=
    fun _ => rfl
  rw [result_locate workspace search named,
    result_locate workspace (search.forBuildFile (ofText "./Containerfile".toList)) named,
    result_locate workspace (search.forBuildFile (ofText "./Dockerfile".toList)) named, same, same]
  cases workspace.locate search.source with
  | error failure => rfl
  | ok boundary =>
      dsimp only
      rw [candidates_forBuildFile unnamed, result_firstPresent_append]

end

/-- A search in a source directory that is there finds nothing exactly when all candidates are
missing.  Otherwise the first candidate that is not missing decides it, and it is decided the same
way on any files that agree about the source directory and the candidates up to that one.  Where
no build file is named, a Dockerfile is looked for only if a Containerfile is missing in both
places. -/
theorem locate_first_decides {workspace : Workspace} {search : BuildFileSearch}
    {boundary : Location} (named : search.source ≠ [])
    (located : workspace.locate search.source = .ok boundary) :
    ((search.locate workspace).result = .ok none ↔
      forall candidate, candidate ∈ search.preferences boundary.path ->
        IsAbsent workspace candidate.2) ∧
    (forall before candidate after,
      search.preferences boundary.path = before ++ candidate :: after ->
      (forall earlier, earlier ∈ before -> IsAbsent workspace earlier.2) ->
      ¬ IsAbsent workspace candidate.2 ->
        (search.locate workspace).result = verdict workspace boundary candidate ∧
        forall other : Workspace, other.locate search.source = .ok boundary ->
          (forall early, early ∈ before ++ [candidate] ->
            other.locate early.2 = workspace.locate early.2) ->
          (search.locate other).result = (search.locate workspace).result) ∧
    (search.buildFile = none ->
      (search.locate workspace).result =
        match ((search.forBuildFile (ofText "./Containerfile".toList)).locate workspace).result with
        | .ok none =>
            ((search.forBuildFile (ofText "./Dockerfile".toList)).locate workspace).result
        | decided => decided) := by
  refine ⟨?_, ?_, result_locate_unnamed named⟩
  · rw [result_locate_of_located named located]
    exact result_firstPresent_eq_none_iff
  · intro before candidate after ordered absent present
    have decided := result_locate_of_first named located ordered absent present
    refine ⟨decided, fun other otherLocated agree => ?_⟩
    have here := agree candidate List.mem_concat_self
    have otherAbsent : forall earlier, earlier ∈ before -> IsAbsent other earlier.2 :=
      fun earlier member => (agree earlier (List.mem_append_left _ member)).trans
        (absent earlier member)
    have otherPresent : ¬ IsAbsent other candidate.2 := fun missing =>
      present (here.symm.trans missing)
    rw [decided, result_locate_of_first named otherLocated ordered otherAbsent otherPresent,
      verdict, verdict, here]

theorem isName_dockerfile : FileName.IsName (ofText "Dockerfile".toList) := by
  decide

/-- A source directory with a Containerfile in it, and a context in which a Dockerfile leads out of
the source directory. -/
def strayDockerfile : Workspace :=
  let tree : FileName := ⟨ofText "tree".toList, by decide⟩
  let inner : FileName := ⟨ofText "inner".toList, by decide⟩
  { directory := []
    files := ⟨[([tree], .directory), ([tree, inner], .directory),
      ([tree, inner, ⟨ofText "Dockerfile".toList, isName_dockerfile⟩],
        .link (ofText "/etc".toList)),
      ([tree, ⟨ofText "Containerfile".toList, by decide⟩], .file []),
      ([⟨ofText "etc".toList, by decide⟩], .directory)]⟩ }

/-- A search in that context. -/
def straySearch : BuildFileSearch where
  source := ofText "tree".toList
  context := ofText "inner".toList

/-- The same files with the stray Dockerfile taken away. -/
def noDockerfile : Workspace :=
  { strayDockerfile with
    files := strayDockerfile.files.clear
      [⟨ofText "tree".toList, by decide⟩, ⟨ofText "inner".toList, by decide⟩,
        ⟨ofText "Dockerfile".toList, isName_dockerfile⟩] }

theorem locate_first_decides_stray :
    straySearch.source ≠ [] ∧
      strayDockerfile.locate straySearch.source = .ok [⟨ofText "tree".toList, by decide⟩] ∧
      (straySearch.locate strayDockerfile).result =
        .ok (some (ofText "/tree/Containerfile".toList)) ∧
      (straySearch.locate noDockerfile).result = (straySearch.locate strayDockerfile).result ∧
      ((straySearch.forBuildFile (ofText "./Dockerfile".toList)).locate strayDockerfile).result =
        .error (.outsideSource (ofText "./Dockerfile".toList) (ofText "/etc".toList)
          (ofText "/tree".toList)) := by
  have named : straySearch.source ≠ [] := by decide
  have located : strayDockerfile.locate straySearch.source =
      .ok [⟨ofText "tree".toList, by decide⟩] := by
    cbv
  have ordered : straySearch.preferences (ofText "/tree".toList) =
      [(ofText "./Containerfile".toList, ofText "/tree/inner/Containerfile".toList)] ++
        (ofText "./Containerfile".toList, ofText "/tree/Containerfile".toList) ::
          [(ofText "./Dockerfile".toList, ofText "/tree/inner/Dockerfile".toList),
            (ofText "./Dockerfile".toList, ofText "/tree/Dockerfile".toList)] := by
    rfl
  have absent : IsAbsent strayDockerfile (ofText "/tree/inner/Containerfile".toList) := by
    unfold IsAbsent
    cbv
  have found : strayDockerfile.locate (ofText "/tree/Containerfile".toList) =
      .ok [⟨ofText "tree".toList, by decide⟩, ⟨ofText "Containerfile".toList, by decide⟩] := by
    cbv
  obtain ⟨-, decides, -⟩ := locate_first_decides named located
  obtain ⟨decided, settled⟩ := decides _ _ _ ordered (by simpa using absent)
    (fun missing => by cases found.symm.trans missing)
  refine ⟨named, located, ?_, settled noDockerfile ?_ ?_, ?_⟩
  · rw [decided, verdict, found]
    rfl
  · cbv
  · simp only [List.cons_append, List.nil_append, List.forall_mem_cons, List.not_mem_nil,
      false_implies, implies_true, and_true]
    exact ⟨by rw [absent]; cbv, by rw [found]; cbv⟩
  · have alone : (straySearch.forBuildFile (ofText "./Dockerfile".toList)).preferences
        (ofText "/tree".toList) =
          [] ++ (ofText "./Dockerfile".toList, ofText "/tree/inner/Dockerfile".toList) ::
            [(ofText "./Dockerfile".toList, ofText "/tree/Dockerfile".toList)] := by
      rfl
    have stray : strayDockerfile.locate (ofText "/tree/inner/Dockerfile".toList) =
        .ok [⟨ofText "etc".toList, by decide⟩] := by
      cbv
    have present : ¬IsAbsent strayDockerfile (ofText "/tree/inner/Dockerfile".toList) :=
      fun missing => by cases stray.symm.trans missing
    refine (@result_locate_of_first _ (straySearch.forBuildFile _) _ _ _ _ named located alone
      (fun _ member => absurd member List.not_mem_nil) present).trans ?_
    rw [verdict, stray]
    rfl

end BuildFileSearch
end BuildInputs

import BuildInputs.Proofs.BuildFile.Precedence
import BuildInputs.Proofs.FileSystem.Linkless
import BuildInputs.Proofs.Path.Inside

namespace BuildInputs
namespace BuildFileSearch

/-!
# No false alarms

A search that reports a way out of the source directory has met a link or was asked to leave.  With
no link below the source directory, and with a context and a build file that never take back more
names than they have, every candidate is spelled below the source directory and is found where it is
spelled, if at all.  The source directory itself may be reached through any number of links, since
the candidates are spelled from where it really is.

Being no false alarm is one half.  The other is that the path that is returned is that of the
candidate, letter by letter, because there was no link to resolve.
-/

open BuildInputs.Path (ofText)

/-- No link stands anywhere below a location. -/
def NoLinkBelow (files : FileSystem) (boundary : Location) : Prop :=
  forall location, boundary <+: location -> boundary ≠ location ->
    forall target, files.node? location ≠ some (.link target)

/-- Neither the context nor the build file takes back more names than it has. -/
structure StaysInside (search : BuildFileSearch) : Prop where
  context : Path.StaysInside search.context
  buildFile : forall buildFile, search.buildFile = some buildFile -> Path.StaysInside buildFile

section

variable {workspace : Workspace} {search : BuildFileSearch} {boundary location : Location}
  {candidate : Path × Path}

/-- An empty context and the default one are the source directory itself. -/
theorem joinLexically_contextPath (search : BuildFileSearch) (boundary : Path) :
    Path.joinLexically boundary search.contextPath =
      Path.joinLexically boundary search.context := by
  rw [contextPath]
  split
  · next empty =>
      rw [empty]
      rfl
  · rfl

/-- The default build files stay inside as well. -/
theorem StaysInside.of_mem_buildFiles (stays : search.StaysInside) {buildFile : Path}
    (among : buildFile ∈ search.buildFiles) : Path.StaysInside buildFile := by
  rw [buildFiles] at among
  cases named : search.buildFile with
  | some given =>
      rw [named, List.mem_singleton] at among
      rw [among]
      exact stays.buildFile given named
  | none =>
      rw [named] at among
      revert buildFile
      decide

/-- Every candidate is spelled below the source directory. -/
theorem exists_names_of_mem_candidates (stays : search.StaysInside)
    (member : candidate ∈ search.candidates boundary.path) :
    exists names, candidate.2 = Path.rooted names ∧
      (forall name, name ∈ names -> Path.IsPlain name) ∧
      boundary.map FileName.bytes <+: names := by
  obtain ⟨buildFile, among, same⟩ := exists_of_mem_candidates member
  have fileStays := stays.of_mem_buildFiles among
  have context := Path.joinLexically_rooted boundary.plain_of_mem search.context
  rw [joinLexically_contextPath, Location.path_eq_rooted, context.1] at same
  rcases same with same | same
  · have file := Path.joinLexically_rooted context.2 buildFile
    exact ⟨_, same.trans file.1, file.2,
      fileStays.prefix_foldl (stays.context.prefix_foldl (List.prefix_refl _))⟩
  · have file := Path.joinLexically_rooted boundary.plain_of_mem buildFile
    exact ⟨_, same.trans file.1, file.2, fileStays.prefix_foldl (List.prefix_refl _)⟩

/-- On the way to anything below a real location that has no links below it there is no link. -/
theorem linkless_of_noLinkBelow (real : workspace.files.IsReal boundary)
    (below : NoLinkBelow workspace.files boundary) {names : List Path}
    (start : boundary.map FileName.bytes <+: names) : workspace.files.Linkless [] names := by
  intro way _ along target
  rw [List.nil_append]
  rcases List.prefix_or_prefix_of_prefix along start with above | beneath
  · exact (real.of_prefix ((List.prefix_map_iff_of_injective FileName.bytes_injective).mp
      above)).notLink target
  · by_cases same : boundary = way
    · exact same ▸ real.notLink target
    · exact below way ((List.prefix_map_iff_of_injective FileName.bytes_injective).mp beneath) same
        target

/-- A candidate that is there is found where it is spelled. -/
theorem path_of_candidate (real : workspace.files.IsReal boundary)
    (below : NoLinkBelow workspace.files boundary) (stays : search.StaysInside)
    (member : candidate ∈ search.candidates boundary.path)
    (located : workspace.locate candidate.2 = .ok location) :
    location.path = candidate.2 ∧ boundary <+: location := by
  obtain ⟨names, spelled, plain, start⟩ := exists_names_of_mem_candidates stays member
  rw [spelled] at located
  have same := Workspace.names_of_locate_linkless plain (linkless_of_noLinkBelow real below start)
    located
  rw [← same] at start
  refine ⟨?_, (List.prefix_map_iff_of_injective FileName.bytes_injective).mp start⟩
  rw [spelled, Location.path_eq_rooted, same]

/-- Where every candidate is found where it is spelled, one of them is returned, or none, or a
candidate cannot be looked at. -/
theorem result_firstPresent_of_spelled {candidates : List (Path × Path)}
    (spelled : forall candidate location, candidate ∈ candidates ->
      workspace.locate candidate.2 = .ok location ->
        location.path = candidate.2 ∧ boundary <+: location) :
    (exists candidate, candidate ∈ candidates ∧
        (firstPresent workspace boundary.path candidates).result = .ok (some candidate.2)) ∨
      (firstPresent workspace boundary.path candidates).result = .ok none ∨
      exists path failure, (firstPresent workspace boundary.path candidates).result =
        .error (.linkUnresolved path failure) := by
  rcases absent_or_exists_first workspace candidates with
    all | ⟨before, candidate, after, rfl, earlier, present⟩
  · exact .inr (.inl (result_firstPresent_eq_none_iff.mpr all))
  · rw [firstPresent_append_of_absent earlier, result_firstPresent_of_present present, verdict]
    cases located : workspace.locate candidate.2 with
    | error failure => exact .inr (.inr ⟨_, _, rfl⟩)
    | ok location =>
        have member : candidate ∈ before ++ candidate :: after :=
          List.mem_append_right _ List.mem_cons_self
        obtain ⟨same, inside⟩ := spelled candidate location member located
        refine .inl ⟨candidate, member, ?_⟩
        dsimp only
        rw [if_pos inside, same]

/-- A search that stays inside and meets no link comes to one of four ends. -/
theorem result_locate_of_staysInside (real : workspace.files.IsReal workspace.directory)
    (below : forall boundary, workspace.locate search.source = .ok boundary ->
      NoLinkBelow workspace.files boundary)
    (stays : search.StaysInside) :
    (exists boundary candidate, workspace.locate search.source = .ok boundary ∧
        candidate ∈ search.candidates boundary.path ∧
        (search.locate workspace).result = .ok (some candidate.2)) ∨
      (search.locate workspace).result = .ok none ∨
      (exists path failure,
        (search.locate workspace).result = .error (.linkUnresolved path failure)) ∨
      (search.locate workspace).result = .error .missingSource := by
  by_cases unnamed : search.source = []
  · refine .inr (.inr (.inr ?_))
    rw [locate, if_pos unnamed]
    rfl
  rw [result_locate workspace search unnamed]
  cases located : workspace.locate search.source with
  | error failure => exact .inr (.inr (.inl ⟨_, _, rfl⟩))
  | ok boundary =>
      have boundaryReal := Workspace.isReal_of_locate (FileSystem.isReal_start real _) located
      have outcome := result_firstPresent_of_spelled fun candidate location member found =>
        path_of_candidate boundaryReal (below boundary located) stays member found
      dsimp only
      rcases outcome with ⟨candidate, member, found⟩ | unfound | failed
      · exact .inl ⟨boundary, candidate, rfl, member, found⟩
      · exact .inr (.inl unfound)
      · exact .inr (.inr (.inl failed))

end

/-- A search never reports a way out of the source directory if no link stands below it, the
current directory is where it really is, and the context and the build file stay inside.  What it
returns is the path of the source directory with the context and the build file folded in, or with
the build file alone. -/
theorem locate_raises_no_false_alarm {workspace : Workspace} {search : BuildFileSearch}
    (real : workspace.files.IsReal workspace.directory)
    (below : forall boundary, workspace.locate search.source = .ok boundary ->
      NoLinkBelow workspace.files boundary)
    (stays : search.StaysInside) :
    (forall buildFile location boundary,
      (search.locate workspace).result ≠ .error (.outsideSource buildFile location boundary)) ∧
    forall path, (search.locate workspace).result = .ok (some path) ->
      exists boundary buildFile, workspace.locate search.source = .ok boundary ∧
        buildFile ∈ search.buildFiles ∧
        (path = Path.joinLexically (Path.joinLexically boundary.path search.context) buildFile ∨
          path = Path.joinLexically boundary.path buildFile) := by
  have ends := result_locate_of_staysInside real below stays
  constructor
  · intro buildFile location boundary alarm
    rw [alarm] at ends
    rcases ends with ⟨_, _, _, _, same⟩ | same | ⟨_, _, same⟩ | same <;> cases same
  · intro path found
    rw [found] at ends
    rcases ends with ⟨boundary, candidate, located, member, same⟩ | same | ⟨_, _, same⟩ | same
    · cases same
      obtain ⟨buildFile, among, spelled⟩ := exists_of_mem_candidates member
      rw [joinLexically_contextPath] at spelled
      exact ⟨boundary, buildFile, located, among, spelled⟩
    all_goals cases same

/-- The location of a source directory that is reached through a link. -/
def plainBoundary : Location :=
  [⟨ofText "opt".toList, by decide⟩, ⟨ofText "site".toList, by decide⟩]

/-- The source directory there, with no link in it. -/
def plainSource : Workspace where
  directory := []
  files := ⟨[(plainBoundary.take 1, .directory),
    ([⟨ofText "code".toList, by decide⟩], .link (ofText "/opt/./site/".toList)),
    (plainBoundary, .directory),
    (plainBoundary ++ [⟨ofText "pack".toList, by decide⟩], .directory),
    (plainBoundary ++
      [⟨ofText "pack".toList, by decide⟩, ⟨ofText "Dockerfile".toList, isName_dockerfile⟩],
      .file [])]⟩

/-- A search there, in which every path takes a detour. -/
def detourSearch : BuildFileSearch where
  source := ofText "code".toList
  context := ofText "/away/.././pack".toList
  buildFile := some (ofText "away//../Dockerfile".toList)

theorem noLinkBelow_plainBoundary : NoLinkBelow plainSource.files plainBoundary := by
  intro location start _ target link
  have nonempty : location ≠ [] := by
    rintro rfl
    exact List.cons_ne_nil _ _ (List.prefix_nil.mp start)
  rw [FileSystem.node?, if_neg nonempty, Option.map_eq_some_iff] at link
  obtain ⟨row, found, same⟩ := link
  have among := List.mem_of_find?_eq_some found
  have here := List.find?_some found
  rw [decide_eq_true_iff] at here
  -- The only link among the rows stands beside the source directory.
  have beside : forall row, row ∈ plainSource.files.rows -> plainBoundary <+: row.1 ->
      forall target, row.2 ≠ .link target := by
    simp only [plainSource, List.forall_mem_cons]
    refine ⟨?_, fun below => absurd below (by decide), ?_, ?_, ?_,
      fun _ member => absurd member List.not_mem_nil⟩
    all_goals
      intro _ _ same
      cases same
  exact beside row among (here ▸ start) target same

theorem locate_raises_no_false_alarm_detours :
    plainSource.files.IsReal plainSource.directory ∧
      plainSource.locate detourSearch.source = .ok plainBoundary ∧
      NoLinkBelow plainSource.files plainBoundary ∧ detourSearch.StaysInside ∧
      (detourSearch.locate plainSource).result =
        .ok (some (ofText "/opt/site/pack/Dockerfile".toList)) ∧
      exists boundary buildFile, plainSource.locate detourSearch.source = .ok boundary ∧
        buildFile ∈ detourSearch.buildFiles ∧
        (ofText "/opt/site/pack/Dockerfile".toList = Path.joinLexically
            (Path.joinLexically boundary.path detourSearch.context) buildFile ∨
          ofText "/opt/site/pack/Dockerfile".toList =
            Path.joinLexically boundary.path buildFile) := by
  have real : plainSource.files.IsReal plainSource.directory := plainSource.files.isReal_root
  have located : plainSource.locate detourSearch.source = .ok plainBoundary := by cbv
  have stays : detourSearch.StaysInside := by
    refine ⟨by decide, fun buildFile named => ?_⟩
    cases named
    decide
  have ordered : detourSearch.preferences plainBoundary.path =
      [(ofText "away//../Dockerfile".toList, ofText "/opt/site/pack/Dockerfile".toList),
        (ofText "away//../Dockerfile".toList, ofText "/opt/site/Dockerfile".toList)] := by
    rfl
  have found : (detourSearch.locate plainSource).result =
      .ok (some (ofText "/opt/site/pack/Dockerfile".toList)) := by
    rw [result_locate_of_located (by decide) located, ordered]
    cbv
  have below : forall boundary, plainSource.locate detourSearch.source = .ok boundary ->
      NoLinkBelow plainSource.files boundary := by
    intro boundary also
    rw [located] at also
    cases also
    exact noLinkBelow_plainBoundary
  obtain ⟨-, spelled⟩ := locate_raises_no_false_alarm real below stays
  exact ⟨real, located, noLinkBelow_plainBoundary, stays, found, spelled _ found⟩

end BuildFileSearch
end BuildInputs

import Mathlib.Data.List.Permutation
import BuildInputs.BuildFile
import BuildInputs.Proofs.FileSystem.Real
import BuildInputs.Proofs.Report

namespace BuildInputs
namespace BuildFileSearch

/-!
# A build file never leaves the source directory

The context and the build file are texts that anybody may have written, and the links in the
source directory may point anywhere.  Neither matters for what is returned.  Every candidate is
folded into the canonical path of the source directory and so begins at the root; the walk along
it ends at a real location; and that location is only returned after its names have been compared
with those of the source directory.
-/

open BuildInputs.Path (ofText)

variable {workspace : Workspace} {search : BuildFileSearch}

/-- The outcome of a search, without what is noted on the way. -/
theorem result_locate (workspace : Workspace) (search : BuildFileSearch)
    (named : search.source ≠ []) :
    (search.locate workspace).result =
      match workspace.locate search.source with
      | .error failure => .error (.linkUnresolved search.source failure)
      | .ok location =>
          (firstPresent workspace location.path (search.candidates location.path)).result := by
  rw [locate, if_neg named]
  cases workspace.locate search.source with
  | error failure => rfl
  | ok location =>
      simp only [Report.result_bind]
      cases (firstPresent workspace location.path (search.candidates location.path)).result with
      | error error => rfl
      | ok found =>
          simp only [Except.bind]
          split <;> rfl

/-- What is returned is a candidate with its links resolved, and inside the boundary. -/
theorem resolved_of_firstPresent {boundary path : Path} {candidates : List (Path × Path)}
    (found : (firstPresent workspace boundary candidates).result = .ok (some path)) :
    exists candidate, candidate ∈ candidates ∧
      resolvePath workspace candidate.2 = .ok (some path) ∧
      Path.isContained path boundary = true := by
  induction candidates with
  | nil => cases found
  | cons candidate others ih =>
      rcases candidate with ⟨buildFile, spelled⟩
      rw [firstPresent] at found
      cases resolved : resolvePath workspace spelled with
      | error error =>
          rw [resolved] at found
          cases found
      | ok location? =>
          rw [resolved] at found
          cases location? with
          | none =>
              rcases ih found with ⟨candidate, member, further⟩
              exact ⟨candidate, List.mem_cons_of_mem _ member, further⟩
          | some location =>
              dsimp only at found
              by_cases inside : Path.isContained location boundary = true
              · rw [if_pos inside] at found
                cases found
                exact ⟨(buildFile, spelled), List.mem_cons_self, resolved, inside⟩
              · rw [if_neg inside] at found
                cases found

/-- A candidate is a build file in the context or in the source directory itself. -/
theorem exists_of_mem_candidates {boundary : Path} {candidate : Path × Path}
    (member : candidate ∈ search.candidates boundary) :
    exists buildFile, buildFile ∈ search.buildFiles ∧
      (candidate.2 = Path.joinLexically (Path.joinLexically boundary search.contextPath) buildFile ∨
        candidate.2 = Path.joinLexically boundary buildFile) := by
  obtain ⟨buildFile, among, member⟩ := List.mem_flatMap.mp member
  refine ⟨buildFile, among, ?_⟩
  rcases List.mem_cons.mp member with same | member
  · exact .inl (congrArg Prod.snd same)
  · exact .inr (congrArg Prod.snd (List.mem_singleton.mp member))

/-- Every candidate begins at the root, whatever the context and the build file say. -/
theorem isAbsolute_of_mem_candidates {boundary : Location} {candidate : Path × Path}
    (member : candidate ∈ search.candidates boundary.path) :
    Path.isAbsolute candidate.2 = true := by
  have context := Path.joinLexically_rooted (boundary.plain_of_mem) search.contextPath
  obtain ⟨buildFile, -, same⟩ := exists_of_mem_candidates member
  rw [Location.path_eq_rooted, context.1] at same
  rcases same with same | same
  · rw [same, (Path.joinLexically_rooted context.2 buildFile).1]
    exact Path.isAbsolute_rooted _
  · rw [same, (Path.joinLexically_rooted boundary.plain_of_mem buildFile).1]
    exact Path.isAbsolute_rooted _

/-- A path from the root that can be resolved leads to a real location. -/
theorem isReal_of_resolvePath {candidate path : Path} (absolute : Path.isAbsolute candidate = true)
    (resolved : resolvePath workspace candidate = .ok (some path)) :
    exists location : Location, location.path = path ∧ workspace.files.IsReal location := by
  rw [resolvePath] at resolved
  split at resolved
  · next location located =>
      cases resolved
      refine ⟨location, rfl, Workspace.isReal_of_locate ?_ located⟩
      rw [FileSystem.start, if_pos absolute]
      exact workspace.files.isReal_root
  · cases resolved
  · cases resolved

/-- The build file that a search finds lies in the source directory.  Both are compared where
they really are: the path that is returned is absolute, has no detours, exists, passes through
no link and leads to itself, and its names continue those of the source directory. -/
theorem locate_inside_source {path : Path}
    (found : (search.locate workspace).result = .ok (some path)) :
    exists boundary location : Location,
      workspace.locate search.source = .ok boundary ∧
      location.path = path ∧
      boundary <+: location ∧
      Path.components boundary.path <+: Path.components path ∧
      workspace.files.IsReal location ∧
      Path.isAbsolute path = true ∧
      (forall part, part ∈ Path.components path -> part ≠ .current ∧ part ≠ .parent) ∧
      workspace.locate path = .ok location := by
  have named : search.source ≠ [] := by
    intro unnamed
    rw [locate, if_pos unnamed] at found
    cases found
  rw [result_locate workspace search named] at found
  cases source : workspace.locate search.source with
  | error failure =>
      rw [source] at found
      cases found
  | ok boundary =>
      rw [source] at found
      rcases resolved_of_firstPresent found with ⟨candidate, member, resolved, inside⟩
      rcases isReal_of_resolvePath (isAbsolute_of_mem_candidates member) resolved with
        ⟨location, rfl, real⟩
      have below := Location.isContained_path_iff.mp inside
      refine ⟨boundary, location, rfl, rfl, below, ?_, real, rfl, ?_, Workspace.locate_path real⟩
      · rw [Path.isContained, Path.startsWith] at inside
        exact List.isPrefixOf_iff_prefix.mp inside
      intro part member
      rw [Location.components_path] at member
      rcases List.mem_cons.mp member with same | member
      · subst part
        exact ⟨Path.Component.noConfusion, Path.Component.noConfusion⟩
      · rcases List.mem_map.mp member with ⟨name, _, rfl⟩
        exact ⟨Path.Component.noConfusion, Path.Component.noConfusion⟩

/-- A source directory that is reached through a link, in which the context and the build file
are links as well. -/
def linkedSource : Workspace :=
  let srv : FileName := ⟨ofText "srv".toList, by decide⟩
  let app : FileName := ⟨ofText "app".toList, by decide⟩
  let part : FileName := ⟨ofText "part".toList, by decide⟩
  let file : FileName := ⟨ofText "Dockerfile".toList, by decide⟩
  { directory := []
    files := ⟨[([srv], .directory),
      ([⟨ofText "src".toList, by decide⟩], .link (ofText "/srv/./app/".toList)),
      ([srv, app], .directory),
      ([srv, app, ⟨ofText "context".toList, by decide⟩], .link (ofText "part".toList)),
      ([srv, app, part], .directory),
      ([srv, app, part, file], .link (ofText "../../app/file".toList)),
      ([srv, app, ⟨ofText "file".toList, by decide⟩], .file [])]⟩ }

/-- A search there, with a context that goes out of the source directory and in again. -/
def linkedSearch : BuildFileSearch where
  source := ofText "src".toList
  context := ofText "../app/./context".toList

theorem locate_inside_source_through_links :
    (linkedSearch.locate linkedSource).result = .ok (some (ofText "/srv/app/file".toList)) ∧
      exists boundary location : Location,
        linkedSource.locate linkedSearch.source = .ok boundary ∧
        location.path = ofText "/srv/app/file".toList ∧
        boundary <+: location ∧
        Path.components boundary.path <+: Path.components (ofText "/srv/app/file".toList) ∧
        linkedSource.files.IsReal location ∧
        Path.isAbsolute (ofText "/srv/app/file".toList) = true ∧
        (forall part, part ∈ Path.components (ofText "/srv/app/file".toList) ->
          part ≠ .current ∧ part ≠ .parent) ∧
        linkedSource.locate (ofText "/srv/app/file".toList) = .ok location := by
  have source : linkedSource.locate linkedSearch.source =
      .ok [⟨ofText "srv".toList, by decide⟩, ⟨ofText "app".toList, by decide⟩] := by
    cbv
  have candidates : linkedSearch.candidates (ofText "/srv/app".toList) =
      [(ofText "./Containerfile".toList, ofText "/srv/app/context/Containerfile".toList),
        (ofText "./Containerfile".toList, ofText "/srv/app/Containerfile".toList),
        (ofText "./Dockerfile".toList, ofText "/srv/app/context/Dockerfile".toList),
        (ofText "./Dockerfile".toList, ofText "/srv/app/Dockerfile".toList)] := by
    rfl
  have first : (firstPresent linkedSource (ofText "/srv/app".toList)
      (linkedSearch.candidates (ofText "/srv/app".toList))).result =
        .ok (some (ofText "/srv/app/file".toList)) := by
    rw [candidates]
    cbv
  have found : (linkedSearch.locate linkedSource).result =
      .ok (some (ofText "/srv/app/file".toList)) := by
    rw [result_locate _ _ (by decide), source]
    exact first
  exact ⟨found, locate_inside_source found⟩

end BuildFileSearch
end BuildInputs

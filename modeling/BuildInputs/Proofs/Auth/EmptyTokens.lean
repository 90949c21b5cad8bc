import BuildInputs.Proofs.Auth.Narrowing
import BuildInputs.Proofs.Auth.Scopes
import BuildInputs.Proofs.Auth.Users

namespace BuildInputs

/-!
# Entries with an empty token

An entry with an empty token counts as missing once it has been chosen, and not before.  So it
makes no difference for a repository that another entry answers for, nor where nothing else could
answer.  But if it stands under the closest scope, it hides the entries of all enclosing scopes and
that of Docker's index, although these have tokens.  This module compares a file with what is left
of it without such entries, and says exactly when the choices differ.
-/

open BuildInputs.Path (ofText)

namespace AuthFile

/-- The scope has a token that is not empty. -/
def HasToken (file : AuthFile) (scope : Text) : Prop :=
  exists token, file.token? scope = some token ∧ token ≠ []

/-- A file with the entries of another whose tokens are not empty, and no others. -/
def LeavesOutEmpty (usable file : AuthFile) : Prop :=
  forall scope, usable.token? scope = (file.token? scope).filter fun token => token ≠ []

/-- Something that is asked for a repository, sooner or later, has a token that is not empty. -/
def HasAnswer (file : AuthFile) (repository : Text) : Prop :=
  (exists scope, Covers scope repository ∧ file.HasToken scope) ∨
    registryOf repository = Settings.dockerRegistry ∧ file.HasToken Settings.dockerIndex

/-- The closest scope has an empty token, although there is an answer. -/
def Hides (file : AuthFile) (repository : Text) : Prop :=
  (exists scope, file.IsClosest repository scope ∧ file.token? scope = some []) ∧
    file.HasAnswer repository

variable {usable file : AuthFile} {repository scope : Text}

theorem LeavesOutEmpty.token?_eq_some_iff (leftOut : usable.LeavesOutEmpty file) {token : Text} :
    usable.token? scope = some token ↔ file.token? scope = some token ∧ token ≠ [] := by
  rw [leftOut scope, Option.filter_eq_some_iff, decide_eq_true_eq]

theorem LeavesOutEmpty.listed_iff (leftOut : usable.LeavesOutEmpty file) :
    usable.token? scope ≠ none ↔ file.HasToken scope := by
  simp only [Option.ne_none_iff_exists', leftOut.token?_eq_some_iff, HasToken]

/-- As far as tokens that are not empty go, the two files agree. -/
theorem LeavesOutEmpty.filter_token? (leftOut : usable.LeavesOutEmpty file) (scope : Text) :
    ((file.token? scope).filter fun token => token ≠ []) =
      (usable.token? scope).filter fun token => token ≠ [] := by
  rw [leftOut scope, Option.filter_filter]
  simp only [Bool.and_self]

theorem HasToken.listed (has : file.HasToken scope) : file.token? scope ≠ none := by
  obtain ⟨token, isToken, -⟩ := has
  exact isToken ▸ Option.some_ne_none token

/-- Leaving out other entries keeps the closest scope where it is. -/
theorem LeavesOutEmpty.closest (leftOut : usable.LeavesOutEmpty file)
    (closest : file.IsClosest repository scope) (has : file.HasToken scope) :
    usable.IsClosest repository scope := by
  refine ⟨leftOut.listed_iff.mpr has, closest.covers, ?_⟩
  intro other listed covers
  exact closest.longest other (leftOut.listed_iff.mp listed).listed covers

/-- The entries whose tokens are not empty. -/
def withoutEmpty (file : AuthFile) : AuthFile :=
  ⟨file.scopes.filter fun entry => entry.2 ≠ []⟩

/-- If a file has every scope once, each of its entries is found. -/
theorem token?_eq_some_iff_mem {token : Text} (distinct : (file.scopes.map Prod.fst).Nodup) :
    file.token? scope = some token ↔ (scope, token) ∈ file.scopes := by
  rw [token?]
  generalize file.scopes = entries at distinct
  induction entries with
  | nil => exact iff_of_false (Option.some_ne_none token).symm List.not_mem_nil
  | cons entry entries ih =>
      obtain ⟨fresh, restDistinct⟩ := List.nodup_cons.mp distinct
      rw [List.find?_cons, List.mem_cons]
      by_cases same : entry.1 = scope
      · subst same
        have absent : (entry.1, token) ∉ entries := fun member =>
          fresh (List.mem_map.mpr ⟨_, member, rfl⟩)
        rw [decide_eq_true rfl, or_iff_left absent, Prod.ext_iff]
        simp only [Option.map_some, Option.some.injEq, true_and]
        exact eq_comm
      · have differs : (scope, token) ≠ entry := fun is => same (congrArg Prod.fst is).symm
        rw [decide_eq_false same, or_iff_right differs]
        exact ih restDistinct

/-- If a file has every scope once, no other entry of a scope comes to light. -/
theorem leavesOutEmpty_withoutEmpty (distinct : (file.scopes.map Prod.fst).Nodup) :
    file.withoutEmpty.LeavesOutEmpty file := by
  intro scope
  have keptDistinct : (file.withoutEmpty.scopes.map Prod.fst).Nodup :=
    distinct.sublist (List.filter_sublist.map Prod.fst)
  refine Option.ext fun token => ?_
  rw [token?_eq_some_iff_mem keptDistinct, Option.filter_eq_some_iff,
    token?_eq_some_iff_mem distinct, withoutEmpty, List.mem_filter]

/-- Every answer from what is left is a token that is not empty. -/
theorem LeavesOutEmpty.ne_nil_of_find? (leftOut : usable.LeavesOutEmpty file) {token : Text}
    (found : usable.find? repository = some token) : token ≠ [] := by
  rcases uncovered_or_exists_closest usable repository with uncovered | ⟨scope, closest⟩
  · rw [find?_of_uncovered uncovered] at found
    split at found
    · exact (leftOut.token?_eq_some_iff.mp found).2
    · cases found
  · rw [find?_of_closest closest] at found
    exact (leftOut.token?_eq_some_iff.mp found).2

/-- What is left answers whenever anything in the file has a token to answer with. -/
theorem LeavesOutEmpty.find?_ne_none_iff (leftOut : usable.LeavesOutEmpty file) :
    usable.find? repository ≠ none ↔ file.HasAnswer repository := by
  rcases uncovered_or_exists_closest usable repository with uncovered | ⟨scope, closest⟩
  · have none_covers : ¬ exists scope, Covers scope repository ∧ file.HasToken scope := by
      rintro ⟨scope, covers, has⟩
      exact leftOut.listed_iff.mpr has (uncovered scope covers)
    rw [find?_of_uncovered uncovered, HasAnswer, or_iff_right none_covers, ← leftOut.listed_iff]
    split
    · next docker => exact (and_iff_right docker).symm
    · next other => exact iff_of_false (fun impossible => impossible rfl) fun both => other both.1
  · rw [find?_of_closest closest]
    exact iff_of_true closest.listed
      (Or.inl ⟨scope, closest.covers, leftOut.listed_iff.mp closest.listed⟩)

/-- The empty repository has one scope only, so that nothing is hidden from it. -/
theorem not_hides_nil (file : AuthFile) : ¬ file.Hides [] := by
  have only_nil : forall {scope}, Covers scope [] -> scope = [] :=
    fun covers => (covers_of_free List.not_mem_nil).mp covers
  rintro ⟨⟨scope, closest, isEmpty⟩, ⟨other, covers, token, isToken, nonempty⟩ | ⟨docker, -⟩⟩
  · rw [only_nil covers] at isToken
    rw [only_nil closest.covers, isToken] at isEmpty
    exact nonempty (Option.some.inj isEmpty)
  · exact absurd docker (by decide)

end AuthFile

namespace Auth

variable {usable file : AuthFile} {repository : Text}

/-- An empty token is as good as none. -/
theorem choose_congr {other : AuthFile}
    (same : ((file.find? repository).filter fun token => token ≠ []) =
      (other.find? repository).filter fun token => token ≠ []) :
    choose file repository = choose other repository := by
  have chosen : forall asked : AuthFile, choose asked repository =
      match (asked.find? repository).filter fun token => token ≠ [] with
      | some token => .ok ⟨AuthFile.registryOf repository, token⟩
      | none => .error (.authNotConfigured repository) := by
    intro asked
    rw [choose]
    rcases asked.find? repository with - | (- | ⟨first, rest⟩)
    · rfl
    · rfl
    · rfl
  rw [chosen file, chosen other, same]

/-- A hidden answer is not found, and would be without the entry that hides it. -/
theorem choose_of_hides (leftOut : usable.LeavesOutEmpty file) (hides : file.Hides repository) :
    choose file repository = .error (.authNotConfigured repository) ∧
      exists auth, choose usable repository = .ok auth := by
  obtain ⟨⟨scope, closest, isEmpty⟩, answer⟩ := hides
  obtain ⟨token, found⟩ := Option.ne_none_iff_exists'.mp (leftOut.find?_ne_none_iff.mpr answer)
  exact ⟨choose_of_empty ((AuthFile.find?_of_closest closest).trans isEmpty),
    _, choose_of_nonempty found (leftOut.ne_nil_of_find? found)⟩

/-- Where nothing is hidden, leaving out the empty tokens changes nothing. -/
theorem choose_of_not_hides (leftOut : usable.LeavesOutEmpty file)
    (shown : ¬ file.Hides repository) : choose file repository = choose usable repository := by
  apply choose_congr
  rcases AuthFile.uncovered_or_exists_closest file repository with uncovered | ⟨scope, closest⟩
  · have usableUncovered : forall scope, AuthFile.Covers scope repository ->
        usable.token? scope = none := by
      intro scope covers
      rw [leftOut, uncovered scope covers, Option.filter_none]
    rw [AuthFile.find?_of_uncovered uncovered, AuthFile.find?_of_uncovered usableUncovered]
    split
    · exact leftOut.filter_token? Settings.dockerIndex
    · rfl
  · obtain ⟨token, isToken⟩ := Option.ne_none_iff_exists'.mp closest.listed
    by_cases isEmpty : token = []
    · subst isEmpty
      have missing : usable.find? repository = none :=
        Decidable.byContradiction fun answers =>
          shown ⟨⟨scope, closest, isToken⟩, leftOut.find?_ne_none_iff.mp answers⟩
      rw [AuthFile.find?_of_closest closest, isToken, missing]
      rfl
    · have usableClosest := leftOut.closest closest ⟨token, isToken, isEmpty⟩
      rw [AuthFile.find?_of_closest closest, AuthFile.find?_of_closest usableClosest]
      exact leftOut.filter_token? scope

theorem result_select_of_load {workspace : Workspace} {authFile : Path} {image : Text}
    (loaded : load workspace authFile = .ok file) :
    (select workspace authFile image).result =
      if Image.name image = [] then .error (.badReference image)
      else choose file (Image.name image) := by
  rw [select]
  split
  · rfl
  · simp only [Report.result_bind, Report.result_note, Report.result_ofExcept, loaded, Except.bind]

/-- Leaving the entries with an empty token out of an auth file gives the same selection for an image
exactly if none of them hides an answer.  Where one does, nothing is selected, although there is
something to select. -/
theorem select_leavesOutEmpty_iff {workspace other : Workspace} {authFile usableFile : Path}
    {image : Text} (loaded : load workspace authFile = .ok file)
    (usableLoaded : load other usableFile = .ok usable) (leftOut : usable.LeavesOutEmpty file) :
    ((select workspace authFile image).result = (select other usableFile image).result ↔
      ¬ file.Hides (Image.name image)) ∧
    (file.Hides (Image.name image) ->
      (select workspace authFile image).result =
          .error (.authNotConfigured (Image.name image)) ∧
        exists auth, (select other usableFile image).result = .ok auth) := by
  rw [result_select_of_load loaded, result_select_of_load usableLoaded]
  split
  · next unnamed =>
      rw [unnamed]
      have shown := AuthFile.not_hides_nil file
      exact ⟨iff_of_true rfl shown, fun hides => absurd hides shown⟩
  · refine ⟨⟨?_, choose_of_not_hides leftOut⟩, choose_of_hides leftOut⟩
    intro same hides
    obtain ⟨missing, auth, chosen⟩ := choose_of_hides leftOut hides
    rw [missing, chosen] at same
    cases same

/-- A file with the given entries for scopes. -/
def authFileWith (entries : Text) : Workspace where
  files := ⟨[([⟨ofText "config.json".toList, by decide⟩], .file (Utf8.encode
    ("\x7b\"auths\":\x7b".toList ++ entries ++ "\x7d\x7d".toList)))]⟩
  directory := []

theorem readBytes_authFileWith (entries : Text) :
    (authFileWith entries).readBytes (ofText "config.json".toList) =
      .ok (Utf8.encode ("\x7b\"auths\":\x7b".toList ++ entries ++ "\x7d\x7d".toList)) := by
  cbv

/-- A token for Docker's index, and none for its registry. -/
def indexBehindRegistry : AuthFile :=
  ⟨[(Settings.dockerIndex, "dTpw".toList), (Settings.dockerRegistry, [])]⟩

/-- The entry of the index as it is written. -/
def indexEntry : Text := "\"https://index.docker.io/v1/\":\x7b\"auth\":\"dTpw\"\x7d".toList

theorem select_leavesOutEmpty_docker :
    indexBehindRegistry.Hides "docker.io/app".toList ∧
      (select (authFileWith ("\"docker.io\":\x7b\x7d,".toList ++ indexEntry))
          (ofText "config.json".toList) "docker.io/app".toList).result =
        .error (.authNotConfigured "docker.io/app".toList) ∧
      exists auth, (select (authFileWith indexEntry) (ofText "config.json".toList)
        "docker.io/app".toList).result = .ok auth := by
  have loaded : load (authFileWith ("\"docker.io\":\x7b\x7d,".toList ++ indexEntry))
      (ofText "config.json".toList) = .ok indexBehindRegistry :=
    load_of_encode (readBytes_authFileWith _) (by cbv)
  have usableLoaded : load (authFileWith indexEntry) (ofText "config.json".toList) =
      .ok indexBehindRegistry.withoutEmpty :=
    load_of_encode (readBytes_authFileWith _) (by cbv)
  have name : Image.name "docker.io/app".toList = "docker.io/app".toList := by
    rfl
  have leftOut : indexBehindRegistry.withoutEmpty.LeavesOutEmpty indexBehindRegistry :=
    AuthFile.leavesOutEmpty_withoutEmpty (by decide)
  have hides : indexBehindRegistry.Hides (Image.name "docker.io/app".toList) := by
    rw [name]
    exact ⟨AuthFile.findSome?_scopesFor_eq_some_iff.mp (by decide),
      Or.inr ⟨by decide, "dTpw".toList, by decide, by decide⟩⟩
  have selected := (select_leavesOutEmpty_iff loaded usableLoaded leftOut).2 hides
  rw [name] at hides selected
  exact ⟨hides, selected⟩

/-- A token for a registry, and none for one of its repositories. -/
def registryBehindRepository : AuthFile :=
  ⟨[("quay.io/org".toList, []), ("quay.io".toList, "dTpw".toList)]⟩

/-- The entry of the registry as it is written. -/
def registryEntry : Text := "\"quay.io\":\x7b\"auth\":\"dTpw\"\x7d".toList

/-- Nothing is selected for an image in the repository, although the registry has a token, which is
selected if the entry without one is left out. -/
theorem select_behind_empty_token :
    load (authFileWith (registryEntry ++ ",\"quay.io/org\":\x7b\"auth\":\"\"\x7d".toList))
        (ofText "config.json".toList) = .ok registryBehindRepository ∧
      load (authFileWith registryEntry) (ofText "config.json".toList) =
        .ok registryBehindRepository.withoutEmpty ∧
      (select (authFileWith (registryEntry ++
          ",\"quay.io/org\":\x7b\"auth\":\"\"\x7d".toList)) (ofText "config.json".toList)
        "quay.io/org/app:1".toList).result = .error (.authNotConfigured "quay.io/org/app".toList) ∧
      (select (authFileWith registryEntry) (ofText "config.json".toList)
        "quay.io/org/app:1".toList).result = .ok ⟨"quay.io".toList, "dTpw".toList⟩ := by
  have loaded : load (authFileWith (registryEntry ++
      ",\"quay.io/org\":\x7b\"auth\":\"\"\x7d".toList)) (ofText "config.json".toList) =
      .ok registryBehindRepository :=
    load_of_encode (readBytes_authFileWith _) (by cbv)
  have usableLoaded : load (authFileWith registryEntry) (ofText "config.json".toList) =
      .ok registryBehindRepository.withoutEmpty :=
    load_of_encode (readBytes_authFileWith _) (by cbv)
  refine ⟨loaded, usableLoaded, ?_, ?_⟩
  · rw [result_select_of_load loaded]
    rfl
  · rw [result_select_of_load usableLoaded]
    rfl

end Auth
end BuildInputs

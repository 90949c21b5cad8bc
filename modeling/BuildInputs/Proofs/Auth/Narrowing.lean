import BuildInputs.Proofs.Auth.Documents
import BuildInputs.Proofs.FileSystem.Writing
import BuildInputs.Proofs.Json.RoundTrip

namespace BuildInputs

/-!
# Auth files for one registry

A selected token is handed on in an auth file of its own, which names the registry and nothing
narrower.  Whatever scope the token came from, and whatever characters it has, that file gives
the same token for the same image again, and for every other repository of the registry.
-/

open BuildInputs.Path (ofText)

namespace AuthFile

/-- A file with one scope is read from the text that is written for it. -/
theorem parse_write_single (scope token : Text) :
    parse (single scope token).write = some ⟨[(scope, token)]⟩ := by
  have spelled : Json.spell (single scope token) =
      some (.object [(Json.spellText "auths".toList,
        .object [(Json.spellText scope,
          .object [(Json.spellText "auth".toList, .string (Json.spellText token))])])]) :=
    rfl
  have sole := hasSole_singleton (Json.means_spellText "auths".toList) (.object
    [(Json.spellText scope,
      .object [(Json.spellText "auth".toList, .string (Json.spellText token))])])
  have rows : SpellsRows [(scope, some token)] [(Json.spellText scope,
      .object [(Json.spellText "auth".toList, .string (Json.spellText token))])] :=
    .cons ⟨Json.means_spellText scope, .token (hasSole_singleton (Json.means_spellText _) _)
      (Json.means_spellText token)⟩ .nil
  rw [parse, Json.read_write spelled, Option.bind_some, ofSpelled, soleField_of_hasSole sole,
    Option.bind_some]
  dsimp only
  rw [insertEntries_of_spells rows]
  rfl

/-! ## Looking a repository up -/

/-- The registry is the last scope that is tried. -/
theorem registryOf_eq_or_enclosing (repository : Text) :
    registryOf repository = repository ∨ registryOf repository ∈ enclosing repository := by
  induction repository with
  | nil => exact Or.inl rfl
  | cons letter rest ih =>
      rw [registryOf, List.takeWhile_cons, enclosing]
      by_cases slash : letter = '/'
      · right
        rw [if_pos slash, slash]
        exact List.mem_cons_self
      · rw [if_neg slash, if_pos (decide_eq_true slash), ← registryOf]
        rcases ih with whole | inside
        · exact Or.inl (congrArg (letter :: ·) whole)
        · exact Or.inr (List.mem_map.mpr ⟨_, inside, rfl⟩)

theorem registryOf_mem_scopesFor (repository : Text) :
    registryOf repository ∈ scopesFor repository := by
  rw [scopesFor, List.mem_cons, List.mem_reverse]
  exact registryOf_eq_or_enclosing repository

theorem token?_single (scope token other : Text) :
    token? ⟨[(scope, token)]⟩ other = if scope = other then some token else none := by
  rw [token?, List.find?_cons]
  by_cases same : scope = other
  · rw [decide_eq_true same, if_pos same]
    rfl
  · rw [decide_eq_false same, if_neg same]
    rfl

theorem findSome?_single {scope token : Text} {scopes : List Text} (listed : scope ∈ scopes) :
    scopes.findSome? (token? ⟨[(scope, token)]⟩) = some token := by
  induction scopes with
  | nil => cases listed
  | cons first scopes ih =>
      rw [List.findSome?_cons, token?_single]
      by_cases same : scope = first
      · rw [if_pos same]
      · rw [if_neg same]
        exact ih (List.mem_of_ne_of_mem same listed)

/-- A file with one registry has its token for every repository of the registry. -/
theorem find?_single {scope token repository : Text} (within : registryOf repository = scope) :
    find? ⟨[(scope, token)]⟩ repository = some token := by
  subst scope
  rw [find?, findSome?_single (registryOf_mem_scopesFor repository)]

end AuthFile

namespace Auth

/-- Selecting takes a reference with a name, a file that can be read and a choice from it. -/
theorem select_eq_ok_iff {workspace : Workspace} {authFile : Path} {image : Text}
    {auth : RegistryAuth} :
    (select workspace authFile image).result = .ok auth ↔
      Image.name image ≠ [] ∧
        exists file, load workspace authFile = .ok file ∧
          choose file (Image.name image) = .ok auth := by
  rw [select]
  split
  · next empty => simp [empty]
  · next nonempty =>
      simp only [Report.result_bind, Report.result_note, Report.result_ofExcept, Except.bind]
      cases load workspace authFile <;> simp [nonempty]

/-- What is chosen is the registry with a token that was found and is not empty. -/
theorem choose_eq_ok_iff {file : AuthFile} {repository : Text} {auth : RegistryAuth} :
    choose file repository = .ok auth ↔
      AuthFile.registryOf repository = auth.registry ∧ auth.token ≠ [] ∧
        file.find? repository = some auth.token := by
  rcases auth with ⟨registry, token⟩
  rw [choose]
  constructor
  · intro chosen
    split at chosen
    · next found =>
        cases chosen
        exact ⟨rfl, List.cons_ne_nil _ _, found⟩
    · cases chosen
  · rintro ⟨same, nonempty, found⟩
    rw [found]
    cases token with
    | nil => exact absurd rfl nonempty
    | cons first rest =>
        have registered : AuthFile.registryOf repository = registry := same
        rw [← registered]

theorem load_writeText {workspace later : Workspace} {path : Path} {auth : RegistryAuth}
    (written : workspace.writeText path auth.fileText = .ok later) :
    load later path = .ok ⟨[(auth.registry, auth.token)]⟩ := by
  rw [load, Workspace.readText_writeText written, RegistryAuth.fileText]
  dsimp only
  rw [AuthFile.parse_write_single]

/-- Selected credentials that are written to a file, wherever it is, are selected from it again
for the same image.  The file has their registry as its only scope, and their token for every
repository of that registry. -/
theorem select_fileText {workspace : Workspace} {authFile : Path} {image : Text}
    {auth : RegistryAuth} (selected : (select workspace authFile image).result = .ok auth)
    {other later : Workspace} {path : Path}
    (written : other.writeText path auth.fileText = .ok later) :
    (select later path image).result = .ok auth ∧
      exists file : AuthFile, load later path = .ok file ∧
        file.scopes = [(auth.registry, auth.token)] ∧
        forall repository, AuthFile.registryOf repository = auth.registry ->
          file.find? repository = some auth.token := by
  rcases select_eq_ok_iff.mp selected with ⟨named, file, _, chosen⟩
  rcases choose_eq_ok_iff.mp chosen with ⟨registry, nonempty, _⟩
  have loaded := load_writeText written
  have again := choose_eq_ok_iff.mpr ⟨registry, nonempty, AuthFile.find?_single registry⟩
  exact ⟨select_eq_ok_iff.mpr ⟨named, _, loaded, again⟩, _, loaded, rfl,
    fun repository within => AuthFile.find?_single within⟩

/-- A file with a token for the index of Docker's registry, in which a quote, a control character
and a letter outside of ASCII are escaped. -/
def indexOnly : Workspace where
  files := ⟨[([⟨ofText "auth".toList, by decide⟩], .file (Utf8.encode
    ("\x7b\"auths\":\x7b\"https://index.docker.io/v1/\":".toList ++
      "\x7b\"auth\":\"a\\\"\\u0001\\u00fc\"\x7d\x7d\x7d".toList)))]⟩
  directory := []

/-- What is selected from it for an image of Docker's registry. -/
def indexAuth : RegistryAuth :=
  ⟨"docker.io".toList, "a\"\x01ü".toList⟩

/-- The same place after the selected token was written over the file. -/
def indexNarrowed : Workspace where
  files := indexOnly.files.put [⟨ofText "auth".toList, by decide⟩]
    (.file (Utf8.encode indexAuth.fileText))
  directory := []

theorem select_fileText_of_index :
    (select indexOnly (ofText "auth".toList) "docker.io/app:1".toList).result = .ok indexAuth ∧
      indexOnly.writeText (ofText "auth".toList) indexAuth.fileText = .ok indexNarrowed ∧
      (select indexNarrowed (ofText "auth".toList) "docker.io/app:1".toList).result =
        .ok indexAuth ∧
      exists file : AuthFile, load indexNarrowed (ofText "auth".toList) = .ok file ∧
        file.scopes = [(indexAuth.registry, indexAuth.token)] ∧
        forall repository, AuthFile.registryOf repository = indexAuth.registry ->
          file.find? repository = some indexAuth.token := by
  have bytes : indexOnly.readBytes (ofText "auth".toList) = .ok (Utf8.encode
      ("\x7b\"auths\":\x7b\"https://index.docker.io/v1/\":".toList ++
        "\x7b\"auth\":\"a\\\"\\u0001\\u00fc\"\x7d\x7d\x7d".toList)) := by
    cbv
  have loaded : load indexOnly (ofText "auth".toList) =
      .ok ⟨[("https://index.docker.io/v1/".toList, "a\"\x01ü".toList)]⟩ :=
    load_of_encode bytes (by decide +kernel)
  have selected : (select indexOnly (ofText "auth".toList) "docker.io/app:1".toList).result =
      .ok indexAuth :=
    select_eq_ok_iff.mpr ⟨by decide, _, loaded, rfl⟩
  have placed : indexOnly.placeToWrite (ofText "auth".toList) =
      .ok [⟨ofText "auth".toList, by decide⟩] := by
    cbv
  have written : indexOnly.writeText (ofText "auth".toList) indexAuth.fileText =
      .ok indexNarrowed := by
    rw [Workspace.writeText, Workspace.writeBytes, placed]
    rfl
  exact ⟨selected, written, select_fileText selected written⟩

end Auth
end BuildInputs

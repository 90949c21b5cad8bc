import BuildInputs.Proofs.FileSystem.Entries
import BuildInputs.Proofs.Secret.Resolution

namespace BuildInputs
namespace SecretMapping

/-!
# Where the sources of secrets lead

A directory is listed through its path as it is given, and a secret is reported with a path from
the root that is made by editing the spelling.  Both lead to one file: the edited path has the same
course, it keeps every `..`, and from a real current directory it passes through no link that the
given path does not pass through.

What is reported behind this path is the text that is shown for the name.  If the name is no text,
then that is another name, and the path leads to nothing or to another file.
-/

open BuildInputs.Path (ofText)

variable {workspace : Workspace} {specs : List SecretSpec} {mappings : List SecretMapping}
  {mapping : SecretMapping}

/-- A secret comes from an entry of a directory that could be listed. -/
theorem exists_entry_of_mem (resolved : (resolve workspace specs).result = .ok mappings)
    (member : mapping ∈ mappings) :
    exists spec entries entry, spec ∈ specs ∧ workspace.list spec.src = .ok entries ∧
      entry ∈ entries ∧ leadsToFile workspace spec entry = true ∧
        mapping = ofName workspace spec entry.1 := by
  rw [resolve, result_ofSpecs, Finding.check_eq_ok_iff, findings_eq_map_secret_iff] at resolved
  obtain ⟨⟨-, -, rfl⟩, -, -⟩ := resolved
  obtain ⟨spec, among, member⟩ := List.mem_flatMap.mp member
  obtain ⟨entry, found, rfl⟩ := List.mem_map.mp member
  obtain ⟨listed, file⟩ := List.mem_filter.mp found
  rw [entriesOf] at listed
  split at listed
  · next entries readable => exact ⟨spec, entries, entry, among, readable, listed, file, rfl⟩
  · cases listed

/-- An entry that is a secret leads to a file. -/
theorem exists_file_of_entry {spec : SecretSpec} {entries : List (FileName × Node)}
    {entry : FileName × Node} (listed : workspace.list spec.src = .ok entries)
    (member : entry ∈ entries) (file : leadsToFile workspace spec entry = true) :
    exists location contents,
      workspace.locate (Path.push spec.src entry.1.bytes) = .ok location ∧
        workspace.files.node? location = some (.file contents) := by
  obtain ⟨name, node⟩ := entry
  cases node with
  | file contents =>
      obtain ⟨directory, located, standing, among⟩ := (Workspace.isListing_of_list listed).complete
      have found := (among name (.file contents)).mp member
      exact ⟨_, contents, Workspace.locate_push located standing found fun _ => Node.noConfusion,
        found⟩
  | link target =>
      rw [leadsToFile] at file
      dsimp only at file
      split at file
      · next contents reached =>
          obtain ⟨location, located, standing⟩ := Workspace.status_eq_ok_iff.mp reached
          exact ⟨location, contents, located, standing⟩
      · cases file
  | directory | pipe => cases file

/-- A path from the root ends in a name.  From wherever it is followed, it leads to the file to
which the name leads in its directory. -/
structure PointsAt (workspace : Workspace) (directory : Path) (name : FileName) (path : Path) :
    Prop where
  fromRoot : Path.isAbsolute path = true
  named : Path.fileName path = some name.bytes
  reached : exists location contents,
    workspace.locate (Path.push directory name.bytes) = .ok location ∧
      (forall here, Workspace.locate ⟨workspace.files, here⟩ path = .ok location) ∧
      workspace.files.node? location = some (.file contents)

/-- The source of a secret points at the entry exactly if the name of the entry is a text. -/
theorem pointsAt_iff {spec : SecretSpec} {entries : List (FileName × Node)}
    {entry : FileName × Node} (real : workspace.files.IsReal workspace.directory)
    (listed : workspace.list spec.src = .ok entries) (member : entry ∈ entries)
    (file : leadsToFile workspace spec entry = true) :
    PointsAt workspace spec.src entry.1 (ofName workspace spec entry.1).src ↔
      Utf8.IsText entry.1.bytes := by
  have plain := plain_display entry.1
  rw [← src_ofName]
  constructor
  · intro points
    have named := points.named
    rw [Path.fileName_push plain] at named
    exact Option.some.inj named
  · intro isText
    have same : ofText entry.1.display = entry.1.bytes := isText
    obtain ⟨location, contents, located, standing⟩ := exists_file_of_entry listed member file
    rw [same] at plain ⊢
    refine ⟨?_, Path.fileName_push plain, location, contents, located,
      Workspace.locate_push_absolute real located, standing⟩
    rw [Path.isAbsolute_push plain.free]
    exact Path.isAbsolute_absolute rfl spec.src

/-- Every secret comes from an entry of a listed directory.  Its source is a path from the root that
ends in the name of this entry and leads to the file to which the entry leads from the current
directory, exactly if the name is a text. -/
theorem source_leads_to_entry_iff (real : workspace.files.IsReal workspace.directory)
    (resolved : (resolve workspace specs).result = .ok mappings) (member : mapping ∈ mappings) :
    exists spec entries entry, spec ∈ specs ∧ workspace.list spec.src = .ok entries ∧
      entry ∈ entries ∧ mapping = ofName workspace spec entry.1 ∧
      (PointsAt workspace spec.src entry.1 mapping.src ↔ Utf8.IsText entry.1.bytes) := by
  obtain ⟨spec, entries, entry, among, listed, found, file, rfl⟩ :=
    exists_entry_of_mem resolved member
  exact ⟨spec, entries, entry, among, listed, found, rfl, pointsAt_iff real listed found file⟩

def aliasName : FileName := ⟨ofText "alias".toList, by decide⟩

def tokenName : FileName := ⟨ofText "token".toList, by decide⟩

/-- A current directory with a link in it that leads away, and beside the target of the link a
directory of secrets, one of which is a link as well. -/
def linkedSecrets : Workspace :=
  let home : FileName := ⟨ofText "home".toList, by decide⟩
  let data : FileName := ⟨ofText "data".toList, by decide⟩
  let secrets : FileName := ⟨ofText "secrets".toList, by decide⟩
  { directory := [home]
    files := ⟨[([home], .directory),
      ([home, ⟨ofText "out".toList, by decide⟩], .link (ofText "/data/in".toList)),
      ([data], .directory), ([data, ⟨ofText "in".toList, by decide⟩], .directory),
      ([data, secrets], .directory),
      ([data, secrets, tokenName], .file []),
      ([data, secrets, aliasName], .link (ofText "./token".toList))]⟩ }

/-- The directory of secrets, by way of the link and back. -/
def linkedSpec : SecretSpec :=
  ⟨ofText "./out/..//secrets/".toList, none, false⟩

theorem isReal_linkedSecrets : linkedSecrets.files.IsReal linkedSecrets.directory :=
  @FileSystem.IsReal.child _ [] (FileSystem.isReal_root _) (FileSystem.node?_root _)
    ⟨ofText "home".toList, by decide⟩ .directory (by decide) fun _ => Node.noConfusion

/-- The secret that is a link. -/
def aliasSecret : SecretMapping :=
  ⟨ofText "/home/out/../secrets/alias".toList, "secrets/alias".toList⟩

/-- The secret that is a file. -/
def tokenSecret : SecretMapping :=
  ⟨ofText "/home/out/../secrets/token".toList, "secrets/token".toList⟩

theorem list_linkedSecrets : linkedSecrets.list linkedSpec.src =
    .ok [(aliasName, .link (ofText "./token".toList)), (tokenName, .file [])] := by
  cbv

theorem resolve_linkedSecrets :
    (resolve linkedSecrets [linkedSpec]).result = .ok [aliasSecret, tokenSecret] := by
  have reached : linkedSecrets.status (Path.push linkedSpec.src aliasName.bytes) =
      .ok (.file []) := by cbv
  have leads : findingsOfEntry linkedSecrets linkedSpec
      (aliasName, .link (ofText "./token".toList)) =
        [.secret (ofName linkedSecrets linkedSpec aliasName)] := by
    simp only [findingsOfEntry, reached]
  rw [resolve, result_ofSpecs, findings_cons_of_list list_linkedSecrets, List.flatMap_cons, leads]
  rfl

/-- The secret that is a link leads to the file, through both links and back from the first. -/
theorem source_leads_to_entry_iff_linked :
    linkedSecrets.files.IsReal linkedSecrets.directory ∧
      (resolve linkedSecrets [linkedSpec]).result = .ok [aliasSecret, tokenSecret] ∧
      PointsAt linkedSecrets linkedSpec.src aliasName aliasSecret.src := by
  obtain ⟨spec, entries, entry, among, listed, found, same, points⟩ :=
    source_leads_to_entry_iff isReal_linkedSecrets resolve_linkedSecrets List.mem_cons_self
  obtain rfl := List.mem_singleton.mp among
  rw [list_linkedSecrets] at listed
  cases listed
  simp only [List.mem_cons, List.not_mem_nil, or_false] at found
  rcases found with rfl | rfl
  · exact ⟨isReal_linkedSecrets, resolve_linkedSecrets, points.mpr (by decide)⟩
  · exact absurd (congrArg SecretMapping.id same) (by decide)

/-- A name that is no text. -/
def undecodableName : FileName := ⟨ofText "tok".toList ++ [0xff], by decide⟩

/-- A directory in which it is the only one. -/
def undecodable : Workspace :=
  let keys : FileName := ⟨ofText "k".toList, by decide⟩
  { directory := []
    files := ⟨[([keys], .directory), ([keys, undecodableName], .file [])]⟩ }

/-- The file that is found and the path on which it is reported. -/
def undecodableSecret : SecretMapping :=
  ⟨ofText "/k/tok\uFFFD".toList, "k/tok\uFFFD".toList⟩

/-- A file whose name is no text is resolved, but on the path that is reported there is nothing. -/
theorem source_of_undecodable :
    undecodable.files.IsReal undecodable.directory ∧
      (resolve undecodable [⟨ofText "k".toList, none, false⟩]).result = .ok [undecodableSecret] ∧
      undecodable.list (ofText "k".toList) = .ok [(undecodableName, .file [])] ∧
      ¬PointsAt undecodable (ofText "k".toList) undecodableName undecodableSecret.src ∧
      undecodable.locate undecodableSecret.src = .error .notFound := by
  have named : Path.fileName undecodableSecret.src ≠ some undecodableName.bytes := by decide
  have listed : undecodable.list (ofText "k".toList) = .ok [(undecodableName, .file [])] := by cbv
  refine ⟨FileSystem.isReal_root _, ?_, listed, fun points => named points.named, by cbv⟩
  rw [resolve, result_ofSpecs, findings_cons_of_list listed]
  rfl

end SecretMapping
end BuildInputs

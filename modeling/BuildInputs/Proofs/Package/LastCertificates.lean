import BuildInputs.Proofs.Package.Certificates

namespace BuildInputs
namespace Package
namespace Certificates

/-!
# The last of several certificates

A directory may hold several keys and several certificates.  The one that is chosen of each kind has
the greatest name in the order of bytes, so that `9-key.pem` is chosen before `10-key.pem`.  This is
decided by the names that are listed and by nothing else: what the entries are, in which order the
file system keeps them and what other names stand between them makes no difference.

The chosen names are spelled with the path of the directory in front.  Only a `.` at its front goes,
since the search leaves it out of what it finds.  The search is for texts: a name that is none is
not chosen, and a directory whose path is none is not the one that is looked into.
-/

open BuildInputs.Path (ofText)

/-- A directory can be listed and has an entry with this name. -/
def Lists (workspace : Workspace) (directory : Path) (name : FileName) : Prop :=
  exists entries, workspace.list (Glob.orHere directory) = .ok entries ∧
    exists entry, entry ∈ entries ∧ entry.1 = name

/-- The greatest name of a kind in a directory. -/
def IsLastOf (kind : FileName -> Bool) (workspace : Workspace) (directory : Path)
    (name : FileName) : Prop :=
  FileName.IsGreatest (fun other => Lists workspace directory other ∧ kind other = true) name

/-- A path spells an entry of a directory, without a `.` at the front. -/
def Spells (directory : Path) (name : FileName) (path : Path) : Prop :=
  Path.components path =
    (Path.components (Path.push directory name.bytes)).filter fun part => part ≠ .current

section

variable {workspace : Workspace} {directory path : Path} {name : FileName}

theorem lists_iff_of_list {entries : List (FileName × Node)}
    (listed : workspace.list (Glob.orHere directory) = .ok entries) :
    Lists workspace directory name ↔ name ∈ entries.map (·.1) := by
  rw [List.mem_map, Lists]
  constructor
  · rintro ⟨others, also, found⟩
    rw [listed] at also
    cases also
    exact found
  · exact fun found => ⟨entries, listed, found⟩

/-- A listing is in order, so that its last name of a kind is the greatest. -/
theorem isLastOf_iff_of_list {kind : FileName -> Bool} {entries : List (FileName × Node)}
    (listed : workspace.list (Glob.orHere directory) = .ok entries) :
    IsLastOf kind workspace directory name ↔
      ((entries.map (·.1)).filter kind).getLast? = some name := by
  have ordered : FileName.Ordered ((entries.map (·.1)).filter kind) :=
    (Workspace.isListing_of_list listed).ordered.filter kind
  have among : (fun other => Lists workspace directory other ∧ kind other = true) =
      fun other => other ∈ (entries.map (·.1)).filter kind := by
    funext other
    rw [lists_iff_of_list listed, List.mem_filter]
  rw [ordered.getLast?_eq_some_iff, IsLastOf, among]

/-! ## Names and paths -/

/-- The last path of a kind is that of the greatest name. -/
theorem getLast?_entries_iff {ending : Text} {test : Path -> Bool} {kind : FileName -> Bool}
    {found : Path} (same : Path.SameCourse path (Glob.orHere directory))
    (agree : forall name : FileName,
      kind name = (test (Glob.entryPath path name.bytes) && Glob.endsIn ending name.bytes)) :
    ((Glob.entriesEndingIn workspace ending path).filter test).getLast? = some found ↔
      exists name, IsLastOf kind workspace directory name ∧
        found = Glob.entryPath path name.bytes := by
  cases listed : workspace.list path with
  | error failure =>
      have nothing : Glob.entriesEndingIn workspace ending path = [] := by
        rw [Glob.entriesEndingIn, Glob.childNames, listed]
        rfl
      rw [nothing]
      refine iff_of_false (fun found => by cases found) ?_
      rintro ⟨name, ⟨⟨⟨entries, also, -⟩, -⟩, -⟩, -⟩
      rw [Workspace.list_of_sameCourse same.symm also] at listed
      cases listed
  | ok entries =>
      have kept : (Glob.entriesEndingIn workspace ending path).filter test =
          ((entries.map (·.1)).filter kind).map fun name => Glob.entryPath path name.bytes := by
        rw [entriesEndingIn_of_list listed, List.filter_map, List.filter_filter]
        exact congrArg _ (List.filter_congr fun name _ => (agree name).symm)
      rw [kept, List.getLast?_map, Option.map_eq_some_iff]
      simp only [isLastOf_iff_of_list (Workspace.list_of_sameCourse same listed), eq_comm]

/-- Where the search arrives, it chooses the greatest key and the greatest certificate. -/
theorem ofPaths_eq_some_iff_isLastOf {certificates : Certificates}
    (arrives : Glob.doublesHere directory = false) :
    ofPaths (Glob.entriesEndingIn workspace ".pem".toList (Glob.reached directory)) =
        some certificates ↔
      exists key certificate, IsLastOf isKeyName workspace directory key ∧
        IsLastOf isCertificateName workspace directory certificate ∧
        certificates = ⟨Glob.entryPath (Glob.reached directory) key.bytes,
          Glob.entryPath (Glob.reached directory) certificate.bytes⟩ := by
  have same := Glob.sameCourse_reached arrives
  have keys : forall name : FileName, isKeyName name =
      (isKey (Glob.entryPath (Glob.reached directory) name.bytes) &&
        Glob.endsIn ".pem".toList name.bytes) := by
    intro name
    cases ends : Glob.endsIn ".pem".toList name.bytes with
    | true => rw [isKey_entryPath (isText_of_endsIn ends), Bool.and_true]
    | false =>
        rw [Bool.and_false, Bool.eq_false_iff]
        intro key
        rw [pem_of_isKeyName key] at ends
        cases ends
  have others : forall name : FileName, isCertificateName name =
      (!isKey (Glob.entryPath (Glob.reached directory) name.bytes) &&
        Glob.endsIn ".pem".toList name.bytes) := by
    intro name
    rw [isCertificateName, Bool.and_comm]
    cases ends : Glob.endsIn ".pem".toList name.bytes with
    | true => rw [isKey_entryPath (isText_of_endsIn ends)]
    | false => rw [Bool.and_false, Bool.and_false]
  rw [ofPaths_eq_some_iff, getLast?_entries_iff same keys, getLast?_entries_iff same others]
  constructor
  · rintro ⟨⟨key, isLastKey, sameKey⟩, ⟨certificate, isLastCertificate, sameCertificate⟩⟩
    cases certificates
    cases sameKey
    cases sameCertificate
    exact ⟨key, certificate, isLastKey, isLastCertificate, rfl⟩
  · rintro ⟨key, certificate, isLastKey, isLastCertificate, rfl⟩
    exact ⟨⟨key, isLastKey, rfl⟩, ⟨certificate, isLastCertificate, rfl⟩⟩

/-- The choice depends on the names alone. -/
theorem ofPaths_of_same_names {other : Workspace} (arrives : Glob.doublesHere directory = false)
    (same : forall name, Lists other directory name ↔ Lists workspace directory name) :
    ofPaths (Glob.entriesEndingIn other ".pem".toList (Glob.reached directory)) =
      ofPaths (Glob.entriesEndingIn workspace ".pem".toList (Glob.reached directory)) := by
  have last : forall {kind : FileName -> Bool} {name : FileName},
      IsLastOf kind other directory name ↔ IsLastOf kind workspace directory name := by
    intro kind name
    rw [IsLastOf, IsLastOf, funext fun name => propext (and_congr_left' (same name))]
  refine Option.ext fun certificates => ?_
  rw [ofPaths_eq_some_iff_isLastOf arrives, ofPaths_eq_some_iff_isLastOf arrives]
  simp only [last]

end

/-- In a directory whose path has no character that means something else in a pattern, looking for
the certificates never fails, and the result depends on no more than the names in the directory as
it is shown, which is the directory itself if its path is a text.  Unless this path is spelled with
`./` and one slash too many, something is found exactly if the directory can be listed and holds a
key and a certificate, and then it is the greatest key and the greatest certificate in the order of
bytes, spelled in the directory. -/
theorem find_takes_last (workspace : Workspace) (directory : Path)
    (plain : directory.display.any Glob.isSpecial = false) :
    exists found, find workspace directory = .ok found ∧
      (Glob.doublesHere directory.shown = false ->
        (found.isSome = true ↔ HoldsPair workspace directory.shown) ∧
        forall certificates, found = some certificates ->
          exists key certificate, IsLastOf isKeyName workspace directory.shown key ∧
            IsLastOf isCertificateName workspace directory.shown certificate ∧
            Spells directory.shown key certificates.clientKey ∧
            Spells directory.shown certificate certificates.clientCertificate) ∧
      forall other : Workspace,
        (forall name, Lists other directory.shown name ↔ Lists workspace directory.shown name) ->
          find other directory = .ok found := by
  refine ⟨_, find_eq plain, ?_, ?_⟩
  · intro arrives
    rw [arrives, if_neg Bool.false_ne_true]
    refine ⟨ofPaths_isSome_iff_holdsPair arrives, fun certificates found => ?_⟩
    obtain ⟨key, certificate, isLastKey, isLastCertificate, rfl⟩ :=
      (ofPaths_eq_some_iff_isLastOf arrives).mp found
    exact ⟨key, certificate, isLastKey, isLastCertificate,
      Glob.components_entryPath_reached arrives (FileSystem.plain_of_name key),
      Glob.components_entryPath_reached arrives (FileSystem.plain_of_name certificate)⟩
  · intro other same
    rw [find_eq plain]
    cases arrives : Glob.doublesHere directory.shown with
    | true => rfl
    | false =>
        rw [if_neg Bool.false_ne_true, if_neg Bool.false_ne_true,
          ofPaths_of_same_names arrives same]

/-- The greater of two keys. -/
def lastKeyName : FileName := ⟨ofText "9-key.pem".toList, by decide⟩

/-- The greatest of three certificates. -/
def lastCertificateName : FileName := ⟨ofText "a.pem".toList, by decide⟩

/-- A directory with several keys, several certificates and a file that is neither. -/
def crowded : Workspace :=
  holding [(⟨ofText "crowd".toList, by decide⟩,
    [lastCertificateName, ⟨ofText "10-key.pem".toList, by decide⟩,
      ⟨ofText ".pem".toList, by decide⟩, lastKeyName, ⟨ofText "z.txt".toList, by decide⟩,
      certificateName])]

theorem find_takes_last_crowded :
    (ofText "crowd".toList).display.any Glob.isSpecial = false ∧
      exists certificates, find crowded (ofText "crowd".toList) = .ok (some certificates) ∧
        Spells (ofText "crowd".toList) lastKeyName certificates.clientKey ∧
        Spells (ofText "crowd".toList) lastCertificateName certificates.clientCertificate := by
  have plain : (ofText "crowd".toList).display.any Glob.isSpecial = false := by decide
  have listed : crowded.list (Glob.orHere (ofText "crowd".toList)) =
      .ok [(⟨ofText ".pem".toList, by decide⟩, .file []),
        (⟨ofText "10-key.pem".toList, by decide⟩, .file []), (certificateName, .file []),
        (lastKeyName, .file []), (lastCertificateName, .file []),
        (⟨ofText "z.txt".toList, by decide⟩, .file [])] := by cbv
  have isLastKey : IsLastOf isKeyName crowded (ofText "crowd".toList) lastKeyName :=
    (isLastOf_iff_of_list listed).mpr (by decide)
  have isLastCertificate :
      IsLastOf isCertificateName crowded (ofText "crowd".toList) lastCertificateName :=
    (isLastOf_iff_of_list listed).mpr (by decide)
  obtain ⟨found, result, choice, -⟩ := find_takes_last crowded (ofText "crowd".toList) plain
  rw [Path.shown_ofText] at choice
  obtain ⟨complete, chosen⟩ := choice (by decide)
  have isSome := complete.mpr ⟨_, listed, ⟨_, List.mem_cons_of_mem _ List.mem_cons_self, by decide⟩,
    ⟨_, List.mem_cons_self, by decide⟩⟩
  obtain ⟨certificates, rfl⟩ := Option.isSome_iff_exists.mp isSome
  obtain ⟨key, certificate, isKey, isCertificate, keySpelled, certificateSpelled⟩ :=
    chosen certificates rfl
  rw [isLastKey.unique isKey] at keySpelled
  rw [isLastCertificate.unique isCertificate] at certificateSpelled
  exact ⟨plain, certificates, result, keySpelled, certificateSpelled⟩

/-- The name of a directory that is no text. -/
def garbledName : FileName := ⟨[0x63, 0xff], by decide⟩

/-- The name of a key that is no text. -/
def garbledKeyName : FileName := ⟨0xff :: ofText "-key.pem".toList, by decide⟩

/-- A directory whose name is no text, and one with a key whose name is none. -/
def garbled : Workspace :=
  holding [(garbledName, [keyName, certificateName]),
    (⟨ofText "keyless".toList, by decide⟩, [garbledKeyName, certificateName])]

theorem find_dotted : find plainlyNamed (ofText "./certs".toList) =
    .ok (some ⟨ofText "certs/2-key.pem".toList, ofText "certs/2.pem".toList⟩) := by
  have entries : Glob.entriesEndingIn plainlyNamed ".pem".toList
      (Glob.reached (ofText "./certs".toList).shown) =
        [ofText "certs/2-key.pem".toList, ofText "certs/2.pem".toList] := by
    have listed : plainlyNamed.list (ofText "certs".toList) =
        .ok [(keyName, .file []), (certificateName, .file [])] := by cbv
    rw [show Glob.reached (ofText "./certs".toList).shown = ofText "certs".toList from rfl,
      entriesEndingIn_of_list listed]
    rfl
  rw [find_eq (by decide), entries]
  rfl

theorem find_garbled : find garbled garbledName.bytes = .ok none := by
  have entries : Glob.entriesEndingIn garbled ".pem".toList
      (Glob.reached (Path.shown garbledName.bytes)) = [] := by
    have missing : garbled.list (ofText "c\uFFFD".toList) = .error .notFound := by cbv
    rw [show Glob.reached (Path.shown garbledName.bytes) = ofText "c\uFFFD".toList from rfl,
      Glob.entriesEndingIn, Glob.childNames, missing]
    rfl
  rw [find_eq (by decide), entries]
  rfl

theorem list_keyless : garbled.list (ofText "keyless".toList) =
    .ok [(certificateName, .file []), (garbledKeyName, .file [])] := by
  cbv

theorem find_keyless : find garbled (ofText "keyless".toList) = .ok none := by
  have entries : Glob.entriesEndingIn garbled ".pem".toList
      (Glob.reached (ofText "keyless".toList).shown) = [ofText "keyless/2.pem".toList] := by
    rw [show Glob.reached (ofText "keyless".toList).shown = ofText "keyless".toList from rfl,
      entriesEndingIn_of_list list_keyless]
    rfl
  rw [find_eq (by decide), entries]
  rfl

/-- A directory that is spelled with `./` in front is searched, but what is found in it is not the
path of the directory with a name behind it.  A directory whose path is no text is not found, and a
key whose name is none is passed over. -/
theorem find_leaves_out :
    ((ofText "./certs".toList).display.any Glob.isSpecial = false ∧
      HoldsPair plainlyNamed (ofText "./certs".toList) ∧
      IsLastOf isKeyName plainlyNamed (ofText "./certs".toList) keyName ∧
      find plainlyNamed (ofText "./certs".toList) =
        .ok (some ⟨ofText "certs/2-key.pem".toList, ofText "certs/2.pem".toList⟩) ∧
      Path.components (ofText "certs/2-key.pem".toList) ≠
        Path.components (Path.push (ofText "./certs".toList) keyName.bytes)) ∧
    ((Path.display garbledName.bytes).any Glob.isSpecial = false ∧
      HoldsPair garbled garbledName.bytes ∧ find garbled garbledName.bytes = .ok none) ∧
    ((ofText "keyless".toList).display.any Glob.isSpecial = false ∧
      Lists garbled (ofText "keyless".toList) garbledKeyName ∧
      (ofText "-key.pem".toList).isSuffixOf garbledKeyName.bytes = true ∧
      Lists garbled (ofText "keyless".toList) certificateName ∧
      find garbled (ofText "keyless".toList) = .ok none) := by
  have dotted : plainlyNamed.list (Glob.orHere (ofText "./certs".toList)) =
      .ok [(keyName, .file []), (certificateName, .file [])] := by cbv
  have keyless : garbled.list (Glob.orHere (ofText "keyless".toList)) =
      .ok [(certificateName, .file []), (garbledKeyName, .file [])] := list_keyless
  refine ⟨⟨by decide, holdsPair_of_list dotted, (isLastOf_iff_of_list dotted).mpr (by decide),
      find_dotted, by decide⟩,
    ⟨by decide, holdsPair_of_list (by cbv), find_garbled⟩,
    ⟨by decide, ?_, by decide, ?_, find_keyless⟩⟩
  · exact (lists_iff_of_list keyless).mpr (by decide)
  · exact (lists_iff_of_list keyless).mpr (by decide)

end Certificates
end Package
end BuildInputs

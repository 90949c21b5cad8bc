import Mathlib.Data.List.Permutation
import BuildInputs.Package.Certificates
import BuildInputs.Proofs.Glob.Endings

namespace BuildInputs
namespace Package
namespace Certificates

/-!
# The directory of the certificates

The directory is given as a path, and what is shown for it becomes part of a pattern.  If no
character in it means something else there, the certificates are looked for in the directory that
is shown and in no other, and a key and a certificate in it are found.  This is the given directory
if its path is a text.  One spelling is lost even so: `./` at the front with another slash behind
it.  Names that are no texts are passed over.

A character that means something else breaks this in every respect.  A bracket that is not closed is
an error.  A set stands for one of its characters and not for its own spelling, so that the
directory itself is passed over.  And a star may find the key in one directory and the certificate in
another.
-/

open BuildInputs.Path (ofText)

/-- A path names an entry that is listed in a directory: but for `.`, its components are those of
the directory and the name of the entry. -/
def LiesIn (workspace : Workspace) (directory path : Path) : Prop :=
  exists entries entry, workspace.list (Glob.orHere directory) = .ok entries ∧ entry ∈ entries ∧
    (Path.components path).filter (fun part => part ≠ .current) =
      (Path.components directory).filter (fun part => part ≠ .current) ++ [.name entry.1.bytes]

/-- Whether a name is that of a key. -/
def isKeyName (name : FileName) : Bool :=
  Glob.endsIn "-key.pem".toList name.bytes

/-- Whether a name is that of a certificate. -/
def isCertificateName (name : FileName) : Bool :=
  Glob.endsIn ".pem".toList name.bytes && !isKeyName name

/-- A directory can be listed and holds a key and a certificate. -/
def HoldsPair (workspace : Workspace) (directory : Path) : Prop :=
  exists entries, workspace.list (Glob.orHere directory) = .ok entries ∧
    (exists entry, entry ∈ entries ∧ isKeyName entry.1 = true) ∧
      exists entry, entry ∈ entries ∧ isCertificateName entry.1 = true

/-! ## A key and a certificate among some files -/

section

variable {paths : List Path}

theorem getLast?_filter_isSome {test : Path -> Bool} :
    (paths.filter test).getLast?.isSome = true ↔ exists path, path ∈ paths ∧ test path = true := by
  rw [List.getLast?_isSome, Ne, List.filter_eq_nil_iff]
  simp

theorem ofPaths_eq_some_iff {certificates : Certificates} :
    ofPaths paths = some certificates ↔
      (paths.filter isKey).getLast? = some certificates.clientKey ∧
        (paths.filter fun path => !isKey path).getLast? = some certificates.clientCertificate := by
  rw [ofPaths]
  cases (paths.filter isKey).getLast? with
  | none => exact iff_of_false nofun fun both => nomatch both.1
  | some key =>
      cases (paths.filter fun path => !isKey path).getLast? with
      | none => exact iff_of_false nofun fun both => nomatch both.2
      | some certificate =>
          cases certificates
          simp

theorem ofPaths_isSome_iff :
    (ofPaths paths).isSome = true ↔
      (exists path, path ∈ paths ∧ isKey path = true) ∧
        exists path, path ∈ paths ∧ (!isKey path) = true := by
  rw [← getLast?_filter_isSome, ← getLast?_filter_isSome, ofPaths]
  cases (paths.filter isKey).getLast? <;>
    cases (paths.filter fun path => !isKey path).getLast? <;> simp

end

/-! ## The entries of a directory -/

section

variable {workspace : Workspace} {directory path : Path}

theorem fileName_entryPath {name : Path} (plain : Path.IsPlain name) :
    Path.fileName (Glob.entryPath path name) = some name := by
  rw [Glob.entryPath]
  split
  · exact @Path.fileName_of_fields _ [] _ plain (Text.fields_of_free plain.free)
  · exact Path.fileName_push plain

theorem isKey_entryPath {name : FileName} (isText : Utf8.IsText name.bytes) :
    isKey (Glob.entryPath path name.bytes) = isKeyName name := by
  rw [isKey, fileName_entryPath (FileSystem.plain_of_name name), isKeyName, Glob.endsIn,
    decide_eq_true isText]
  rfl

theorem find_eq (plain : directory.display.any Glob.isSpecial = false) :
    find workspace directory =
      .ok (ofPaths (if Glob.doublesHere directory.shown then []
        else Glob.entriesEndingIn workspace ".pem".toList (Glob.reached directory.shown))) := by
  have star : Glob.IsStarIn directory.display ".pem".toList (patternIn directory) :=
    ⟨Path.shown_push_ofText directory "*.pem".toList, plain, by decide, by decide⟩
  rw [find, star.paths_eq]
  rfl

theorem isText_of_endsIn {ending : Text} {name : Path} (ends : Glob.endsIn ending name = true) :
    Utf8.IsText name :=
  of_decide_eq_true (Bool.and_eq_true_iff.mp ends).1

/-- The ending of a key is found as well. -/
theorem pem_of_isKeyName {name : FileName} (key : isKeyName name = true) :
    Glob.endsIn ".pem".toList name.bytes = true := by
  obtain ⟨isText, ends⟩ := Bool.and_eq_true_iff.mp key
  have ending : ".pem".toList <:+ "-key.pem".toList := by decide
  rw [Glob.endsIn, isText, Bool.true_and, List.isSuffixOf_iff_suffix]
  exact ending.trans (List.isSuffixOf_iff_suffix.mp ends)

/-- What is found lies in the directory. -/
theorem liesIn_of_mem (arrives : Glob.doublesHere directory = false)
    (member : path ∈ Glob.entriesEndingIn workspace ".pem".toList (Glob.reached directory)) :
    LiesIn workspace directory path := by
  have same := Glob.sameCourse_reached arrives
  obtain ⟨entries, entry, listed, inside, -, rfl⟩ := (Glob.mem_entriesEndingIn_iff same).mp member
  refine ⟨entries, entry, listed, inside, ?_⟩
  change Path.course _ = Path.course directory ++ _
  rw [Glob.course_entryPath_plain same.nonempty (FileSystem.plain_of_name entry.1),
    same.course_eq, Glob.course_orHere]

/-- Among what is found there is a key and a certificate exactly if the directory holds both. -/
theorem ofPaths_isSome_iff_holdsPair (arrives : Glob.doublesHere directory = false) :
    (ofPaths (Glob.entriesEndingIn workspace ".pem".toList (Glob.reached directory))).isSome =
        true ↔
      HoldsPair workspace directory := by
  have same := Glob.sameCourse_reached arrives
  rw [ofPaths_isSome_iff]
  simp only [Glob.mem_entriesEndingIn_iff same]
  constructor
  · rintro ⟨⟨key, ⟨entries, entry, listed, inside, keyEnds, rfl⟩, isKey⟩,
      ⟨certificate, ⟨others, other, listedToo, insideToo, ends, rfl⟩, notKey⟩⟩
    rw [listed] at listedToo
    cases listedToo
    rw [isKey_entryPath (isText_of_endsIn keyEnds)] at isKey
    rw [isKey_entryPath (isText_of_endsIn ends)] at notKey
    exact ⟨entries, listed, ⟨entry, inside, isKey⟩,
      ⟨other, insideToo, Bool.and_eq_true_iff.mpr ⟨ends, notKey⟩⟩⟩
  · rintro ⟨entries, listed, ⟨key, inside, isKey⟩, ⟨certificate, insideToo, isCertificate⟩⟩
    obtain ⟨ends, notKey⟩ := Bool.and_eq_true_iff.mp isCertificate
    exact ⟨⟨_, ⟨entries, key, listed, inside, pem_of_isKeyName isKey, rfl⟩,
        by rwa [isKey_entryPath (isText_of_endsIn isKey)]⟩,
      ⟨_, ⟨entries, certificate, listed, insideToo, ends, rfl⟩,
        by rwa [isKey_entryPath (isText_of_endsIn ends)]⟩⟩

end

theorem entriesEndingIn_of_list {workspace : Workspace} {path : Path} {ending : Text}
    {entries : List (FileName × Node)}
    (listed : workspace.list path = .ok entries) :
    Glob.entriesEndingIn workspace ending path =
      ((entries.map (·.1)).filter fun name => Glob.endsIn ending name.bytes).map
        fun name => Glob.entryPath path name.bytes := by
  rw [Glob.entriesEndingIn, Glob.childNames, listed]
  simp only [List.filter_map, List.map_map]
  rfl

/-! ## Looking into a directory -/

/-- In a directory whose path has no character that means something else in a pattern, looking for
the certificates never fails, and what is found lies in the directory as it is shown, which is the
directory itself if its path is a text.  Something is found exactly if this directory holds a key
and a certificate and is not spelled with `./` and one slash too many. -/
theorem find_looks_inside (workspace : Workspace) (directory : Path)
    (plain : directory.display.any Glob.isSpecial = false) :
    exists found, find workspace directory = .ok found ∧
      (forall certificates, found = some certificates ->
        LiesIn workspace directory.shown certificates.clientKey ∧
          LiesIn workspace directory.shown certificates.clientCertificate) ∧
      (found.isSome = true ↔
        Glob.doublesHere directory.shown = false ∧ HoldsPair workspace directory.shown) := by
  refine ⟨_, find_eq plain, ?_⟩
  cases arrives : Glob.doublesHere directory.shown with
  | true =>
      rw [if_pos rfl]
      exact ⟨nofun, iff_of_false nofun fun both => nomatch both.1⟩
  | false =>
      rw [if_neg Bool.false_ne_true, ofPaths_isSome_iff_holdsPair arrives]
      refine ⟨?_, (and_iff_right rfl).symm⟩
      intro certificates found
      obtain ⟨key, certificate⟩ := ofPaths_eq_some_iff.mp found
      have among : forall {test : Path -> Bool} {files : List Path} {file : Path},
          (files.filter test).getLast? = some file -> file ∈ files :=
        fun last => (List.mem_filter.mp (List.mem_of_getLast? last)).1
      exact ⟨liesIn_of_mem arrives (among key), liesIn_of_mem arrives (among certificate)⟩

/-! ## Directories that are missed -/

/-- The files with these names in directories directly below the current one. -/
def holding (directories : List (FileName × List FileName)) : Workspace where
  directory := []
  files := ⟨directories.flatMap fun directory =>
    ([directory.1], .directory) :: directory.2.map fun name => ([directory.1, name], .file [])⟩

def keyName : FileName := ⟨ofText "2-key.pem".toList, by decide⟩

def certificateName : FileName := ⟨ofText "2.pem".toList, by decide⟩

/-- A directory that holds both, with a plain name. -/
def plainlyNamed : Workspace :=
  holding [(⟨ofText "certs".toList, by decide⟩, [keyName, certificateName])]

/-- A directory that holds both, with brackets in its name. -/
def bracketed : Workspace :=
  holding [(⟨ofText "[p]".toList, by decide⟩, [keyName, certificateName])]

/-- Two directories with one of each. -/
def divided : Workspace :=
  holding [(⟨ofText "split-a".toList, by decide⟩, [keyName]),
    (⟨ofText "split-b".toList, by decide⟩, [certificateName])]

theorem holdsPair_of_list {workspace : Workspace} {directory : Path}
    (listed : workspace.list (Glob.orHere directory) =
      .ok [(keyName, .file []), (certificateName, .file [])]) : HoldsPair workspace directory :=
  ⟨_, listed, ⟨_, List.mem_cons_self, by decide⟩,
    ⟨_, List.mem_cons_of_mem _ List.mem_cons_self, by decide⟩⟩

theorem find_looks_inside_plainlyNamed :
    (ofText "certs".toList).display.any Glob.isSpecial = false ∧
      exists certificates, find plainlyNamed (ofText "certs".toList) = .ok (some certificates) ∧
        LiesIn plainlyNamed (ofText "certs".toList) certificates.clientKey ∧
          LiesIn plainlyNamed (ofText "certs".toList) certificates.clientCertificate := by
  have plain : (ofText "certs".toList).display.any Glob.isSpecial = false := by decide
  obtain ⟨found, result, inside, complete⟩ :=
    find_looks_inside plainlyNamed (ofText "certs".toList) plain
  rw [Path.shown_ofText] at inside complete
  have isSome := complete.mpr ⟨by decide, holdsPair_of_list (by cbv)⟩
  obtain ⟨certificates, rfl⟩ := Option.isSome_iff_exists.mp isSome
  exact ⟨plain, certificates, result, inside certificates rfl⟩

/-- The elements of a set with one character. -/
def bracketPattern : Glob.ComponentPattern :=
  [.oneOf [.single 'p']]

theorem find_unclosed (workspace : Workspace) :
    find workspace (ofText "e[".toList) = .error ⟨1, .invalidRange⟩ := by
  have fault : Glob.parse (patternIn (ofText "e[".toList)) = .error ⟨1, .invalidRange⟩ := by rfl
  rw [find, Glob.paths, fault]
  rfl

theorem find_bracketed : find bracketed (ofText "[p]".toList) = .ok none := by
  have children : Glob.childNames bracketed [Path.dot] = [ofText "[p]".toList] := by cbv
  have others : Glob.isNameMatch bracketPattern (ofText "[p]".toList) = false := by rfl
  have nothing : Glob.search bracketed 166 [Path.dot]
      [bracketPattern, Glob.endingIn ".pem".toList] = [] := by
    rw [Glob.search_wild (by rfl) (by rfl) (by rfl), children]
    simp only [List.filter_cons, others, Bool.false_eq_true, if_false, List.filter_nil,
      List.flatMap_nil]
  have paths : Glob.paths bracketed (patternIn (ofText "[p]".toList)) = .ok [] :=
    congrArg Except.ok nothing
  rw [find, paths]
  rfl

/-- The elements of the common front of two names and a star. -/
def dividedPattern : Glob.ComponentPattern :=
  Glob.literally "split-".toList ++ [.anySequence]

/-- The files that a star finds in two directories. -/
def dividedFiles : Certificates :=
  ⟨ofText "split-a/2-key.pem".toList, ofText "split-b/2.pem".toList⟩

theorem find_divided : find divided (ofText "split-*".toList) = .ok (some dividedFiles) := by
  have children : Glob.childNames divided [Path.dot] =
      [ofText "split-a".toList, ofText "split-b".toList] := by cbv
  have left : Glob.entriesEndingIn divided ".pem".toList (ofText "split-a".toList) =
      [dividedFiles.clientKey] := by
    have listed : divided.list (ofText "split-a".toList) = .ok [(keyName, .file [])] := by cbv
    rw [entriesEndingIn_of_list listed]
    rfl
  have right : Glob.entriesEndingIn divided ".pem".toList (ofText "split-b".toList) =
      [dividedFiles.clientCertificate] := by
    have listed : divided.list (ofText "split-b".toList) = .ok [(certificateName, .file [])] := by
      cbv
    rw [entriesEndingIn_of_list listed]
    rfl
  have both : Glob.search divided 207 [Path.dot] [dividedPattern, Glob.endingIn ".pem".toList] =
      [dividedFiles.clientKey, dividedFiles.clientCertificate] := by
    have first : Glob.isNameMatch dividedPattern (ofText "split-a".toList) = true := by rfl
    have second : Glob.isNameMatch dividedPattern (ofText "split-b".toList) = true := by rfl
    have here : forall name, Glob.entryPath [Path.dot] name = name := fun _ => if_pos rfl
    rw [Glob.search_wild (by rfl) (by rfl) (by rfl), children]
    simp only [List.filter_cons, first, second, if_true, List.filter_nil, List.flatMap_cons,
      List.flatMap_nil, here, Glob.searchOn, Glob.search_endingIn, left, right]
    rfl
  have paths : Glob.paths divided (patternIn (ofText "split-*".toList)) =
      .ok [dividedFiles.clientKey, dividedFiles.clientCertificate] :=
    congrArg Except.ok both
  rw [find, paths]
  rfl

/-- A bracket that is not closed is an error.  A set passes over the directory of its spelling.  A
star finds a pair that no directory holds.  And one slash too many behind `./` loses the directory
even without any of these. -/
theorem find_looks_elsewhere :
    find bracketed (ofText "e[".toList) = .error ⟨1, .invalidRange⟩ ∧
      (HoldsPair bracketed (ofText "[p]".toList) ∧
        find bracketed (ofText "[p]".toList) = .ok none) ∧
      (find divided (ofText "split-*".toList) = .ok (some dividedFiles) ∧
        ¬LiesIn divided (ofText "split-*".toList) dividedFiles.clientKey ∧
        ¬LiesIn divided (ofText "split-*".toList) dividedFiles.clientCertificate) ∧
      (HoldsPair plainlyNamed (ofText ".//certs".toList) ∧
        find plainlyNamed (ofText ".//certs".toList) = .ok none) := by
  have absent : forall path, ¬LiesIn divided (ofText "split-*".toList) path := by
    rintro path ⟨entries, entry, listed, -⟩
    have missing : divided.list (Glob.orHere (ofText "split-*".toList)) = .error .notFound := by
      cbv
    rw [missing] at listed
    cases listed
  have lost : find plainlyNamed (ofText ".//certs".toList) = .ok none := find_eq (by decide)
  exact ⟨find_unclosed _, ⟨holdsPair_of_list (by cbv), find_bracketed⟩,
    ⟨find_divided, absent _, absent _⟩, ⟨holdsPair_of_list (by cbv), lost⟩⟩

end Certificates
end Package
end BuildInputs

import BuildInputs.Proofs.Path.Course
import BuildInputs.Proofs.Secret.Resolution

namespace BuildInputs
namespace SecretMapping

/-!
# When two secrets have one id

An id is a clean spelling, and a clean spelling can be read as a path again: it has the components
of the prefix and then the file name.  So two ids are the same exactly if the names are the same and
the prefixes are spellings of one path.  A `..` in a prefix is not taken back, and a prefix that
begins at the root differs from one that does not.

What an id has of a file is the text that is shown for its name, and this is where an id can be
found taken within one directory.  It does not list a name twice, but what is shown for two names
can be the same if they are not texts.  Otherwise it takes two specifications, the one behind the
other, with secrets whose names are alike below two spellings of one path.
-/

open BuildInputs.Path (ofText)

/-! ## Ids -/

section

variable {label other name otherName : Text}

theorem secretId_eq_ofComponents (plain : Path.IsPlain (ofText name)) :
    ofText (secretId label name) =
      Path.ofComponents (Path.course (ofText label) ++ [.name (ofText name)]) := by
  rw [ofText_secretId, Path.course_push plain]

/-- Read as a path, an id has the components of its prefix and then the file name. -/
theorem course_secretId (plain : Path.IsPlain (ofText name)) :
    Path.course (ofText (secretId label name)) =
      Path.course (ofText label) ++ [.name (ofText name)] := by
  rw [ofText_secretId, Path.course_ofComponents_course, Path.course_push plain]

theorem secretId_eq_iff (plain : Path.IsPlain (ofText name))
    (otherPlain : Path.IsPlain (ofText otherName)) :
    secretId label name = secretId other otherName ↔
      name = otherName ∧ Path.course (ofText label) = Path.course (ofText other) := by
  constructor
  · intro same
    have parts := congrArg (fun id => Path.course (ofText id)) same
    rw [course_secretId plain, course_secretId otherPlain] at parts
    rcases List.append_inj' parts rfl with ⟨courses, names⟩
    exact ⟨Path.ofText_injective (Path.Component.name.inj (List.cons.inj names).1), courses⟩
  · rintro ⟨rfl, courses⟩
    apply Path.ofText_injective
    rw [secretId_eq_ofComponents plain, secretId_eq_ofComponents plain, courses]

end

/-! ## Secrets of one directory -/

/-- The names of the secrets in a directory. -/
def secretNames (workspace : Workspace) (spec : SecretSpec) : List FileName :=
  ((entriesOf workspace spec).filter (leadsToFile workspace spec)).map (·.1)

section

variable {workspace : Workspace} {specs : List SecretSpec} {spec other : SecretSpec}
  {name otherName : FileName} {id : Text}

theorem inDirectory_eq_map (workspace : Workspace) (spec : SecretSpec) :
    inDirectory workspace spec = (secretNames workspace spec).map (ofName workspace spec) := by
  rw [inDirectory, secretNames, List.map_map]
  rfl

theorem id_ofName_eq_iff :
    (ofName workspace spec name).id = (ofName workspace other otherName).id ↔
      name.display = otherName.display ∧
        Path.course (ofText spec.idPrefix) = Path.course (ofText other.idPrefix) := by
  rw [← id_ofName, ← id_ofName, secretId_eq_iff (plain_display name) (plain_display otherName)]

/-- No name comes twice in a directory. -/
theorem nodup_secretNames (workspace : Workspace) (spec : SecretSpec) :
    (secretNames workspace spec).Nodup := by
  have different : ((entriesOf workspace spec).map (·.1)).Nodup := by
    rw [entriesOf]
    split
    · next entries listed =>
        apply (Workspace.isListing_of_list listed).ordered.imp
        rintro first second before rfl
        exact List.lt_irrefl first.bytes before
    · exact List.nodup_nil
  exact different.sublist (List.filter_sublist.map _)

/-- Two names that are texts are not shown alike. -/
theorem name_eq_of_display (isText : Utf8.IsText name.bytes)
    (alsoText : Utf8.IsText otherName.bytes) (alike : name.display = otherName.display) :
    name = otherName := by
  apply FileName.bytes_injective
  rw [← isText, ← alsoText]
  exact congrArg Utf8.encode alike

/-- Two secrets in the directory of a specification have names that are shown alike.  The id is that
of both. -/
def Confuses (workspace : Workspace) (spec : SecretSpec) (id : Text) : Prop :=
  exists name other, [name, other].Sublist (secretNames workspace spec) ∧
    name.display = other.display ∧ id = secretId spec.idPrefix name.display

/-- Names that are texts are not confused. -/
theorem not_confuses_of_isText
    (texts : forall name, name ∈ secretNames workspace spec -> Utf8.IsText name.bytes) :
    ¬Confuses workspace spec id := by
  rintro ⟨name, other, row, alike, -⟩
  have different : [name, other].Nodup := (nodup_secretNames workspace spec).sublist row
  have same := name_eq_of_display (texts name (row.subset List.mem_cons_self))
    (texts other (row.subset (List.mem_cons_of_mem _ List.mem_cons_self))) alike
  exact (List.nodup_cons.mp different).1 (same ▸ List.mem_cons_self)

/-! ## Secrets of several directories -/

/-- Two specifications of a row, the one behind the other, have secrets in their directories whose
names are shown alike, and the ids of both begin with spellings of one path.  The id is that of both
secrets. -/
def Collides (workspace : Workspace) (specs : List SecretSpec) (id : Text) : Prop :=
  exists first second name other, [first, second].Sublist specs ∧
    Path.course (ofText first.idPrefix) = Path.course (ofText second.idPrefix) ∧
    name ∈ secretNames workspace first ∧ other ∈ secretNames workspace second ∧
    name.display = other.display ∧ id = secretId first.idPrefix name.display

/-- One specification does not collide with itself. -/
theorem not_collides_singleton (workspace : Workspace) (spec : SecretSpec) (id : Text) :
    ¬Collides workspace [spec] id := by
  rintro ⟨first, second, name, other, row, -⟩
  exact Nat.not_succ_le_self 1 row.length_le

/-- Two specifications collide exactly if they have secrets with names that are alike, below
spellings of one path. -/
theorem exists_collides_pair_iff {first second : SecretSpec} :
    (exists id, Collides workspace [first, second] id) ↔
      Path.course (ofText first.idPrefix) = Path.course (ofText second.idPrefix) ∧
        exists name other, name ∈ secretNames workspace first ∧
          other ∈ secretNames workspace second ∧ name.display = other.display := by
  constructor
  · rintro ⟨id, left, right, name, other, row, courses, found, foundAgain, alike, -⟩
    cases row.eq_of_length rfl
    exact ⟨courses, name, other, found, foundAgain, alike⟩
  · rintro ⟨courses, name, other, found, foundAgain, alike⟩
    exact ⟨_, first, second, name, other, List.Sublist.refl _, courses, found, foundAgain, alike,
      rfl⟩

/-- If a secret has the id of an earlier one, their names are confused or their specifications
collide. -/
theorem pairwise_alike (workspace : Workspace) (specs : List SecretSpec) :
    (inDirectories workspace specs).Pairwise fun first second => first.id = second.id ->
      Collides workspace specs first.id ∨
        exists spec, spec ∈ specs ∧ Confuses workspace spec first.id := by
  rw [inDirectories, List.pairwise_flatMap]
  constructor
  · intro spec among
    rw [inDirectory_eq_map, List.pairwise_map, List.pairwise_iff_forall_sublist]
    intro name other row same
    exact .inr ⟨spec, among, name, other, row, (id_ofName_eq_iff.mp same).1,
      (id_ofName _ _ _).symm⟩
  · rw [List.pairwise_iff_forall_sublist]
    intro first second row mapping inFirst later inSecond same
    rw [inDirectory_eq_map] at inFirst inSecond
    rcases List.mem_map.mp inFirst with ⟨name, found, rfl⟩
    rcases List.mem_map.mp inSecond with ⟨other, foundAgain, rfl⟩
    rcases id_ofName_eq_iff.mp same with ⟨alike, courses⟩
    exact .inl ⟨first, second, name, other, row, courses, found, foundAgain, alike,
      (id_ofName _ _ _).symm⟩

/-- The ids of all secrets are different exactly if no two specifications collide and no two names
of one directory are confused. -/
theorem nodup_ids_iff :
    ((inDirectories workspace specs).map (·.id)).Nodup ↔
      (forall id, ¬Collides workspace specs id) ∧
        forall spec, spec ∈ specs -> forall id, ¬Confuses workspace spec id := by
  rw [List.Nodup, List.pairwise_map]
  constructor
  · intro different
    rw [inDirectories, List.pairwise_flatMap] at different
    constructor
    · rintro id ⟨first, second, name, other, row, courses, found, foundAgain, alike, -⟩
      have across := List.pairwise_iff_forall_sublist.mp different.2 row
      rw [inDirectory_eq_map, inDirectory_eq_map] at across
      exact across _ (List.mem_map_of_mem found) _ (List.mem_map_of_mem foundAgain)
        (id_ofName_eq_iff.mpr ⟨alike, courses⟩)
    · rintro spec among id ⟨name, other, row, alike, -⟩
      have within := different.1 spec among
      rw [inDirectory_eq_map, List.pairwise_map, List.pairwise_iff_forall_sublist] at within
      exact within row (id_ofName_eq_iff.mpr ⟨alike, rfl⟩)
  · rintro ⟨apart, clear⟩
    apply (pairwise_alike workspace specs).imp
    intro first second alike same
    rcases alike same with collides | ⟨spec, among, confuses⟩
    · exact apart _ collides
    · exact clear spec among _ confuses

/-! ## What resolving makes of it -/

/-- If an id is taken, it is the id of a secret and of an earlier one. -/
theorem alike_of_duplicate
    (refused : (resolve workspace specs).result = .error (.duplicateSecretId id)) :
    Collides workspace specs id ∨ exists spec, spec ∈ specs ∧ Confuses workspace spec id := by
  rw [resolve, result_ofSpecs, Finding.check_eq_error_iff] at refused
  rcases refused with ⟨before, finding, after, spelled, -, refuses⟩
  cases finding with
  | unreadable directory failure => cases refuses
  | broken link failure => cases refuses
  | secret mapping =>
      rcases refuses with ⟨taken, same⟩
      cases same
      rw [List.append_nil] at taken
      rcases List.mem_map.mp taken with ⟨earlier, among, same⟩
      have row : inDirectories workspace specs =
          before ++ mapping :: after.filterMap Finding.mapping? := by
        rw [← filterMap_findings, spelled, List.filterMap_append,
          (Finding.eq_map_secret_iff.mp rfl).2]
        rfl
      have pairs := pairwise_alike workspace specs
      rw [row, List.pairwise_append] at pairs
      exact same ▸ pairs.2.2 earlier among mapping List.mem_cons_self same

/-- With one specification it takes names that are confused. -/
theorem confuses_of_duplicate
    (refused : (resolve workspace [spec]).result = .error (.duplicateSecretId id)) :
    Confuses workspace spec id := by
  rcases alike_of_duplicate refused with collides | ⟨alone, among, confuses⟩
  · exact absurd collides (not_collides_singleton workspace spec id)
  · exact List.mem_singleton.mp among ▸ confuses

/-- Besides what is wrong with directories and links, only a collision or names that are confused
keep resolving from success. -/
theorem exists_resolve_iff :
    (exists mappings, (resolve workspace specs).result = .ok mappings) ↔
      (forall spec, spec ∈ specs -> Readable workspace spec) ∧
        (forall spec, spec ∈ specs -> forall entry, entry ∈ entriesOf workspace spec ->
          Unbroken workspace spec entry) ∧
        (forall id, ¬Collides workspace specs id) ∧
        forall spec, spec ∈ specs -> forall id, ¬Confuses workspace spec id := by
  simp only [resolve, result_ofSpecs, Finding.check_eq_ok_iff, findings_eq_map_secret_iff]
  constructor
  · rintro ⟨mappings, ⟨readable, unbroken, rfl⟩, different, -⟩
    exact ⟨readable, unbroken, nodup_ids_iff.mp different⟩
  · rintro ⟨readable, unbroken, none⟩
    exact ⟨_, ⟨readable, unbroken, rfl⟩, nodup_ids_iff.mpr none, fun _ _ => List.not_mem_nil⟩

end

/-- Ids tell apart all names that are not shown alike, and all prefixes but spellings of one.  So
resolving finds an id taken only if two specifications collide in it or two names of one directory
are confused, with a single specification only by the latter and so never if the names are texts.
If nothing else is wrong, it succeeds exactly if there is neither.  Two aliases that are not empty
collide exactly if they spell one path and names below them are alike. -/
theorem secretId_tells_courses_apart :
    (forall (label other : Text) (name otherName : FileName),
        secretId label name.display = secretId other otherName.display ↔
          name.display = otherName.display ∧
            Path.course (ofText label) = Path.course (ofText other)) ∧
      (forall name otherName : FileName, Utf8.IsText name.bytes -> Utf8.IsText otherName.bytes ->
        (name.display = otherName.display ↔ name = otherName)) ∧
      (forall workspace specs id,
        (resolve workspace specs).result = .error (.duplicateSecretId id) ->
          Collides workspace specs id ∨ exists spec, spec ∈ specs ∧ Confuses workspace spec id) ∧
      (forall workspace specs,
        (exists mappings, (resolve workspace specs).result = .ok mappings) ↔
          (forall spec, spec ∈ specs -> Readable workspace spec) ∧
            (forall spec, spec ∈ specs -> forall entry, entry ∈ entriesOf workspace spec ->
              Unbroken workspace spec entry) ∧
            (forall id, ¬Collides workspace specs id) ∧
            forall spec, spec ∈ specs -> forall id, ¬Confuses workspace spec id) ∧
      (forall workspace spec id,
        (resolve workspace [spec]).result = .error (.duplicateSecretId id) ->
          Confuses workspace spec id) ∧
      (forall workspace spec,
        (forall name, name ∈ secretNames workspace spec -> Utf8.IsText name.bytes) ->
          forall id, (resolve workspace [spec]).result ≠ .error (.duplicateSecretId id)) ∧
      forall (workspace : Workspace) (first second : SecretSpec) (given other : Text),
        first.name = some given -> second.name = some other -> given ≠ [] -> other ≠ [] ->
          ((exists id, Collides workspace [first, second] id) ↔
            Path.course (ofText given) = Path.course (ofText other) ∧
              exists name otherName, name ∈ secretNames workspace first ∧
                otherName ∈ secretNames workspace second ∧ name.display = otherName.display) := by
  refine ⟨?_, ?_, fun _ _ _ => alike_of_duplicate, fun _ _ => exists_resolve_iff,
    fun _ _ _ => confuses_of_duplicate, ?_, ?_⟩
  · intro label other name otherName
    exact secretId_eq_iff (plain_display name) (plain_display otherName)
  · intro name otherName isText alsoText
    exact ⟨name_eq_of_display isText alsoText, congrArg FileName.display⟩
  · intro workspace spec texts id refused
    exact not_confuses_of_isText texts (confuses_of_duplicate refused)
  · intro workspace first second given other named otherNamed nonempty otherNonempty
    rw [exists_collides_pair_iff, SecretSpec.idPrefix_of_alias named nonempty,
      SecretSpec.idPrefix_of_alias otherNamed otherNonempty]

/-- Two directories with a file of the same name. -/
def twins : Workspace :=
  let left : FileName := ⟨ofText "left".toList, by decide⟩
  let right : FileName := ⟨ofText "right".toList, by decide⟩
  let password : FileName := ⟨ofText "password".toList, by decide⟩
  { directory := []
    files := ⟨[([left], .directory), ([left, password], .file []), ([right], .directory),
      ([right, password], .file [])]⟩ }

/-- Both of them, each under an alias. -/
def twinSpecs (first second : Text) : List SecretSpec :=
  [⟨ofText "left".toList, some first, false⟩, ⟨ofText "right".toList, some second, false⟩]

/-- Either has one file, so that at most the second can find its id taken. -/
theorem result_twins (first second : Text) :
    (resolve twins (twinSpecs first second)).result = Finding.check []
      ((twinSpecs first second).map fun spec =>
        .secret (ofName twins spec ⟨ofText "password".toList, by decide⟩)) := by
  have left : twins.list (ofText "left".toList) =
      .ok [(⟨ofText "password".toList, by decide⟩, .file [])] := by cbv
  have right : twins.list (ofText "right".toList) =
      .ok [(⟨ofText "password".toList, by decide⟩, .file [])] := by cbv
  rw [resolve, result_ofSpecs, twinSpecs, findings_cons_of_list left, findings_cons_of_list right]
  rfl

/-- Two spellings of one alias collide.  An alias whose `..` would lead back to nothing does not
collide with an alias that is nothing. -/
theorem secretId_tells_courses_apart_twins :
    (resolve twins (twinSpecs "alias//".toList "./alias".toList)).result =
        .error (.duplicateSecretId "alias/password".toList) ∧
      (Collides twins (twinSpecs "alias//".toList "./alias".toList) "alias/password".toList ∨
        exists spec, spec ∈ twinSpecs "alias//".toList "./alias".toList ∧
          Confuses twins spec "alias/password".toList) ∧
      (resolve twins (twinSpecs "alias/..".toList "./".toList)).result =
        .ok [⟨ofText "/left/password".toList, "alias/../password".toList⟩,
          ⟨ofText "/right/password".toList, "password".toList⟩] ∧
      forall id, ¬Collides twins (twinSpecs "alias/..".toList "./".toList) id := by
  have taken : (resolve twins (twinSpecs "alias//".toList "./alias".toList)).result =
      .error (.duplicateSecretId "alias/password".toList) := by
    rw [result_twins]
    rfl
  have different : (resolve twins (twinSpecs "alias/..".toList "./".toList)).result =
      .ok [⟨ofText "/left/password".toList, "alias/../password".toList⟩,
        ⟨ofText "/right/password".toList, "password".toList⟩] := by
    rw [result_twins]
    rfl
  rcases secretId_tells_courses_apart with ⟨-, -, collides, succeeds, -⟩
  exact ⟨taken, collides _ _ _ taken, different, ((succeeds _ _).mp ⟨_, different⟩).2.2.1⟩

/-- A directory with two files whose names are one byte each, neither of which begins a
character. -/
def lookalikes : Workspace :=
  let keys : FileName := ⟨ofText "keys".toList, by decide⟩
  { directory := []
    files := ⟨[([keys], .directory), ([keys, ⟨[0xfe], by decide⟩], .file []),
      ([keys, ⟨[0xff], by decide⟩], .file [])]⟩ }

/-- One directory is enough for an id to be taken if its names are not texts.  And of two aliases
that spell one path, here that of no components, the empty one does not collide, since ids begin
with the name of its directory instead. -/
theorem resolve_of_lookalikes :
    (resolve lookalikes [⟨ofText "keys".toList, none, false⟩]).result =
        .error (.duplicateSecretId "keys/\uFFFD".toList) ∧
      Path.course (ofText []) = Path.course (ofText ['.']) ∧
      (resolve twins (twinSpecs [] ['.'])).result =
        .ok [⟨ofText "/left/password".toList, "left/password".toList⟩,
          ⟨ofText "/right/password".toList, "password".toList⟩] := by
  have listed : lookalikes.list (ofText "keys".toList) =
      .ok [(⟨[0xfe], by decide⟩, .file []), (⟨[0xff], by decide⟩, .file [])] := by cbv
  refine ⟨?_, rfl, ?_⟩
  · rw [resolve, result_ofSpecs, findings_cons_of_list listed]
    rfl
  · rw [result_twins]
    rfl

end SecretMapping
end BuildInputs

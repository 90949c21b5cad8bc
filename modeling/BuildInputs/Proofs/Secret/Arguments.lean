import Mathlib.Logic.Basic
import BuildInputs.Proofs.Secret.Sources
import BuildInputs.Proofs.Text.Cuts
import BuildInputs.Proofs.Text.Trimming

namespace BuildInputs

/-!
# What the builder reads

The builder cuts an argument at its commas into attributes, and each attribute at its first `=`.
Nothing is escaped when an argument is written, so it says what was resolved exactly if the source
is a text and no comma stands in it or in the id.  An `=` does no harm, as only the first one
counts.

A comma comes from where the texts come from: the name of an entry, the path of the directory, an
alias, and the current directory if the path is relative.  A specification that was read cannot
have one, since commas separate its own attributes, and its path is a text.  What is left are names
that are found in the file system.
-/

open BuildInputs.Path (ofText)

/-- A path that is a text without a comma. -/
def IsCommaFree (path : Path) : Prop :=
  Utf8.IsText path ∧ ',' ∉ path.display

theorem isCommaFree_ofText {text : Text} (free : ',' ∉ text) : IsCommaFree (ofText text) := by
  rw [IsCommaFree, Path.display_ofText]
  exact ⟨Utf8.isText_encode text, free⟩

/-! ## Attributes of an argument -/

namespace SecretMapping

/-- The attributes between the commas of a text, with key and value for each that has an `=`. -/
def attributes (text : Text) : List (Option (Text × Text)) :=
  (Text.fields ',' text).map (Text.cutFirst '=')

/-- An argument says of a secret where it comes from and what its id is, and nothing else. -/
def Describes (argument : Text) (mapping : SecretMapping) : Prop :=
  exists text source, argument = "--secret=".toList ++ text ∧ mapping.src = ofText source ∧
    attributes text = [some ("src".toList, source), some ("id".toList, mapping.id)]

theorem buildArgument_eq (mapping : SecretMapping) :
    mapping.buildArgument = "--secret=".toList ++
      (("src".toList ++ '=' :: mapping.src.display) ++
        ',' :: ("id".toList ++ '=' :: mapping.id)) := by
  have source : "--secret=src=".toList = "--secret=".toList ++ ("src".toList ++ ['=']) := by
    decide
  have id : ",id=".toList = ',' :: ("id".toList ++ ['=']) := by decide
  have regrouped : forall option first second source id : Text,
      option ++ (first ++ ['=']) ++ source ++ ',' :: (second ++ ['=']) ++ id =
        option ++ ((first ++ '=' :: source) ++ ',' :: (second ++ '=' :: id)) := by
    simp
  unfold buildArgument
  rw [source, id]
  exact regrouped _ _ _ _ _

/-- An argument is read back exactly if the source is a text without a comma and there is none in
the id. -/
theorem describes_buildArgument_iff {mapping : SecretMapping} :
    Describes mapping.buildArgument mapping ↔ IsCommaFree mapping.src ∧ ',' ∉ mapping.id := by
  have keyed : forall {key value : Text}, ',' ∉ key ->
      (',' ∉ key ++ '=' :: value ↔ ',' ∉ value) := by
    intro key value free
    simp [free]
  have source := @keyed "src".toList mapping.src.display (by decide)
  have id := @keyed "id".toList mapping.id (by decide)
  rw [Describes, buildArgument_eq]
  constructor
  · rintro ⟨text, given, same, spelled, read⟩
    rw [← List.append_cancel_left same, attributes, Text.fields_append_separator,
      List.map_append] at read
    -- Each side has at least one piece, so that with two attributes neither has another.
    have length := congrArg List.length read
    rw [List.length_append, List.length_map, List.length_map, List.length_cons,
      List.length_singleton] at length
    have first := Text.length_fields_pos ',' ("src".toList ++ '=' :: mapping.src.display)
    have second := Text.length_fields_pos ',' ("id".toList ++ '=' :: mapping.id)
    exact ⟨⟨spelled ▸ Utf8.isText_encode given,
        source.mp (Text.free_of_length_fields (by omega))⟩,
      id.mp (Text.free_of_length_fields (by omega))⟩
  · rintro ⟨⟨isText, sourceFree⟩, idFree⟩
    refine ⟨_, mapping.src.display, rfl, isText.symm, ?_⟩
    rw [attributes, Text.fields_append_separator, Text.fields_of_free (source.mpr sourceFree),
      Text.fields_of_free (id.mpr idFree), List.singleton_append, List.map_cons, List.map_singleton,
      Text.cutFirst_append (by decide), Text.cutFirst_append (by decide)]

/-! ## Where a comma comes from -/

section

variable {workspace : Workspace} {spec : SecretSpec} {name : FileName}

theorem comma_mem_display_iff {path : Path} : ',' ∈ path.display ↔ 0x2c ∈ path :=
  Utf8.mem_decodeLossy_iff (by decide : ','.toNat < 0x80)

/-- The source is a text if the path of the directory is one, from the root. -/
theorem isText_src_iff : Utf8.IsText (ofName workspace spec name).src ↔ Utf8.IsText spec.src ∧
    (Path.isAbsolute spec.src = false -> Utf8.IsText workspace.directory.path) := by
  have plain := plain_display name
  have shown : forall piece, piece ∈ [ofText name.display] -> Utf8.IsText piece :=
    List.forall_mem_singleton.mpr (Utf8.isText_encode _)
  rw [← src_ofName, Path.isText_iff_countingPieces, Path.countingPieces_push plain.free,
    List.filter_cons_of_pos (Path.counts_of_plain plain), List.filter_nil, List.forall_mem_append,
    and_iff_left shown, Path.countingPieces_absolute, List.forall_mem_append,
    ← Path.isText_iff_countingPieces, and_comm]
  cases Path.isAbsolute spec.src with
  | true => simp
  | false => simp [@Path.isText_iff_countingPieces workspace.directory.path]

/-- A comma in the source is one in what is shown for the name or in the path of the directory. -/
theorem comma_mem_src_iff : ',' ∈ (ofName workspace spec name).src.display ↔
    ',' ∈ name.display ∨ ',' ∈ spec.src.display ∨
      (Path.isAbsolute spec.src = false ∧ ',' ∈ workspace.directory.path.display) := by
  have inName : 0x2c ∈ ofText name.display ↔ ',' ∈ name.display :=
    Path.mem_ofText_iff (by decide : ','.toNat < 0x80)
  rw [comma_mem_display_iff, comma_mem_display_iff, comma_mem_display_iff, ← inName, ← src_ofName,
    Path.mem_push_iff (plain_display name).free (by decide),
    Path.mem_absolute_iff (by decide) (by decide), or_comm]

theorem isCommaFree_src_iff : IsCommaFree (ofName workspace spec name).src ↔
    ',' ∉ name.display ∧ IsCommaFree spec.src ∧
      (Path.isAbsolute spec.src = false -> IsCommaFree workspace.directory.path) := by
  rw [IsCommaFree, IsCommaFree, isText_src_iff, comma_mem_src_iff, not_or, not_or, not_and]
  constructor
  · rintro ⟨⟨srcText, hereText⟩, nameFree, srcFree, hereFree⟩
    exact ⟨nameFree, ⟨srcText, srcFree⟩, fun relative => ⟨hereText relative, hereFree relative⟩⟩
  · rintro ⟨nameFree, ⟨srcText, srcFree⟩, here⟩
    exact ⟨⟨srcText, fun relative => (here relative).1⟩, nameFree, srcFree,
      fun relative => (here relative).2⟩

/-- A comma in the id is one in what is shown for the name or in what the ids begin with. -/
theorem comma_mem_id_iff : ',' ∈ (ofName workspace spec name).id ↔
    ',' ∈ name.display ∨ ',' ∈ spec.label := by
  have ascii : ','.toNat < 0x80 := by decide
  have slash : ',' ∉ if spec.label.head? = some '/' then ['/'] else [] := by
    split <;> decide
  have inLabel : ',' ∈ spec.label ↔
      exists piece, piece ∈ (Text.fields '/' spec.label).filter
        (fun piece => piece ≠ [] ∧ piece ≠ ['.']) ∧ ',' ∈ piece := by
    have inPath := @Path.mem_iff_of_counts (ofText spec.label) 0x2c (by decide) (by decide)
    rw [Path.countingPieces_ofText] at inPath
    rw [← Path.mem_ofText_iff ascii]
    simp only [List.mem_map, exists_exists_and_eq_and] at inPath
    exact inPath.trans (exists_congr fun piece => and_congr_right' (Path.mem_ofText_iff ascii))
  rw [ofName, cleanId, List.mem_append, or_iff_right slash, Text.mem_joinWith_iff (by decide),
    inLabel]
  simp only [List.mem_append, List.mem_singleton, or_and_right, exists_or, exists_eq_left]
  exact or_comm

/-- What the ids begin with has a comma only from an alias or from the path of the directory. -/
theorem comma_mem_label (inLabel : ',' ∈ spec.label) :
    ',' ∈ spec.src.display ∨ exists chosen, spec.name = some chosen ∧ ',' ∈ chosen := by
  rw [← spec.idPrefix_eq_label, SecretSpec.idPrefix] at inLabel
  split at inLabel
  · next first rest given => exact .inr ⟨first :: rest, given, inLabel⟩
  · left
    cases named : Path.fileName spec.src with
    | none =>
        rw [named] at inLabel
        exact inLabel
    | some last =>
        rw [named] at inLabel
        exact comma_mem_display_iff.mpr ((Path.mem_iff_of_counts (by decide) (by decide)).mpr
          ⟨last, Path.mem_countingPieces_of_fileName named, comma_mem_display_iff.mp inLabel⟩)

/-- The source is a text, and neither it nor the id has a comma, exactly if this holds of what they
are made from. -/
theorem commaFree_iff :
    (IsCommaFree (ofName workspace spec name).src ∧ ',' ∉ (ofName workspace spec name).id) ↔
      ',' ∉ name.display ∧ IsCommaFree spec.src ∧
        (forall chosen, spec.name = some chosen -> ',' ∉ chosen) ∧
        (Path.isAbsolute spec.src = false -> IsCommaFree workspace.directory.path) := by
  rw [isCommaFree_src_iff, comma_mem_id_iff]
  constructor
  · rintro ⟨⟨nameFree, srcFree, hereFree⟩, id⟩
    refine ⟨nameFree, srcFree, fun chosen given inside => id (.inr ?_), hereFree⟩
    rwa [← spec.idPrefix_eq_label, SecretSpec.idPrefix_of_alias given (List.ne_nil_of_mem inside)]
  · rintro ⟨nameFree, srcFree, chosenFree, hereFree⟩
    refine ⟨⟨nameFree, srcFree, hereFree⟩, ?_⟩
    rintro (inName | inLabel)
    · exact nameFree inName
    · rcases comma_mem_label inLabel with inSrc | ⟨chosen, given, inChosen⟩
      · exact srcFree.2 inSrc
      · exact chosenFree chosen given inChosen

end

end SecretMapping

/-! ## Specifications that were read -/

namespace SecretSpec

/-- The path of a specification is a text, and neither it nor the alias has a comma. -/
structure CommaFree (spec : SecretSpec) : Prop where
  src : IsCommaFree spec.src
  name : forall chosen, spec.name = some chosen -> ',' ∉ chosen

theorem CommaFree.set {spec later : SecretSpec} {key value : Text} (free : spec.CommaFree)
    (valueFree : ',' ∉ value) (given : spec.set key value = .ok later) : later.CommaFree := by
  rw [SecretSpec.set] at given
  split at given
  · cases given
    exact ⟨isCommaFree_ofText valueFree, free.name⟩
  split at given
  · cases given
    exact ⟨free.src, fun _ same => Option.some.inj same ▸ valueFree⟩
  split at given
  · split at given
    · cases given
      exact ⟨free.src, free.name⟩
    split at given
    · cases given
      exact ⟨free.src, free.name⟩
    · cases given
  · cases given

/-- A value is a part of its piece. -/
theorem mem_of_mem_value {piece : Text} {letter : Char}
    (member : letter ∈ (keyAndValue piece).2) : letter ∈ piece := by
  rw [keyAndValue] at member
  split at member
  · next key value cut =>
      rw [(Text.cutFirst_eq_some_iff.mp cut).1]
      exact List.mem_append_right _ (List.mem_cons_of_mem _ (Text.mem_of_mem_trim member))
  · exact Text.mem_of_mem_trim member

theorem CommaFree.setAll {spec later : SecretSpec} {pieces : List Text} (free : spec.CommaFree)
    (piecesFree : forall piece, piece ∈ pieces -> ',' ∉ piece)
    (given : spec.setAll pieces = .ok later) : later.CommaFree := by
  induction pieces generalizing spec with
  | nil =>
      cases given
      exact free
  | cons piece pieces ih =>
      rw [List.forall_mem_cons] at piecesFree
      obtain ⟨next, first, others⟩ := Report.bind_eq_ok_iff.mp given
      exact ih (free.set (fun inside => piecesFree.1 (mem_of_mem_value inside)) first)
        piecesFree.2 others

/-- A specification that is read has no comma, because commas separate its attributes, and its path
was given as a text. -/
theorem commaFree_of_parse {text : Text} {spec : SecretSpec} (read : parse text = .ok spec) :
    spec.CommaFree :=
  CommaFree.setAll
    ⟨isCommaFree_ofText List.not_mem_nil, fun _ given => (Option.some_ne_none _ given.symm).elim⟩
    (fun _ => Text.not_mem_of_mem_fields) read

theorem commaFree_of_parseAll {texts : List Text} {specs : List SecretSpec}
    (read : parseAll texts = .ok specs) : forall spec, spec ∈ specs -> spec.CommaFree := by
  induction texts generalizing specs with
  | nil =>
      cases read
      exact fun _ member => absurd member List.not_mem_nil
  | cons text texts ih =>
      obtain ⟨spec, first, others⟩ := Report.bind_eq_ok_iff.mp read
      obtain ⟨more, rest, rfl⟩ := Report.map_eq_ok_iff.mp others
      exact List.forall_mem_cons.mpr ⟨commaFree_of_parse first, ih rest⟩

end SecretSpec

/-! ## Arguments of resolved secrets -/

namespace SecretMapping

/-- The argument of a secret says what was resolved exactly if there is no comma in what is shown
for the name of its entry and in the alias of its directory, and if the path of its directory is a
text without one, as is that of the current directory if the other is relative.  For specifications
that were read only the name and the current directory matter. -/
theorem buildArgument_describes_iff {workspace : Workspace} {specs : List SecretSpec}
    {mappings : List SecretMapping} {mapping : SecretMapping}
    (resolved : (resolve workspace specs).result = .ok mappings) (member : mapping ∈ mappings) :
    (Describes mapping.buildArgument mapping ↔ IsCommaFree mapping.src ∧ ',' ∉ mapping.id) ∧
      exists spec entries entry, spec ∈ specs ∧ workspace.list spec.src = .ok entries ∧
        entry ∈ entries ∧ mapping = ofName workspace spec entry.1 ∧
        (Describes mapping.buildArgument mapping ↔
          ',' ∉ entry.1.display ∧ IsCommaFree spec.src ∧
            (forall chosen, spec.name = some chosen -> ',' ∉ chosen) ∧
            (Path.isAbsolute spec.src = false -> IsCommaFree workspace.directory.path)) ∧
        (forall texts, SecretSpec.parseAll texts = .ok specs ->
          (Describes mapping.buildArgument mapping ↔
            ',' ∉ entry.1.display ∧
              (Path.isAbsolute spec.src = false -> IsCommaFree workspace.directory.path))) := by
  obtain ⟨spec, entries, entry, among, listed, found, -, rfl⟩ := exists_entry_of_mem resolved member
  refine ⟨describes_buildArgument_iff, spec, entries, entry, among, listed, found, rfl, ?_, ?_⟩
  · rw [describes_buildArgument_iff, commaFree_iff]
  · intro texts read
    have free := SecretSpec.commaFree_of_parseAll read spec among
    rw [describes_buildArgument_iff, commaFree_iff, and_iff_right free.src,
      and_iff_right free.name]

theorem buildArgument_describes_iff_linked :
    (resolve linkedSecrets [linkedSpec]).result = .ok [aliasSecret, tokenSecret] ∧
      (Describes tokenSecret.buildArgument tokenSecret ↔
        IsCommaFree tokenSecret.src ∧ ',' ∉ tokenSecret.id) ∧
      exists spec entries entry, spec ∈ [linkedSpec] ∧
        linkedSecrets.list spec.src = .ok entries ∧ entry ∈ entries ∧
        tokenSecret = ofName linkedSecrets spec entry.1 ∧
        (Describes tokenSecret.buildArgument tokenSecret ↔
          ',' ∉ entry.1.display ∧ IsCommaFree spec.src ∧
            (forall chosen, spec.name = some chosen -> ',' ∉ chosen) ∧
            (Path.isAbsolute spec.src = false -> IsCommaFree linkedSecrets.directory.path)) ∧
        (forall texts, SecretSpec.parseAll texts = .ok [linkedSpec] ->
          (Describes tokenSecret.buildArgument tokenSecret ↔
            ',' ∉ entry.1.display ∧
              (Path.isAbsolute spec.src = false -> IsCommaFree linkedSecrets.directory.path))) :=
  ⟨resolve_linkedSecrets, buildArgument_describes_iff resolve_linkedSecrets
    (List.mem_cons_of_mem _ List.mem_cons_self)⟩

/-- A directory whose only entry has a name that looks like a value and another attribute. -/
def deceptive : Workspace :=
  let secrets : FileName := ⟨ofText "d".toList, by decide⟩
  { directory := []
    files := ⟨[([secrets], .directory),
      ([secrets, ⟨ofText "t,id=db".toList, by decide⟩], .file [])]⟩ }

/-- The secret that it holds. -/
def deceptiveSecret : SecretMapping :=
  ⟨ofText "/d/t,id=db".toList, "d/t,id=db".toList⟩

/-- The name of a file cuts the source short and adds attributes. -/
theorem buildArgument_of_deceptive :
    (resolve deceptive [⟨ofText "d".toList, none, false⟩]).result = .ok [deceptiveSecret] ∧
      ¬Describes deceptiveSecret.buildArgument deceptiveSecret ∧
      deceptiveSecret.buildArgument =
        "--secret=".toList ++ "src=/d/t,id=db,id=d/t,id=db".toList ∧
      attributes "src=/d/t,id=db,id=d/t,id=db".toList =
        [some ("src".toList, "/d/t".toList), some ("id".toList, "db".toList),
          some ("id".toList, "d/t".toList), some ("id".toList, "db".toList)] := by
  have comma : ',' ∈ deceptiveSecret.id := by decide
  have listed : deceptive.list (ofText "d".toList) =
      .ok [(⟨ofText "t,id=db".toList, by decide⟩, .file [])] := by cbv
  refine ⟨?_, fun described => (describes_buildArgument_iff.mp described).2 comma, by decide,
    by decide⟩
  rw [resolve, result_ofSpecs, findings_cons_of_list listed]
  rfl

end SecretMapping
end BuildInputs

import BuildInputs.Proofs.Path.Shown
import BuildInputs.Proofs.Secret.Specifications

namespace BuildInputs
namespace SecretSpec

/-!
# The spellings of a specification

A specification can be written in many ways.  Its attributes come in any order, there may be white
space around every key and value, and the directory may be written without its key.  All of these
spellings are read as the same specification, provided that its texts do not look like the writing
around them: a comma would end an attribute, and white space at an end would be taken for padding.

A spelling says each key once, so that the last value for a key is the only one.  It is a text, so
the directory must be one as well.
-/

open BuildInputs.Path (ofText)

/-- The attributes of a specification.  A missing alias has none. -/
def attributes (spec : SecretSpec) : List (Text × Text) :=
  ("src".toList, spec.src.display) :: (spec.name.map fun name => ("name".toList, name)).toList ++
    [("optional".toList, if spec.optional then "true".toList else "false".toList)]

/-- A spelling of a specification: its attributes in some order with commas between them. -/
def IsSpelling (text : Text) (spec : SecretSpec) : Prop :=
  exists pieces order, order.Perm (attributes spec) ∧
    List.Forall₂ (fun piece entry => Writes piece entry.1 entry.2) pieces order ∧
    text = Text.joinWith ',' pieces

/-- A text that can stand as a value. -/
structure IsPlainValue (value : Text) : Prop where
  free : ',' ∉ value
  trimmed : Text.IsTrimmed value

/-- A specification whose directory is a text, and whose texts can stand as values. -/
structure IsWritable (spec : SecretSpec) : Prop where
  isText : Utf8.IsText spec.src
  src : IsPlainValue spec.src.display
  name : forall name, spec.name = some name -> IsPlainValue name

section

variable {spec : SecretSpec} {piece key value : Text} {pieces : List Text}
  {order : List (Text × Text)}

/-! ## One attribute -/

/-- A key that has neither white space at its ends nor any mark of the writing. -/
structure IsPlainKey (key : Text) : Prop where
  free : ',' ∉ key
  unmarked : '=' ∉ key
  trimmed : Text.IsTrimmed key

theorem isPlainKey_of_isAttribute (isAttribute : IsAttribute key value) : IsPlainKey key := by
  rcases isAttribute with rfl | rfl | ⟨rfl, -⟩
  · exact ⟨by decide, by decide, Text.isTrimmed_of_trim (by decide)⟩
  · exact ⟨by decide, by decide, Text.isTrimmed_of_trim (by decide)⟩
  · exact ⟨by decide, by decide, Text.isTrimmed_of_trim (by decide)⟩

theorem Writes.states (writes : Writes piece key value) (plainKey : IsPlainKey key)
    (plainValue : IsPlainValue value) : States piece key value :=
  ⟨writes, plainKey.unmarked, plainKey.trimmed, plainValue.trimmed⟩

theorem Writes.free (writes : Writes piece key value) (plainKey : IsPlainKey key)
    (plainValue : IsPlainValue value) : ',' ∉ piece := by
  cases writes with
  | keyed whole paddedAround paddedBehind =>
      rw [whole, List.mem_append, List.mem_cons, not_or, not_or]
      exact ⟨paddedAround.not_mem plainKey.free (by decide), by decide,
        paddedBehind.not_mem plainValue.free (by decide)⟩
  | bare isSource free padded => exact padded.not_mem plainValue.free (by decide)

/-! ## All attributes -/

theorem nodup_attributes (spec : SecretSpec) : ((attributes spec).map Prod.fst).Nodup := by
  obtain ⟨src, name | name, optional⟩ := spec
  · change ["src".toList, "optional".toList].Nodup
    decide
  · change ["src".toList, "name".toList, "optional".toList].Nodup
    decide

theorem mem_attributes_iff : (key, value) ∈ attributes spec ↔
    (key = "src".toList ∧ value = spec.src.display) ∨
      (key = "name".toList ∧ spec.name = some value) ∨
      (key = "optional".toList ∧
        value = if spec.optional then "true".toList else "false".toList) := by
  rw [attributes, List.cons_append, List.mem_cons, List.mem_append, Option.mem_toList,
    List.mem_singleton, Option.map_eq_some_iff, Prod.mk.injEq, Prod.mk.injEq]
  refine or_congr_right (or_congr_left ?_)
  constructor
  · rintro ⟨name, given, same⟩
    cases same
    exact ⟨rfl, given⟩
  · rintro ⟨rfl, given⟩
    exact ⟨value, given, rfl⟩

theorem isAttribute_of_mem_attributes (member : (key, value) ∈ attributes spec) :
    IsAttribute key value := by
  rcases mem_attributes_iff.mp member with ⟨isSource, -⟩ | ⟨isName, -⟩ | ⟨isOptional, same⟩
  · exact .inl isSource
  · exact .inr (.inl isName)
  · refine .inr (.inr ⟨isOptional, ?_⟩)
    split at same
    · exact .inl same
    · exact .inr same

theorem IsWritable.isPlainValue (writable : IsWritable spec)
    (member : (key, value) ∈ attributes spec) : IsPlainValue value := by
  rcases mem_attributes_iff.mp member with ⟨-, rfl⟩ | ⟨-, given⟩ | ⟨-, rfl⟩
  · exact writable.src
  · exact writable.name value given
  · split
    · exact ⟨by decide, Text.isTrimmed_of_trim (by decide)⟩
    · exact ⟨by decide, Text.isTrimmed_of_trim (by decide)⟩

/-! ## Keys that are said once -/

theorem isSilent_of_not_mem
    (written : List.Forall₂ (fun piece entry => States piece entry.1 entry.2) pieces order)
    (absent : key ∉ order.map Prod.fst) : IsSilent key pieces := by
  induction written with
  | nil => exact isSilent_nil
  | @cons piece entry pieces order first others ih =>
      rw [List.map_cons, List.mem_cons, not_or] at absent
      refine List.forall_mem_cons.mpr ⟨fun value states => ?_, ih absent.2⟩
      exact absent.1 (first.unique states).1

/-- A key that is said once has the value that is said then. -/
theorem isLast_of_mem
    (written : List.Forall₂ (fun piece entry => States piece entry.1 entry.2) pieces order)
    (distinct : (order.map Prod.fst).Nodup) (member : (key, value) ∈ order) :
    IsLast key pieces (some value) := by
  induction written with
  | nil => cases member
  | @cons piece entry pieces order first others ih =>
      rw [List.map_cons, List.nodup_cons] at distinct
      rcases List.mem_cons.mp member with rfl | member
      · exact ⟨[], piece, pieces, rfl, first, isSilent_of_not_mem others distinct.1⟩
      · obtain ⟨before, decisive, after, rfl, states, silent⟩ := ih distinct.2 member
        exact ⟨piece :: before, decisive, after, rfl, states, silent⟩

/-- The attributes of a specification say it, in any order. -/
theorem isRead_of_perm (isText : Utf8.IsText spec.src) (permuted : order.Perm (attributes spec))
    (written : List.Forall₂ (fun piece entry => States piece entry.1 entry.2) pieces order) :
    IsRead pieces spec := by
  have distinct : (order.map Prod.fst).Nodup :=
    (permuted.map Prod.fst).nodup_iff.mpr (nodup_attributes spec)
  have last : forall {key value}, (key, value) ∈ attributes spec -> IsLast key pieces (some value) :=
    fun member => isLast_of_mem written distinct (permuted.mem_iff.mpr member)
  refine ⟨⟨_, last (mem_attributes_iff.mpr (.inl ⟨rfl, rfl⟩)), isText.symm⟩, ?_,
    _, last (mem_attributes_iff.mpr (.inr (.inr ⟨rfl, rfl⟩))), ?_⟩
  · cases given : spec.name with
    | some name => exact last (mem_attributes_iff.mpr (.inr (.inl ⟨rfl, given⟩)))
    | none =>
        refine isSilent_of_not_mem written fun member => ?_
        obtain ⟨⟨key, value⟩, inOrder, same⟩ := List.mem_map.mp member
        rcases mem_attributes_iff.mp (permuted.mem_iff.mp inOrder) with
          ⟨isSource, -⟩ | ⟨-, given'⟩ | ⟨isOptional, -⟩
        · exact nameKey_ne_source (same.symm.trans isSource)
        · exact absurd (given.symm.trans given') (Option.some_ne_none value).symm
        · exact optionalKey_ne_name (isOptional.symm.trans same)
  · cases spec.optional <;> decide

/-! ## Spellings -/

/-- The pieces of a spelling can be told apart again and are all good. -/
theorem good_of_writes (fits : forall entry, entry ∈ order ->
      IsAttribute entry.1 entry.2 ∧ IsPlainValue entry.2)
    (written : List.Forall₂ (fun piece entry => Writes piece entry.1 entry.2) pieces order) :
    (forall piece, piece ∈ pieces -> IsGood piece ∧ ',' ∉ piece) ∧
      List.Forall₂ (fun piece entry => States piece entry.1 entry.2) pieces order := by
  rw [← List.forall₂_and_left]
  induction written with
  | nil => exact .nil
  | @cons piece entry pieces order first others ih =>
      rw [List.forall_mem_cons] at fits
      obtain ⟨⟨isAttribute, plainValue⟩, fits⟩ := fits
      have plainKey := isPlainKey_of_isAttribute isAttribute
      have states := first.states plainKey plainValue
      exact .cons ⟨⟨(isGood_iff states).mpr isAttribute, first.free plainKey plainValue⟩, states⟩
        (ih fits)

/-- Every spelling is read as the specification that it spells. -/
theorem isRead_of_isSpelling {text : Text} (spelling : IsSpelling text spec)
    (writable : IsWritable spec) : IsWellFormed text ∧ IsRead (Text.fields ',' text) spec := by
  obtain ⟨pieces, order, permuted, written, rfl⟩ := spelling
  have fits : forall entry, entry ∈ order -> IsAttribute entry.1 entry.2 ∧ IsPlainValue entry.2 :=
    fun _ inOrder => ⟨isAttribute_of_mem_attributes (permuted.mem_iff.mp inOrder),
      writable.isPlainValue (permuted.mem_iff.mp inOrder)⟩
  obtain ⟨good, states⟩ := good_of_writes fits written
  have nonempty : pieces ≠ [] := by
    rintro rfl
    rw [List.forall₂_nil_left_iff.mp written] at permuted
    exact List.cons_ne_nil _ _ permuted.nil_eq.symm
  have cut : Text.fields ',' (Text.joinWith ',' pieces) = pieces :=
    Text.fields_joinWith nonempty fun piece member => (good piece member).2
  rw [IsWellFormed, cut]
  exact ⟨fun piece member => (good piece member).1, isRead_of_perm writable.isText permuted states⟩

end

/-- Texts are read exactly if every piece has no `=` or has one of the three keys in front of its
first `=`, with `true` or `false` for `optional`.  Then the last piece for each key decides, so that
every spelling of a specification is read as that specification.  Otherwise the first piece of the
first text that is refused is the one that is named. -/
theorem parseAll_reads (texts : List Text) :
    (forall specs, List.Forall₂ IsSpelling texts specs ->
        (forall spec, spec ∈ specs -> IsWritable spec) -> parseAll texts = .ok specs) ∧
      ((exists specs, parseAll texts = .ok specs) ↔
        forall text, text ∈ texts -> IsWellFormed text) ∧
      (forall specs, parseAll texts = .ok specs ->
        List.Forall₂ (fun text spec => IsRead (Text.fields ',' text) spec) texts specs) ∧
      forall failure, parseAll texts = .error failure ↔ FirstRefused IsWellFormed
        (fun text => FirstRefused IsGood Offends (Text.fields ',' text)) texts failure := by
  refine ⟨?_, exists_parseAll_iff, ?_, fun _ => parseAll_eq_error_iff⟩
  · intro specs spellings writable
    rw [parseAll_eq_ok_iff]
    induction spellings with
    | nil => exact .nil
    | cons first others ih =>
        rw [List.forall_mem_cons] at writable
        exact .cons (isRead_of_isSpelling first writable.1) (ih writable.2)
  · intro specs read
    exact (parseAll_eq_ok_iff.mp read).imp fun _ _ => And.right

/-- One directory with all its attributes, and one without an alias. -/
def spelledSpecs : List SecretSpec :=
  [⟨ofText "/a b".toList, some "x=y".toList, true⟩, ⟨ofText "d".toList, none, false⟩]

/-- A spelling in another order and with white space, and one with the directory alone. -/
def spellings : List Text :=
  [" optional = true ,name=x=y, src = /a b ".toList, "d,optional=false".toList]

theorem parseAll_reads_spellings :
    List.Forall₂ IsSpelling spellings spelledSpecs ∧
      (forall spec, spec ∈ spelledSpecs -> IsWritable spec) ∧
      parseAll spellings = .ok spelledSpecs := by
  have full : IsSpelling " optional = true ,name=x=y, src = /a b ".toList
      ⟨ofText "/a b".toList, some "x=y".toList, true⟩ :=
    ⟨[" optional = true ".toList, "name=x=y".toList, " src = /a b ".toList],
      [("optional".toList, "true".toList), ("name".toList, "x=y".toList),
        ("src".toList, "/a b".toList)],
      by decide,
      .cons (.keyed (by decide : _ = " optional ".toList ++ '=' :: " true ".toList)
          ⟨[' '], [' '], by decide⟩ ⟨[' '], [' '], by decide⟩)
        (.cons (.keyed (by decide : _ = "name".toList ++ '=' :: "x=y".toList)
            ⟨[], [], by decide⟩ ⟨[], [], by decide⟩)
          (.cons (.keyed (by decide : _ = " src ".toList ++ '=' :: " /a b ".toList)
            ⟨[' '], [' '], by decide⟩ ⟨[' '], [' '], by decide⟩) .nil)),
      by decide⟩
  have bare : IsSpelling "d,optional=false".toList ⟨ofText "d".toList, none, false⟩ :=
    ⟨["d".toList, "optional=false".toList],
      [("src".toList, "d".toList), ("optional".toList, "false".toList)],
      by decide,
      .cons (.bare rfl (by decide) ⟨[], [], by decide⟩)
        (.cons (.keyed (by decide : _ = "optional".toList ++ '=' :: "false".toList)
          ⟨[], [], by decide⟩ ⟨[], [], by decide⟩) .nil),
      by decide⟩
  have written : List.Forall₂ IsSpelling spellings spelledSpecs := .cons full (.cons bare .nil)
  have plain : forall {value : Text}, ',' ∉ value -> Text.trim value = value -> IsPlainValue value :=
    fun free same => ⟨free, Text.isTrimmed_of_trim same⟩
  have writable : forall spec, spec ∈ spelledSpecs -> IsWritable spec := by
    intro spec member
    rcases List.mem_cons.mp member with rfl | member
    · refine ⟨Utf8.isText_encode _, plain (by decide) (by decide), fun name given => ?_⟩
      cases given
      exact plain (by decide) (by decide)
    · rw [List.mem_singleton.mp member]
      exact ⟨Utf8.isText_encode _, plain (by decide) (by decide),
        fun name given => absurd given nofun⟩
  exact ⟨written, writable, (parseAll_reads spellings).1 spelledSpecs written writable⟩

end SecretSpec
end BuildInputs

import BuildInputs.Secret.Spec
import BuildInputs.Proofs.Report
import BuildInputs.Proofs.Text.Cuts
import BuildInputs.Proofs.Text.Trimming
import Mathlib.Data.List.Forall2
import Mathlib.Data.List.Induction

namespace BuildInputs
namespace SecretSpec

/-!
# Reading specifications of secret directories

A specification is read piece by piece.  Each piece says one value for one key, whatever it looks
like, and of several values for a key the last one counts.  Only a key that is no attribute and a
value of `optional` that is neither `true` nor `false` are refused, and the first such piece of the
first such text is the one that is named.

The laws here describe what is read by what is written, without the steps of the reading.  White
space around keys and values is put back on, and a last value is one with no other behind it.
-/

/-! ## What a piece says -/

/-- A text with white space on both sides, which may be empty. -/
def IsPadded (padded text : Text) : Prop :=
  exists before after, padded = before ++ text ++ after ∧
    before.all Text.isWhiteSpace = true ∧ after.all Text.isWhiteSpace = true

/-- A piece in which a value is written for a key.  A value of `src` without `=` may stand alone. -/
inductive Writes (piece key value : Text) : Prop where
  | keyed {paddedKey paddedValue : Text} (whole : piece = paddedKey ++ '=' :: paddedValue)
      (paddedAround : IsPadded paddedKey key) (paddedBehind : IsPadded paddedValue value)
  | bare (isSource : key = "src".toList) (free : '=' ∉ piece) (padded : IsPadded piece value)

/-- What a piece says.  The first `=` ends the key, and the white space around both goes. -/
structure States (piece key value : Text) : Prop where
  writes : Writes piece key value
  free : '=' ∉ key
  keyTrimmed : Text.IsTrimmed key
  valueTrimmed : Text.IsTrimmed value

theorem trim_eq_iff_isPadded {padded text : Text} :
    Text.trim padded = text ↔ Text.IsTrimmed text ∧ IsPadded padded text :=
  Text.trim_eq_iff

theorem isPadded_trim (text : Text) : IsPadded text (Text.trim text) :=
  (trim_eq_iff_isPadded.mp rfl).2

/-- White space holds no character of an attribute's own. -/
theorem IsPadded.not_mem {padded text : Text} {letter : Char} (isPadded : IsPadded padded text)
    (free : letter ∉ text) (visible : Text.isWhiteSpace letter = false) : letter ∉ padded := by
  obtain ⟨before, after, rfl, blankBefore, blankAfter⟩ := isPadded
  rw [List.mem_append, List.mem_append]
  rintro ((inside | inside) | inside)
  · exact Text.not_mem_of_all blankBefore visible inside
  · exact free inside
  · exact Text.not_mem_of_all blankAfter visible inside

theorem keyAndValue_eq_iff {piece key value : Text} :
    keyAndValue piece = (key, value) ↔ States piece key value := by
  constructor
  · intro read
    rw [keyAndValue] at read
    split at read
    · next paddedKey paddedValue cut =>
        obtain ⟨whole, free⟩ := Text.cutFirst_eq_some_iff.mp cut
        cases read
        exact ⟨.keyed whole (isPadded_trim _) (isPadded_trim _),
          fun inside => free (Text.mem_of_mem_trim inside), Text.isTrimmed_trim _,
          Text.isTrimmed_trim _⟩
    · next uncut =>
        cases read
        exact ⟨.bare rfl (Text.cutFirst_eq_none_iff.mp uncut) (isPadded_trim _), by decide,
          Text.isTrimmed_of_trim (by decide), Text.isTrimmed_trim _⟩
  · rintro ⟨writes, free, keyTrimmed, valueTrimmed⟩
    cases writes with
    | @keyed paddedKey paddedValue whole around behind =>
        -- The padding has no `=` either, so that the first one stands right behind the key.
        have cut : Text.cutFirst '=' piece = some (paddedKey, paddedValue) :=
          Text.cutFirst_eq_some_iff.mpr ⟨whole, around.not_mem free (by decide)⟩
        rw [keyAndValue, cut]
        dsimp only
        rw [trim_eq_iff_isPadded.mpr ⟨keyTrimmed, around⟩,
          trim_eq_iff_isPadded.mpr ⟨valueTrimmed, behind⟩]
    | bare isSource pieceFree padded =>
        rw [keyAndValue, Text.cutFirst_of_free pieceFree, isSource]
        dsimp only
        rw [trim_eq_iff_isPadded.mpr ⟨valueTrimmed, padded⟩]

theorem states_keyAndValue (piece : Text) : States piece (keyAndValue piece).1 (keyAndValue piece).2 :=
  keyAndValue_eq_iff.mp rfl

/-- A piece says one thing. -/
theorem States.unique {piece key value otherKey otherValue : Text} (states : States piece key value)
    (also : States piece otherKey otherValue) : otherKey = key ∧ otherValue = value := by
  have same := (keyAndValue_eq_iff.mpr also).symm.trans (keyAndValue_eq_iff.mpr states)
  exact ⟨congrArg Prod.fst same, congrArg Prod.snd same⟩

/-- What holds of the key and the value that a piece says is decided by the piece. -/
theorem exists_states_iff {property : Text -> Text -> Prop} {piece key value : Text}
    (states : States piece key value) :
    (exists key value, States piece key value ∧ property key value) ↔ property key value := by
  refine ⟨?_, fun holds => ⟨key, value, states, holds⟩⟩
  rintro ⟨otherKey, otherValue, also, holds⟩
  obtain ⟨rfl, rfl⟩ := states.unique also
  exact holds

/-! ## Attributes -/

/-- A key and a value that make an attribute. -/
def IsAttribute (key value : Text) : Prop :=
  key = "src".toList ∨ key = "name".toList ∨
    (key = "optional".toList ∧ (value = "true".toList ∨ value = "false".toList))

/-- A key and a value that make none, and why. -/
def IsRefused (key value : Text) (failure : InputError) : Prop :=
  (key = "optional".toList ∧ value ≠ "true".toList ∧ value ≠ "false".toList ∧
      failure = .badOptionalValue value) ∨
    (key ≠ "src".toList ∧ key ≠ "name".toList ∧ key ≠ "optional".toList ∧
      failure = .unknownAttribute key)

/-- A piece that says an attribute. -/
def IsGood (piece : Text) : Prop :=
  exists key value, States piece key value ∧ IsAttribute key value

/-- A piece that says something else. -/
def Offends (piece : Text) (failure : InputError) : Prop :=
  exists key value, States piece key value ∧ IsRefused key value failure

theorem isGood_iff {piece key value : Text} (states : States piece key value) :
    IsGood piece ↔ IsAttribute key value :=
  exists_states_iff states

theorem offends_iff {piece key value : Text} {failure : InputError}
    (states : States piece key value) : Offends piece failure ↔ IsRefused key value failure :=
  @exists_states_iff (IsRefused · · failure) _ _ _ states

/-- What an attribute does to a specification. -/
def withAttribute (spec : SecretSpec) (key value : Text) : SecretSpec where
  src := if key = "src".toList then Path.ofText value else spec.src
  name := if key = "name".toList then some value else spec.name
  optional := if key = "optional".toList then decide (value = "true".toList) else spec.optional

section

variable {spec later : SecretSpec} {key value : Text} {failure : InputError}

theorem nameKey_ne_source : "name".toList ≠ "src".toList := by decide

theorem optionalKey_ne_source : "optional".toList ≠ "src".toList := by decide

theorem optionalKey_ne_name : "optional".toList ≠ "name".toList := by decide

theorem false_ne_true : "false".toList ≠ "true".toList := by decide

theorem withAttribute_src :
    withAttribute spec "src".toList value = { spec with src := Path.ofText value } := by
  rw [withAttribute, if_pos rfl, if_neg nameKey_ne_source.symm, if_neg optionalKey_ne_source.symm]

theorem withAttribute_name :
    withAttribute spec "name".toList value = { spec with name := some value } := by
  rw [withAttribute, if_neg nameKey_ne_source, if_pos rfl, if_neg optionalKey_ne_name.symm]

theorem withAttribute_optional : withAttribute spec "optional".toList value =
    { spec with optional := decide (value = "true".toList) } := by
  rw [withAttribute, if_neg optionalKey_ne_source, if_neg optionalKey_ne_name, if_pos rfl]

theorem set_of_isAttribute (isAttribute : IsAttribute key value) :
    set spec key value = .ok (withAttribute spec key value) := by
  rcases isAttribute with rfl | rfl | ⟨rfl, rfl | rfl⟩
  · rw [withAttribute_src, set, if_pos rfl]
  · rw [withAttribute_name, set, if_neg nameKey_ne_source, if_pos rfl]
  · rw [withAttribute_optional, set, if_neg optionalKey_ne_source, if_neg optionalKey_ne_name,
      if_pos rfl, if_pos rfl, decide_eq_true rfl]
  · rw [withAttribute_optional, set, if_neg optionalKey_ne_source, if_neg optionalKey_ne_name,
      if_pos rfl, if_neg false_ne_true, if_pos rfl, decide_eq_false false_ne_true]

theorem set_of_isRefused (refused : IsRefused key value failure) :
    set spec key value = .error failure := by
  rcases refused with ⟨rfl, notTrue, notFalse, rfl⟩ | ⟨notSource, notName, notOptional, rfl⟩
  · rw [set, if_neg optionalKey_ne_source, if_neg optionalKey_ne_name, if_pos rfl, if_neg notTrue,
      if_neg notFalse]
  · rw [set, if_neg notSource, if_neg notName, if_neg notOptional]

/-- A key and a value make an attribute, or there is one reason why not. -/
theorem isAttribute_or_isRefused (key value : Text) :
    IsAttribute key value ∨ exists failure, IsRefused key value failure := by
  by_cases isSource : key = "src".toList
  · exact .inl (.inl isSource)
  by_cases isName : key = "name".toList
  · exact .inl (.inr (.inl isName))
  by_cases isOptional : key = "optional".toList
  · by_cases isTrue : value = "true".toList
    · exact .inl (.inr (.inr ⟨isOptional, .inl isTrue⟩))
    by_cases isFalse : value = "false".toList
    · exact .inl (.inr (.inr ⟨isOptional, .inr isFalse⟩))
    · exact .inr ⟨_, .inl ⟨isOptional, isTrue, isFalse, rfl⟩⟩
  · exact .inr ⟨_, .inr ⟨isSource, isName, isOptional, rfl⟩⟩

theorem set_eq_ok_iff :
    set spec key value = .ok later ↔
      IsAttribute key value ∧ later = withAttribute spec key value := by
  constructor
  · intro given
    rcases isAttribute_or_isRefused key value with isAttribute | ⟨failure, refused⟩
    · exact ⟨isAttribute, Except.ok.inj (given.symm.trans (set_of_isAttribute isAttribute))⟩
    · rw [set_of_isRefused refused] at given
      cases given
  · rintro ⟨isAttribute, rfl⟩
    exact set_of_isAttribute isAttribute

theorem set_eq_error_iff : set spec key value = .error failure ↔ IsRefused key value failure := by
  refine ⟨fun given => ?_, set_of_isRefused⟩
  rcases isAttribute_or_isRefused key value with isAttribute | ⟨other, refused⟩
  · rw [set_of_isAttribute isAttribute] at given
    cases given
  · rw [set_of_isRefused refused] at given
    cases given
    exact refused

end

/-! ## The last value of a key -/

/-- No piece is for a key. -/
def IsSilent (key : Text) (pieces : List Text) : Prop :=
  forall piece, piece ∈ pieces -> forall value, ¬States piece key value

/-- The value that the last piece for a key says, or none if no piece is for it. -/
def IsLast (key : Text) (pieces : List Text) : Option Text -> Prop
  | none => IsSilent key pieces
  | some value => exists before piece after, pieces = before ++ piece :: after ∧
      States piece key value ∧ IsSilent key after

section

variable {key stated value piece : Text} {pieces : List Text} {found : Option Text}

theorem isSilent_nil : IsSilent key [] :=
  fun _ member => absurd member List.not_mem_nil

theorem not_isSilent_concat (states : States piece key value) : ¬IsSilent key (pieces ++ [piece]) :=
  fun silent => silent piece (List.mem_append_right _ List.mem_cons_self) value states

theorem isSilent_concat_iff (states : States piece stated value) (different : stated ≠ key) :
    IsSilent key (pieces ++ [piece]) ↔ IsSilent key pieces := by
  constructor
  · exact fun silent other member => silent other (List.mem_append_left _ member)
  · intro silent other member
    rcases List.mem_append.mp member with member | member
    · exact silent other member
    · rw [List.mem_singleton.mp member]
      exact fun value also => different (also.unique states).1

/-- A piece in a list with one more piece at its end is this one or stands in front of it. -/
theorem cases_of_concat {before after : List Text} {decisive : Text}
    (whole : pieces ++ [piece] = before ++ decisive :: after) :
    (decisive = piece ∧ after = []) ∨
      exists middle, after = middle ++ [piece] ∧ pieces = before ++ decisive :: middle := by
  by_cases last : after = []
  · subst after
    obtain ⟨-, same⟩ := List.append_inj' whole rfl
    cases same
    exact .inl ⟨rfl, rfl⟩
  · obtain ⟨middle, final, rfl⟩ := Text.exists_concat last
    rw [← List.cons_append, ← List.append_assoc] at whole
    obtain ⟨front, same⟩ := List.append_inj' whole rfl
    cases same
    exact .inr ⟨middle, rfl, front⟩

/-- The last piece decides for its own key. -/
theorem isLast_concat_iff_of_states (states : States piece key value) :
    IsLast key (pieces ++ [piece]) found ↔ found = some value := by
  constructor
  · intro last
    cases found with
    | none => exact absurd last (not_isSilent_concat states)
    | some other =>
        obtain ⟨before, decisive, after, whole, statesOther, silent⟩ := last
        rcases cases_of_concat whole with ⟨rfl, -⟩ | ⟨middle, rfl, -⟩
        · rw [(states.unique statesOther).2]
        · exact absurd silent (not_isSilent_concat states)
  · rintro rfl
    exact ⟨pieces, piece, [], rfl, states, isSilent_nil⟩

/-- A piece for one key changes nothing for the others. -/
theorem isLast_concat_iff_of_ne (states : States piece stated value) (different : stated ≠ key) :
    IsLast key (pieces ++ [piece]) found ↔ IsLast key pieces found := by
  cases found with
  | none => exact isSilent_concat_iff states different
  | some found =>
      constructor
      · rintro ⟨before, decisive, after, whole, statesFound, silent⟩
        rcases cases_of_concat whole with ⟨rfl, -⟩ | ⟨middle, rfl, rfl⟩
        · exact absurd (statesFound.unique states).1 different
        · exact ⟨before, decisive, middle, rfl, statesFound,
            (isSilent_concat_iff states different).mp silent⟩
      · rintro ⟨before, decisive, after, rfl, statesFound, silent⟩
        refine ⟨before, decisive, after ++ [piece], ?_, statesFound,
          (isSilent_concat_iff states different).mpr silent⟩
        rw [List.append_assoc, List.cons_append]

theorem IsLast.concat (last : IsLast key pieces found) (states : States piece stated value) :
    IsLast key (pieces ++ [piece]) (if stated = key then some value else found) := by
  by_cases same : stated = key
  · rw [if_pos same]
    exact (isLast_concat_iff_of_states (same ▸ states)).mpr rfl
  · rw [if_neg same]
    exact (isLast_concat_iff_of_ne states same).mpr last

theorem IsLast.unique {other : Option Text} (last : IsLast key pieces found)
    (also : IsLast key pieces other) : other = found := by
  have none_of_nil : forall {found}, IsLast key [] found -> found = none := by
    rintro (_ | value) last
    · rfl
    · obtain ⟨before, piece, after, whole, -⟩ := last
      exact absurd whole.symm (List.append_ne_nil_of_right_ne_nil before (List.cons_ne_nil _ _))
  -- From the end, since the last piece settles its key and can be left out for every other one.
  induction pieces using List.reverseRecOn with
  | nil => rw [none_of_nil last, none_of_nil also]
  | append_singleton pieces piece ih =>
      have states := states_keyAndValue piece
      by_cases same : (keyAndValue piece).1 = key
      · rw [same] at states
        rw [(isLast_concat_iff_of_states states).mp last, (isLast_concat_iff_of_states states).mp also]
      · exact ih ((isLast_concat_iff_of_ne states same).mp last)
          ((isLast_concat_iff_of_ne states same).mp also)

end

/-! ## What several pieces say -/

/-- What pieces say of a specification.  The last piece for each key decides, and what no piece is
for is as in a blank one. -/
structure IsRead (pieces : List Text) (spec : SecretSpec) : Prop where
  src : exists found, IsLast "src".toList pieces found ∧ spec.src = Path.ofText (found.getD [])
  name : IsLast "name".toList pieces spec.name
  optional : exists found, IsLast "optional".toList pieces found ∧
    spec.optional = decide (found = some "true".toList)

theorem isRead_blank : IsRead [] blank :=
  ⟨⟨none, isSilent_nil, rfl⟩, isSilent_nil, none, isSilent_nil, rfl⟩

theorem IsRead.concat {pieces : List Text} {piece key value : Text} {spec : SecretSpec}
    (read : IsRead pieces spec) (states : States piece key value) :
    IsRead (pieces ++ [piece]) (withAttribute spec key value) := by
  obtain ⟨source, lastSource, sameSource⟩ := read.src
  obtain ⟨choice, lastChoice, sameChoice⟩ := read.optional
  refine ⟨⟨_, lastSource.concat states, ?_⟩, read.name.concat states, _, lastChoice.concat states, ?_⟩
  · change (if key = "src".toList then Path.ofText value else spec.src) = _
    rw [sameSource]
    split <;> rfl
  · change (if key = "optional".toList then decide (value = "true".toList) else spec.optional) = _
    rw [sameChoice]
    split
    · exact decide_eq_decide.mpr (Option.some_inj).symm
    · rfl

theorem IsRead.unique {pieces : List Text} {spec other : SecretSpec} (read : IsRead pieces spec)
    (also : IsRead pieces other) : other = spec := by
  obtain ⟨source, lastSource, sameSource⟩ := read.src
  obtain ⟨choice, lastChoice, sameChoice⟩ := read.optional
  obtain ⟨otherSource, lastOther, sameOther⟩ := also.src
  obtain ⟨otherChoice, lastOtherChoice, sameOtherChoice⟩ := also.optional
  have sameName : other.name = spec.name := read.name.unique also.name
  rw [lastSource.unique lastOther, ← sameSource] at sameOther
  rw [lastChoice.unique lastOtherChoice, ← sameChoice] at sameOtherChoice
  cases spec
  cases other
  cases sameOther
  cases sameName
  cases sameOtherChoice
  rfl

/-- What a piece does to a specification, whether it is good or not. -/
def withPiece (spec : SecretSpec) (piece : Text) : SecretSpec :=
  withAttribute spec (keyAndValue piece).1 (keyAndValue piece).2

/-- Every list of pieces says something of a specification. -/
theorem isRead_foldl (pieces : List Text) : IsRead pieces (pieces.foldl withPiece blank) := by
  induction pieces using List.reverseRecOn with
  | nil => exact isRead_blank
  | append_singleton pieces piece ih =>
      rw [List.foldl_append, List.foldl_cons, List.foldl_nil]
      exact ih.concat (states_keyAndValue piece)

/-! ## The first offence -/

section

variable {α : Type} {Good : α -> Prop} {Refused : α -> InputError -> Prop} {failure : InputError}

/-- What the first entry that is not good is refused with. -/
def FirstRefused (Good : α -> Prop) (Refused : α -> InputError -> Prop) (entries : List α)
    (failure : InputError) : Prop :=
  exists before entry after, entries = before ++ entry :: after ∧
    (forall earlier, earlier ∈ before -> Good earlier) ∧ Refused entry failure

theorem not_firstRefused_nil : ¬FirstRefused Good Refused [] failure := by
  rintro ⟨before, entry, after, whole, -⟩
  exact List.append_ne_nil_of_right_ne_nil before (List.cons_ne_nil entry after) whole.symm

theorem firstRefused_cons_iff {entry : α} {entries : List α} :
    FirstRefused Good Refused (entry :: entries) failure ↔
      Refused entry failure ∨ Good entry ∧ FirstRefused Good Refused entries failure := by
  constructor
  · rintro ⟨before, refused, after, whole, good, isRefused⟩
    cases before with
    | nil =>
        cases whole
        exact .inl isRefused
    | cons first before =>
        cases whole
        rw [List.forall_mem_cons] at good
        exact .inr ⟨good.1, before, refused, after, rfl, good.2, isRefused⟩
  · rintro (isRefused | ⟨isGood, before, refused, after, rfl, good, isRefused⟩)
    · exact ⟨[], entry, entries, rfl, fun _ member => absurd member List.not_mem_nil, isRefused⟩
    · exact ⟨entry :: before, refused, after, rfl, List.forall_mem_cons.mpr ⟨isGood, good⟩,
        isRefused⟩

end

/-! ## Pieces -/

theorem setAll_eq_ok_iff {spec later : SecretSpec} {pieces : List Text} :
    setAll spec pieces = .ok later ↔ (forall piece, piece ∈ pieces -> IsGood piece) ∧
      later = pieces.foldl withPiece spec := by
  induction pieces generalizing spec with
  | nil =>
      rw [setAll, List.foldl_nil, Except.ok.injEq, eq_comm]
      exact (and_iff_right fun _ member => absurd member List.not_mem_nil).symm
  | cons piece pieces ih =>
      rw [setAll, Report.bind_eq_ok_iff, List.forall_mem_cons, List.foldl_cons, withPiece,
        isGood_iff (states_keyAndValue piece)]
      constructor
      · rintro ⟨next, first, others⟩
        obtain ⟨isAttribute, rfl⟩ := set_eq_ok_iff.mp first
        obtain ⟨good, same⟩ := ih.mp others
        exact ⟨⟨isAttribute, good⟩, same⟩
      · rintro ⟨⟨isAttribute, good⟩, same⟩
        exact ⟨_, set_of_isAttribute isAttribute, ih.mpr ⟨good, same⟩⟩

theorem setAll_eq_error_iff {spec : SecretSpec} {pieces : List Text} {failure : InputError} :
    setAll spec pieces = .error failure ↔ FirstRefused IsGood Offends pieces failure := by
  induction pieces generalizing spec with
  | nil => exact iff_of_false nofun not_firstRefused_nil
  | cons piece pieces ih =>
      rw [setAll, Report.bind_eq_error_iff, firstRefused_cons_iff,
        offends_iff (states_keyAndValue piece), isGood_iff (states_keyAndValue piece),
        set_eq_error_iff]
      refine or_congr_right ?_
      simp only [set_eq_ok_iff, ih]
      exact ⟨fun ⟨_, ⟨isAttribute, _⟩, first⟩ => ⟨isAttribute, first⟩,
        fun ⟨isAttribute, first⟩ => ⟨_, ⟨isAttribute, rfl⟩, first⟩⟩

/-! ## Texts -/

/-- A text whose pieces are all good. -/
def IsWellFormed (text : Text) : Prop :=
  forall piece, piece ∈ Text.fields ',' text -> IsGood piece

theorem parse_eq_ok_iff {text : Text} {spec : SecretSpec} :
    parse text = .ok spec ↔ IsWellFormed text ∧ IsRead (Text.fields ',' text) spec := by
  rw [parse, setAll_eq_ok_iff]
  refine and_congr_right fun _ => ⟨?_, fun read => (isRead_foldl _).unique read⟩
  rintro rfl
  exact isRead_foldl _

theorem parse_eq_error_iff {text : Text} {failure : InputError} :
    parse text = .error failure ↔ FirstRefused IsGood Offends (Text.fields ',' text) failure :=
  setAll_eq_error_iff

/-- Texts are read one by one. -/
theorem parseAll_eq_ok_iff {texts : List Text} {specs : List SecretSpec} :
    parseAll texts = .ok specs ↔ List.Forall₂ (fun text spec =>
      IsWellFormed text ∧ IsRead (Text.fields ',' text) spec) texts specs := by
  induction texts generalizing specs with
  | nil => rw [parseAll, Except.ok.injEq, List.forall₂_nil_left_iff, eq_comm]
  | cons text texts ih =>
      rw [parseAll, Report.bind_eq_ok_iff, List.forall₂_cons_left_iff]
      simp only [Report.map_eq_ok_iff, ih, parse_eq_ok_iff]
      constructor
      · rintro ⟨spec, first, others, rest, rfl⟩
        exact ⟨spec, others, first, rest, rfl⟩
      · rintro ⟨spec, others, first, rest, rfl⟩
        exact ⟨spec, first, others, rest, rfl⟩

theorem parseAll_eq_error_iff {texts : List Text} {failure : InputError} :
    parseAll texts = .error failure ↔ FirstRefused IsWellFormed
      (fun text => FirstRefused IsGood Offends (Text.fields ',' text)) texts failure := by
  induction texts with
  | nil => exact iff_of_false nofun not_firstRefused_nil
  | cons text texts ih =>
      rw [parseAll, Report.bind_eq_error_iff, firstRefused_cons_iff, ← parse_eq_error_iff]
      refine or_congr_right ?_
      simp only [Report.map_eq_error_iff, ih, parse_eq_ok_iff]
      exact ⟨fun ⟨_, ⟨wellFormed, _⟩, first⟩ => ⟨wellFormed, first⟩,
        fun ⟨wellFormed, first⟩ => ⟨_, ⟨wellFormed, isRead_foldl _⟩, first⟩⟩

/-- Texts are read exactly if all are well formed. -/
theorem exists_parseAll_iff {texts : List Text} :
    (exists specs, parseAll texts = .ok specs) ↔ forall text, text ∈ texts -> IsWellFormed text := by
  simp only [parseAll_eq_ok_iff]
  induction texts with
  | nil => exact iff_of_true ⟨[], .nil⟩ fun _ member => absurd member List.not_mem_nil
  | cons text texts ih =>
      rw [List.forall_mem_cons, ← ih]
      constructor
      · rintro ⟨specs, read⟩
        cases read with
        | cons first others => exact ⟨first.1, _, others⟩
      · rintro ⟨wellFormed, specs, others⟩
        exact ⟨_ :: specs, .cons ⟨wellFormed, isRead_foldl _⟩ others⟩

end SecretSpec
end BuildInputs

import BuildInputs.Image.Label
import BuildInputs.Proofs.Image.Parts
import BuildInputs.Proofs.Report
import BuildInputs.Proofs.Text.Trimming

namespace BuildInputs
namespace Image

open Text

/-!
# Tags in the value of a label

A label value lists tags with runs of white space and commas between them, and white space around
them all.  `IsTagList` says so from the side of whoever writes such a value.  `IsCutInto` says how a
value is read, good or bad: once it is trimmed, it is cut at each longest run of separators.  Only
the first and the last piece can be empty, and they are if a comma stands there.

The main result ties both to the tags of a label.  It rests on two observations.  A text is cut in
exactly one way.  And no tag is empty or has a separator in it, so that between tags every run of
separators is as long as it can be.
-/

/-- The pieces of a text between its runs of separators.  Each run is as long as it can be. -/
inductive IsSplit : Text -> List Text -> Prop where
  | last {piece : Text} (free : forall letter, letter ∈ piece -> isTagSeparator letter = false) :
      IsSplit piece [piece]
  | more {piece run rest : Text} {pieces : List Text}
      (free : forall letter, letter ∈ piece -> isTagSeparator letter = false)
      (nonempty : run ≠ []) (separators : run.all isTagSeparator = true)
      (ends : forall letter, rest.head? = some letter -> isTagSeparator letter = false)
      (further : IsSplit rest pieces) : IsSplit (piece ++ run ++ rest) (piece :: pieces)

/-- A label value that is not blank, and its pieces. -/
inductive IsCutInto : Text -> List Text -> Prop where
  | cut {before core after : Text} {pieces : List Text} (nonempty : core ≠ [])
      (trimmed : IsTrimmed core) (blankBefore : before.all isWhiteSpace = true)
      (blankAfter : after.all isWhiteSpace = true) (split : IsSplit core pieces) :
      IsCutInto (before ++ core ++ after) pieces

/-- Tags with separators between any two. -/
inductive IsTagRow : Text -> List Text -> Prop where
  | last {tag : Text} (valid : isTag tag = true) : IsTagRow tag [tag]
  | more {tag run rest : Text} {tags : List Text} (valid : isTag tag = true) (nonempty : run ≠ [])
      (separators : run.all isTagSeparator = true) (further : IsTagRow rest tags) :
      IsTagRow (tag ++ run ++ rest) (tag :: tags)

/-- A label value that lists tags: nothing but white space, or tags in a row with white space
around them. -/
inductive IsTagList : Text -> List Text -> Prop where
  | blank {value : Text} (blank : value.all isWhiteSpace = true) : IsTagList value []
  | row {before row after : Text} {tags : List Text} (blankBefore : before.all isWhiteSpace = true)
      (blankAfter : after.all isWhiteSpace = true) (isRow : IsTagRow row tags) :
      IsTagList (before ++ row ++ after) tags

/-! ## Cutting at runs of separators -/

theorem tagPieces_inRun (text : Text) :
    tagPieces true text = tagPieces false (text.dropWhile isTagSeparator) := by
  induction text with
  | nil => rfl
  | cons letter rest ih =>
      by_cases separator : isTagSeparator letter = true
      · rw [tagPieces, if_pos separator, if_pos rfl, ih, List.dropWhile_cons_of_pos separator]
      · rw [tagPieces, if_neg separator, List.dropWhile_cons_of_neg separator, tagPieces,
          if_neg separator]

theorem tagPieces_of_free {piece : Text}
    (free : forall letter, letter ∈ piece -> isTagSeparator letter = false) :
    tagPieces false piece = [piece] := by
  induction piece with
  | nil => rfl
  | cons letter rest ih =>
      rw [List.forall_mem_cons] at free
      rw [tagPieces, if_neg (Bool.eq_false_iff.mp free.1), ih free.2]
      rfl

theorem tagPieces_append {piece : Text} {separator : Char}
    (free : forall letter, letter ∈ piece -> isTagSeparator letter = false)
    (isSeparator : isTagSeparator separator = true) (rest : Text) :
    tagPieces false (piece ++ separator :: rest) = piece :: tagPieces true rest := by
  induction piece with
  | nil => rw [List.nil_append, tagPieces, if_pos isSeparator, if_neg Bool.false_ne_true]
  | cons letter piece ih =>
      rw [List.forall_mem_cons] at free
      rw [List.cons_append, tagPieces, if_neg (Bool.eq_false_iff.mp free.1), ih free.2]
      rfl

theorem tagPieces_of_isSplit {text : Text} {pieces : List Text} (split : IsSplit text pieces) :
    tagPieces false text = pieces := by
  induction split with
  | last free => exact tagPieces_of_free free
  | @more piece run rest pieces free nonempty separators ends _ ih =>
      cases run with
      | nil => exact absurd rfl nonempty
      | cons separator run =>
          obtain ⟨isSeparator, others⟩ := Bool.and_eq_true_iff.mp separators
          rw [List.append_assoc, List.cons_append, tagPieces_append free isSeparator,
            tagPieces_inRun, dropWhile_append others ends, ih]

/-- A letter in front belongs to the first piece. -/
theorem IsSplit.cons_letter {text : Text} {pieces : List Text} {letter : Char}
    (split : IsSplit text pieces) (isLetter : isTagSeparator letter = false) :
    exists others, IsSplit (letter :: text) others := by
  cases split with
  | last free => exact ⟨_, .last (List.forall_mem_cons.mpr ⟨isLetter, free⟩)⟩
  | more free nonempty separators ends further =>
      exact ⟨_, .more (List.forall_mem_cons.mpr ⟨isLetter, free⟩) nonempty separators ends further⟩

/-- A separator in front ends an empty piece, or makes the run behind it longer. -/
theorem IsSplit.cons_separator {text : Text} {pieces : List Text} {separator : Char}
    (split : IsSplit text pieces) (isSeparator : isTagSeparator separator = true) :
    exists others, IsSplit (separator :: text) others := by
  have alone : [separator].all isTagSeparator = true := by simp [isSeparator]
  by_cases ends : forall letter, text.head? = some letter -> isTagSeparator letter = false
  · exact ⟨_, .more (List.forall_mem_nil _) (List.cons_ne_nil _ _) alone ends split⟩
  · cases split with
    | last free => exact absurd (fun letter head => free letter (List.mem_of_head? head)) ends
    | @more piece run rest pieces free nonempty separators further split =>
        cases piece with
        | nil =>
            have longer : (separator :: run).all isTagSeparator = true :=
              Bool.and_eq_true_iff.mpr ⟨isSeparator, separators⟩
            exact ⟨_, .more (List.forall_mem_nil _) (List.cons_ne_nil _ _) longer further split⟩
        | cons first piece =>
            apply absurd _ ends
            intro letter head
            exact free letter (Option.some.inj head ▸ List.mem_cons_self)

/-- Every text can be cut. -/
theorem exists_isSplit (text : Text) : exists pieces, IsSplit text pieces := by
  induction text with
  | nil => exact ⟨_, .last (List.forall_mem_nil _)⟩
  | cons letter rest ih =>
      obtain ⟨pieces, split⟩ := ih
      by_cases separator : isTagSeparator letter = true
      · exact split.cons_separator separator
      · exact split.cons_letter (Bool.eq_false_iff.mpr separator)

theorem tagPieces_eq_iff {text : Text} {pieces : List Text} :
    tagPieces false text = pieces ↔ IsSplit text pieces := by
  constructor
  · rintro rfl
    obtain ⟨pieces, split⟩ := exists_isSplit text
    rwa [tagPieces_of_isSplit split]
  · exact tagPieces_of_isSplit

/-! ## Tags and separators -/

theorem between_iff {low high letter : Char} :
    (decide (low ≤ letter) && decide (letter ≤ high)) = true ↔
      low.toNat ≤ letter.toNat ∧ letter.toNat ≤ high.toNat := by
  rw [Bool.and_eq_true, decide_eq_true_iff, decide_eq_true_iff]
  exact Iff.rfl

/-- The code of a character that may stand in a tag is between those of `-` and `z`. -/
theorem between_of_isTagLetter {letter : Char} (tagLetter : isTagLetter letter = true) :
    0x2d ≤ letter.toNat ∧ letter.toNat ≤ 0x7a := by
  simp only [isTagLetter, isWordLetter, Bool.or_eq_true, decide_eq_true_iff] at tagLetter
  rcases tagLetter with ((((lower | upper) | digit) | rfl) | rfl) | rfl
  · have between : 0x61 ≤ letter.toNat ∧ letter.toNat ≤ 0x7a := between_iff.mp lower
    omega
  · have between : 0x41 ≤ letter.toNat ∧ letter.toNat ≤ 0x5a := between_iff.mp upper
    omega
  · have between : 0x30 ≤ letter.toNat ∧ letter.toNat ≤ 0x39 := between_iff.mp digit
    omega
  · decide
  · decide
  · decide

theorem not_isTagSeparator_of_isTagLetter {letter : Char} (tagLetter : isTagLetter letter = true) :
    isTagSeparator letter = false := by
  have between := between_of_isTagLetter tagLetter
  have notComma : letter ≠ ',' := by
    rintro rfl
    exact absurd between (by decide)
  simp only [isTagSeparator, notComma, decide_false, Bool.or_false, isWhiteSpace,
    whiteSpaceRanges, List.any_cons, List.any_nil, Bool.or_eq_false_iff, Bool.and_eq_false_iff,
    decide_eq_false_iff_not]
  omega

/-- A tag is not empty and has no separator in it. -/
theorem exists_cons_of_isTag {tag : Text} (valid : isTag tag = true) :
    exists first rest, tag = first :: rest ∧
      forall letter, letter ∈ first :: rest -> isTagSeparator letter = false := by
  cases tag with
  | nil => cases valid
  | cons first rest =>
      exact ⟨first, rest, rfl, fun letter member => not_isTagSeparator_of_isTagLetter
        (List.all_eq_true.mp (all_isTagLetter valid) letter member)⟩

theorem free_of_isTag {tag : Text} (valid : isTag tag = true) :
    forall letter, letter ∈ tag -> isTagSeparator letter = false := by
  obtain ⟨first, rest, rfl, free⟩ := exists_cons_of_isTag valid
  exact free

/-- A row of tags begins with no separator. -/
theorem IsTagRow.first {row : Text} {tags : List Text} (isRow : IsTagRow row tags) :
    exists first rest, row = first :: rest ∧ isTagSeparator first = false := by
  cases isRow with
  | last valid =>
      obtain ⟨first, rest, rfl, free⟩ := exists_cons_of_isTag valid
      exact ⟨first, rest, rfl, free first List.mem_cons_self⟩
  | more valid nonempty separators further =>
      obtain ⟨first, rest, rfl, free⟩ := exists_cons_of_isTag valid
      exact ⟨first, _, rfl, free first List.mem_cons_self⟩

/-- It ends with none. -/
theorem IsTagRow.last_letter {row : Text} {tags : List Text} (isRow : IsTagRow row tags) :
    exists front last, row = front ++ [last] ∧ isTagSeparator last = false := by
  induction isRow with
  | last valid =>
      obtain ⟨first, rest, rfl, free⟩ := exists_cons_of_isTag valid
      obtain ⟨front, last, whole⟩ := exists_concat (List.cons_ne_nil first rest)
      exact ⟨front, last, whole, free last (whole ▸ List.mem_concat_self)⟩
  | more valid nonempty separators further ih =>
      obtain ⟨front, last, rfl, isLetter⟩ := ih
      exact ⟨_, last, (List.append_assoc _ _ _).symm, isLetter⟩

/-- Tags in a row are the pieces of a text, all of which are tags. -/
theorem isTagRow_iff {row : Text} {tags : List Text} :
    IsTagRow row tags ↔ IsSplit row tags ∧ tags.all isTag = true := by
  constructor
  · intro isRow
    induction isRow with
    | last valid => exact ⟨.last (free_of_isTag valid), by simp [valid]⟩
    | more valid nonempty separators further ih =>
        obtain ⟨first, rest, rfl, isLetter⟩ := further.first
        have ends : forall letter, (first :: rest).head? = some letter ->
            isTagSeparator letter = false := by
          rintro letter ⟨⟩
          exact isLetter
        exact ⟨.more (free_of_isTag valid) nonempty separators ends ih.1,
          Bool.and_eq_true_iff.mpr ⟨valid, ih.2⟩⟩
  · rintro ⟨split, valid⟩
    induction split with
    | last free => exact .last (Bool.and_eq_true_iff.mp valid).1
    | more free nonempty separators ends further ih =>
        obtain ⟨first, others⟩ := Bool.and_eq_true_iff.mp valid
        exact .more first nonempty separators (ih others)

theorem isWhiteSpace_of_letter {letter : Char} (isLetter : isTagSeparator letter = false) :
    isWhiteSpace letter = false :=
  (Bool.or_eq_false_iff.mp isLetter).1

theorem IsTagRow.isTrimmed {row : Text} {tags : List Text} (isRow : IsTagRow row tags) :
    IsTrimmed row where
  first := by
    obtain ⟨first, rest, rfl, isLetter⟩ := isRow.first
    rintro letter ⟨⟩
    exact isWhiteSpace_of_letter isLetter
  last := by
    obtain ⟨front, last, rfl, isLetter⟩ := isRow.last_letter
    intro letter ends
    rw [List.getLast?_concat] at ends
    exact Option.some.inj ends ▸ isWhiteSpace_of_letter isLetter

/-! ## Reading a label value -/

/-- What is read of a value: nothing if it is blank, and else the pieces between its runs of
separators. -/
theorem parseTags_eq_iff {value : Text} {pieces : List Text} :
    parseTags value = pieces ↔
      (value.all isWhiteSpace = true ∧ pieces = []) ∨ IsCutInto value pieces := by
  constructor
  · rintro rfl
    cases core : trim value with
    | nil => exact .inl ⟨trim_eq_nil_iff.mp core, by rw [parseTags, core]⟩
    | cons first rest =>
        obtain ⟨trimmed, before, after, rfl, blankBefore, blankAfter⟩ := trim_eq_iff.mp core
        rw [parseTags, core]
        exact .inr (.cut (List.cons_ne_nil _ _) trimmed blankBefore blankAfter
          (tagPieces_eq_iff.mp rfl))
  · rintro (⟨blank, rfl⟩ | ⟨nonempty, trimmed, blankBefore, blankAfter, split⟩)
    · rw [parseTags, trim_eq_nil_iff.mpr blank]
    · rename_i core _
      rw [parseTags, trim_append trimmed blankBefore blankAfter]
      cases core with
      | nil => exact absurd rfl nonempty
      | cons first rest => exact tagPieces_of_isSplit split

/-- A value lists tags exactly if all pieces that are read are tags. -/
theorem isTagList_iff {value : Text} {tags : List Text} :
    IsTagList value tags ↔ parseTags value = tags ∧ tags.all isTag = true := by
  rw [parseTags_eq_iff]
  constructor
  · rintro (blank | ⟨blankBefore, blankAfter, isRow⟩)
    · exact ⟨.inl ⟨blank, rfl⟩, rfl⟩
    · obtain ⟨split, valid⟩ := isTagRow_iff.mp isRow
      obtain ⟨first, rest, rfl, -⟩ := isRow.first
      exact ⟨.inr (.cut (List.cons_ne_nil _ _) isRow.isTrimmed blankBefore blankAfter split), valid⟩
  · rintro ⟨⟨blank, rfl⟩ | ⟨-, -, blankBefore, blankAfter, split⟩, valid⟩
    · exact .blank blank
    · exact .row blankBefore blankAfter (isTagRow_iff.mpr ⟨split, valid⟩)

/-! ## Commas at the ends -/

theorem head?_dropWhile_blank {white back : Text} {letter : Char}
    (blank : white.all isWhiteSpace = true) (begins : back.head? = some letter)
    (isLetter : isWhiteSpace letter = false) :
    ((white ++ back).dropWhile isWhiteSpace).head? = some letter := by
  have stops : forall other, back.head? = some other -> isWhiteSpace other = false := by
    intro other head
    rw [begins] at head
    exact Option.some.inj head ▸ isLetter
  rw [dropWhile_append blank stops, begins]

theorem IsTagList.first {value : Text} {tags : List Text} (isList : IsTagList value tags) :
    (value.dropWhile isWhiteSpace).head? ≠ some ',' := by
  cases isList with
  | blank blank => simp [dropWhile_of_all blank]
  | row blankBefore blankAfter isRow =>
      obtain ⟨first, others, rfl, isLetter⟩ := isRow.first
      rw [List.append_assoc,
        head?_dropWhile_blank blankBefore rfl (isWhiteSpace_of_letter isLetter)]
      rintro ⟨⟩
      cases isLetter

theorem IsTagList.last {value : Text} {tags : List Text} (isList : IsTagList value tags) :
    (value.reverse.dropWhile isWhiteSpace).head? ≠ some ',' := by
  cases isList with
  | blank blank =>
      rw [← List.all_reverse] at blank
      simp [dropWhile_of_all blank]
  | row blankBefore blankAfter isRow =>
      obtain ⟨front, last, rfl, isLetter⟩ := isRow.last_letter
      rw [← List.all_reverse] at blankAfter
      rw [List.reverse_append, List.reverse_append, List.reverse_concat,
        head?_dropWhile_blank blankAfter rfl (isWhiteSpace_of_letter isLetter)]
      rintro ⟨⟩
      cases isLetter

/-- With a comma in front of everything else but white space, or behind it, a value lists no
tags. -/
theorem not_isTagList_of_comma {white rest value : Text} {tags : List Text}
    (blank : white.all isWhiteSpace = true)
    (comma : value = white ++ ',' :: rest ∨ value = rest ++ ',' :: white) :
    ¬IsTagList value tags := by
  intro isList
  rcases comma with rfl | rfl
  · exact isList.first (head?_dropWhile_blank blank rfl rfl)
  · rw [← List.all_reverse] at blank
    apply isList.last
    rw [List.reverse_append, List.reverse_cons, List.append_assoc]
    exact head?_dropWhile_blank blank rfl rfl

/-! ## The tags of a label -/

section

variable {name value : Text}

theorem tagsFromLabel_eq_ok_iff {tags : List Text} :
    tagsFromLabel name value = .ok tags ↔ isLabelName name = true ∧ IsTagList value tags := by
  rw [isTagList_iff, tagsFromLabel]
  by_cases valid : isLabelName name = true
  · rw [if_pos valid, Report.map_eq_ok_iff, List.all_eq_true]
    constructor
    · rintro ⟨done, checked, rfl⟩
      exact ⟨valid, rfl, checkTags_eq_ok_iff.mp checked⟩
    · rintro ⟨-, rfl, checked⟩
      exact ⟨(), checkTags_eq_ok_iff.mpr checked, rfl⟩
  · rw [if_neg valid]
    exact iff_of_false nofun fun both => valid both.1

/-- The first piece that is no tag is named, and a wrong name before any piece. -/
theorem tagsFromLabel_eq_error_iff {error : InputError} :
    tagsFromLabel name value = .error error ↔
      (isLabelName name = false ∧ error = .badLabelName name) ∨
        (isLabelName name = true ∧ exists before tag after,
          IsCutInto value (before ++ tag :: after) ∧ before.all isTag = true ∧
            isTag tag = false ∧ error = .badTag tag) := by
  rw [tagsFromLabel]
  by_cases valid : isLabelName name = true
  · rw [if_pos valid, Report.map_eq_error_iff, checkTags_eq_error_iff]
    constructor
    · rintro ⟨before, tag, after, pieces, checked⟩
      rcases parseTags_eq_iff.mp pieces with ⟨-, impossible⟩ | cut
      · exact absurd impossible (List.append_ne_nil_of_right_ne_nil _ (List.cons_ne_nil _ _))
      · exact .inr ⟨valid, before, tag, after, cut, checked⟩
    · rintro (⟨refused, -⟩ | ⟨-, before, tag, after, cut, checked⟩)
      · rw [valid] at refused
        cases refused
      · exact ⟨before, tag, after, parseTags_eq_iff.mpr (.inr cut), checked⟩
  · rw [if_neg valid]
    constructor
    · rintro ⟨⟩
      exact .inl ⟨Bool.eq_false_iff.mpr valid, rfl⟩
    · rintro (⟨-, rfl⟩ | ⟨impossible, -⟩)
      · rfl
      · exact absurd impossible valid

end

/-- The tags of a label come back as they are listed, in order and with repeats, however they are
separated and padded.  Otherwise the name is refused before the value is read, or the first piece
that is no tag is named.  So a comma at either end is an error. -/
theorem tagsFromLabel_reads_lists (name value : Text) :
    (forall tags, tagsFromLabel name value = .ok tags ↔
        isLabelName name = true ∧ IsTagList value tags) ∧
      (forall error, tagsFromLabel name value = .error error ↔
        (isLabelName name = false ∧ error = .badLabelName name) ∨
          (isLabelName name = true ∧ exists before tag after,
            IsCutInto value (before ++ tag :: after) ∧ before.all isTag = true ∧
              isTag tag = false ∧ error = .badTag tag)) ∧
      (forall white rest, white.all isWhiteSpace = true ->
        value = white ++ ',' :: rest ∨ value = rest ++ ',' :: white ->
        exists error, tagsFromLabel name value = .error error) := by
  refine ⟨fun _ => tagsFromLabel_eq_ok_iff, fun _ => tagsFromLabel_eq_error_iff, ?_⟩
  intro white rest blank comma
  cases result : tagsFromLabel name value with
  | error error => exact ⟨error, rfl⟩
  | ok tags =>
      have isList := (tagsFromLabel_eq_ok_iff.mp result).2
      exact absurd isList (not_isTagList_of_comma blank comma)

/-- A label that ends with a comma and a blank. -/
theorem tagsFromLabel_refuses_last_comma :
    " ".toList.all isWhiteSpace = true ∧ "v1 , ".toList = "v1 ".toList ++ ',' :: " ".toList ∧
      exists error,
        tagsFromLabel "konflux.additional-tags".toList "v1 , ".toList = .error error :=
  ⟨by decide, by decide, (tagsFromLabel_reads_lists _ _).2.2 " ".toList "v1 ".toList (by decide)
    (.inr (by decide))⟩

example : tagsFromLabel "a.b".toList " v1 ,, v2, v1 ".toList =
    .ok ["v1".toList, "v2".toList, "v1".toList] := by
  rfl

end Image
end BuildInputs

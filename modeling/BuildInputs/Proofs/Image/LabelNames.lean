import BuildInputs.Image.Label
import BuildInputs.Image.Reference
import BuildInputs.Proofs.Text.Utf8
import BuildInputs.Proofs.Text.Words

namespace BuildInputs
namespace Image

open Text

/-!
# The grammar of label names

The name of a label is checked in three ways: by its bytes, by pairs of separators anywhere, and
by a list of characters with letters at both ends.  Behind them is a row of words with exactly one
separator between any two.  A digit may stand next to a separator but at neither end of the name,
so that a name of one character would have to be its own first and last letter and is too short.

All characters that pass are ASCII, and it makes no difference whether they or their bytes are
counted.
-/

/-- What may stand between two words of a label name. -/
def labelJoints : List Text :=
  ["/".toList, ".".toList, "_".toList, "-".toList]

/-- Words of lower-case letters and digits with one separator between any two. -/
abbrev IsLabelRow (name : Text) : Prop :=
  IsRow isNameLetter labelJoints name

section

variable {letter first : Char} {name rest : Text}

theorem isLabelLetter_iff :
    isLabelLetter letter = true ↔ isNameLetter letter = true ∨ isLabelSeparator letter = true := by
  rw [isLabelLetter, isNameLetter, Bool.or_eq_true]

theorem mem_labelJoints_iff {joint : Text} :
    joint ∈ labelJoints ↔ exists letter, isLabelSeparator letter = true ∧ joint = [letter] := by
  simp [labelJoints, isLabelSeparator, or_assoc, or_and_right, exists_or]

/-- A separator is no letter. -/
theorem not_isNameLetter_of_separator (separator : isLabelSeparator letter = true) :
    isNameLetter letter = false := by
  simp only [isLabelSeparator, Bool.or_eq_true, decide_eq_true_iff] at separator
  rcases separator with ((rfl | rfl) | rfl) | rfl <;> rfl

/-- A lower-case letter at an end is also a letter or a digit there. -/
theorem any_isNameLetter {found : Option Char} (lower : found.any isLower = true) :
    found.any isNameLetter = true := by
  cases found with
  | none => cases lower
  | some letter =>
      rw [Option.any_some] at lower ⊢
      rw [isNameLetter, lower, Bool.true_or]

/-- The last character of the list of those that pass is `z`. -/
theorem ascii_of_isLabelLetter (passes : isLabelLetter letter = true) : letter.toNat < 0x80 := by
  have below : forall {high : Char}, high.toNat < 0x80 -> letter ≤ high -> letter.toNat < 0x80 :=
    fun small atMost => Nat.lt_of_le_of_lt atMost small
  simp only [isLabelLetter, isLower, isDigit, isLabelSeparator, Bool.or_eq_true, Bool.and_eq_true,
    decide_eq_true_iff] at passes
  rcases passes with (⟨-, lower⟩ | ⟨-, digit⟩) | ((rfl | rfl) | rfl) | rfl
  · exact below (by decide) lower
  · exact below (by decide) digit
  · decide
  · decide
  · decide
  · decide

theorem hasDoubleSeparator_iff : forall {name : Text}, hasDoubleSeparator name = true ↔
    exists first second, isLabelSeparator first = true ∧ isLabelSeparator second = true ∧
      [first, second] <:+: name
  | [] => by
      refine iff_of_false Bool.false_ne_true ?_
      rintro ⟨first, second, -, -, inside⟩
      exact absurd inside.length_le (by simp)
  | [_] => by
      refine iff_of_false Bool.false_ne_true ?_
      rintro ⟨first, second, -, -, inside⟩
      exact absurd inside.length_le (by simp)
  | head :: next :: rest => by
      rw [hasDoubleSeparator, Bool.or_eq_true, Bool.and_eq_true, hasDoubleSeparator_iff]
      constructor
      · rintro (⟨isFirst, isSecond⟩ | ⟨first, second, isFirst, isSecond, inside⟩)
        · exact ⟨head, next, isFirst, isSecond, (List.prefix_append [head, next] rest).isInfix⟩
        · exact ⟨first, second, isFirst, isSecond, List.infix_cons_iff.mpr (.inr inside)⟩
      · rintro ⟨first, second, isFirst, isSecond, inside⟩
        rcases List.infix_cons_iff.mp inside with start | later
        · rcases List.cons_prefix_cons.mp start with ⟨rfl, further⟩
          rcases List.cons_prefix_cons.mp further with ⟨rfl, -⟩
          exact .inl ⟨isFirst, isSecond⟩
        · exact .inr ⟨first, second, isFirst, isSecond, later⟩

/-! ## From the checks to words -/

/-- A letter and what follows it in a name, read one letter or one separator at a time. -/
theorem isLabelRow_of_checks : forall (first : Char) (rest : Text), isNameLetter first = true ->
    rest.all isLabelLetter = true -> hasDoubleSeparator (first :: rest) = false ->
    (first :: rest).getLast?.any isNameLetter = true -> IsLabelRow (first :: rest)
  | first, [], begins, _, _, _ => .single begins
  | first, second :: rest, begins, letters, single, last => by
      rcases Bool.and_eq_true_iff.mp letters with ⟨secondPasses, restPasses⟩
      rcases Bool.or_eq_false_iff.mp single with ⟨apart, restSingle⟩
      rw [List.getLast?_cons_cons] at last
      rcases isLabelLetter_iff.mp secondPasses with isLetter | separator
      · exact .cons begins (isLabelRow_of_checks second rest isLetter restPasses restSingle last)
      match rest with
      -- A separator cannot be the last character.
      | [] =>
          rw [List.getLast?_singleton, Option.any_some,
            not_isNameLetter_of_separator separator] at last
          cases last
      | third :: rest =>
          rcases Bool.and_eq_true_iff.mp restPasses with ⟨thirdPasses, furtherPasses⟩
          rcases Bool.or_eq_false_iff.mp restSingle with ⟨furtherApart, furtherSingle⟩
          rw [separator, Bool.true_and] at furtherApart
          have isLetter : isNameLetter third = true :=
            (isLabelLetter_iff.mp thirdPasses).resolve_right (Bool.eq_false_iff.mp furtherApart)
          rw [List.getLast?_cons_cons] at last
          exact .cons_joint begins (mem_labelJoints_iff.mpr ⟨second, separator, rfl⟩)
            (isLabelRow_of_checks third rest isLetter furtherPasses furtherSingle last)

/-! ## From words to the checks -/

theorem all_isLabelLetter (row : IsLabelRow name) : name.all isLabelLetter = true := by
  apply row.all
  · exact fun letter good => isLabelLetter_iff.mpr (.inl good)
  · decide

/-- Two separators in a row would have to stand in one joint. -/
theorem hasDoubleSeparator_of_isLabelRow (row : IsLabelRow name) :
    hasDoubleSeparator name = false := by
  apply Bool.eq_false_iff.mpr
  intro double
  rcases hasDoubleSeparator_iff.mp double with ⟨first, second, isFirst, isSecond, inside⟩
  have unlettered : forall letter, letter ∈ [first, second] -> isNameLetter letter = false := by
    intro letter member
    simp only [List.mem_cons, List.not_mem_nil, or_false] at member
    rcases member with rfl | rfl
    · exact not_isNameLetter_of_separator isFirst
    · exact not_isNameLetter_of_separator isSecond
  rcases row.infix_joint (List.cons_ne_nil _ _) unlettered inside with ⟨joint, isJoint, among⟩
  rcases mem_labelJoints_iff.mp isJoint with ⟨letter, -, rfl⟩
  exact absurd among.length_le (by simp)

theorem size_of_isLabelRow (row : IsLabelRow name) : Utf8.size name = name.length :=
  Utf8.size_of_ascii fun letter member =>
    ascii_of_isLabelLetter (List.all_eq_true.mp (all_isLabelLetter row) letter member)

end

/-- The names of labels are the texts of 2 to 256 bytes that are words of lower-case letters and
digits with one separator between any two, and have letters at both ends.  Every other text is
refused. -/
theorem isLabelName_iff_row (name : Text) :
    isLabelName name = true ↔ (2 ≤ Utf8.size name ∧ Utf8.size name ≤ 256) ∧ IsLabelRow name ∧
      name.head?.any isLower = true ∧ name.getLast?.any isLower = true := by
  simp only [isLabelName, Bool.and_eq_true, decide_eq_true_iff,
    Bool.not_eq_true']
  constructor
  · rintro ⟨⟨⟨⟨⟨long, short⟩, single⟩, letters⟩, head⟩, last⟩
    have row : IsLabelRow name := by
      cases name with
      | nil => cases head
      | cons first rest =>
          exact isLabelRow_of_checks first rest (any_isNameLetter head)
            (Bool.and_eq_true_iff.mp letters).2 single (any_isNameLetter last)
    exact ⟨⟨size_of_isLabelRow row ▸ long, short⟩, row, head, last⟩
  · rintro ⟨⟨long, short⟩, row, head, last⟩
    rw [size_of_isLabelRow row] at long
    exact ⟨⟨⟨⟨⟨long, short⟩, hasDoubleSeparator_of_isLabelRow row⟩, all_isLabelLetter row⟩, head⟩,
      last⟩

/-- Digits may stand next to a separator, and at neither end. -/
example : isLabelName "a.1-2/b".toList = true ∧ isLabelName "1.a".toList = false ∧
    isLabelName "a".toList = false ∧ isLabelName "a./b".toList = false := by
  decide

end Image
end BuildInputs

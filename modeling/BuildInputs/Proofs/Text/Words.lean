import BuildInputs.Proofs.Text.Fields

namespace BuildInputs
namespace Text

/-!
# Words inside a text and words in a row

A text has a word in it if the word stands somewhere without a gap.  Where a text is put together
from two sides, a word that shares no character with the one lies in the other, and a word that is
free of a separator lies on one side of it.  So what a text must not have in it can be checked
piece by piece.

The opposite of such a list of forbidden words is a grammar.  `IsRow` says which texts are words of
certain letters with one of certain joints between any two.  It is closed under putting letters
and joints in front, one at a time, which is how a text is read.
-/

theorem hasWord_iff {word text : Text} : hasWord word text = true ↔ word <:+: text := by
  induction text with
  | nil => rw [hasWord, List.isEmpty_iff, List.infix_nil]
  | cons letter rest ih =>
      rw [hasWord, Bool.or_eq_true, List.isPrefixOf_iff_prefix, ih, List.infix_cons_iff]

/-! ## Words in a text of two sides -/

section

variable {Letter : Type} {word front back : List Letter} {separator : Letter}

/-- A word without any character of the front lies behind it. -/
theorem infix_of_infix_append (nonempty : word ≠ [])
    (apart : forall letter, letter ∈ word -> letter ∉ front) (inside : word <:+: front ++ back) :
    word <:+: back := by
  induction front with
  | nil => exact inside
  | cons letter front ih =>
      have fewer : forall other, other ∈ word -> other ∉ front :=
        fun other member among => apart other member (List.mem_cons_of_mem _ among)
      rcases List.infix_cons_iff.mp inside with first | later
      · cases word with
        | nil => exact absurd rfl nonempty
        | cons head rest =>
            have same := (List.cons_prefix_cons.mp first).1
            exact absurd (same ▸ List.mem_cons_self) (apart head List.mem_cons_self)
      · exact ih fewer later

theorem prefix_of_prefix_append (free : separator ∉ word)
    (first : word <+: front ++ separator :: back) : word <+: front := by
  induction front generalizing word with
  | nil =>
      cases word with
      | nil => exact List.nil_prefix
      | cons letter rest =>
          have same := (List.cons_prefix_cons.mp first).1
          exact absurd (same ▸ List.mem_cons_self) free
  | cons head front ih =>
      cases word with
      | nil => exact List.nil_prefix
      | cons letter rest =>
          obtain ⟨same, further⟩ := List.cons_prefix_cons.mp first
          have restFree : separator ∉ rest := fun member => free (List.mem_cons_of_mem _ member)
          exact List.cons_prefix_cons.mpr ⟨same, ih restFree further⟩

/-- A word without the separator lies on one side of it. -/
theorem infix_or_infix (free : separator ∉ word) (inside : word <:+: front ++ separator :: back) :
    word <:+: front ∨ word <:+: back := by
  induction front with
  | nil =>
      rcases List.infix_cons_iff.mp inside with first | later
      · exact Or.inl (prefix_of_prefix_append free first).isInfix
      · exact Or.inr later
  | cons letter front ih =>
      rcases List.infix_cons_iff.mp inside with first | later
      · exact Or.inl (prefix_of_prefix_append free first).isInfix
      · exact (ih later).imp_left fun among => List.infix_cons_iff.mpr (Or.inr among)

/-- A word without the separator lies in one of the pieces. -/
theorem exists_infix_of_joinWith {pieces : List (List Letter)} (free : separator ∉ word)
    (nonempty : word ≠ []) (inside : word <:+: joinWith separator pieces) :
    exists piece, piece ∈ pieces ∧ word <:+: piece := by
  induction pieces with
  | nil => exact absurd (List.infix_nil.mp inside) nonempty
  | cons piece pieces ih =>
      by_cases last : pieces = []
      · subst pieces
        exact ⟨piece, List.mem_cons_self, inside⟩
      · rw [joinWith_cons piece last] at inside
        rcases infix_or_infix free inside with here | later
        · exact ⟨piece, List.mem_cons_self, here⟩
        · obtain ⟨other, member, among⟩ := ih later
          exact ⟨other, List.mem_cons_of_mem _ member, among⟩

variable [DecidableEq Letter]

/-- A piece between separators stands in the text. -/
theorem infix_of_mem_fields {text piece : List Letter} (member : piece ∈ fields separator text) :
    piece <:+: text := by
  obtain ⟨before, after, pieces⟩ := List.append_of_mem member
  rw [← joinWith_fields separator text, pieces]
  clear pieces member
  induction before with
  | nil =>
      cases after with
      | nil => exact List.infix_rfl
      | cons next after =>
          rw [List.nil_append, joinWith_cons piece (List.cons_ne_nil _ _)]
          exact (List.prefix_append _ _).isInfix
  | cons first before ih =>
      rw [List.cons_append, joinWith_cons first (List.append_ne_nil_of_right_ne_nil _
        (List.cons_ne_nil _ _))]
      exact ih.trans ((List.suffix_cons _ _).trans (List.suffix_append _ _)).isInfix

/-- Between two separators in a row stands an empty piece. -/
theorem nil_mem_fields {text : List Letter} (double : [separator, separator] <:+: text) :
    [] ∈ fields separator text := by
  obtain ⟨front, back, rfl⟩ := double
  rw [List.append_assoc, List.cons_append, fields_append_separator]
  apply List.mem_append_right
  rw [List.singleton_append, fields, if_pos rfl]
  exact List.mem_cons_self

end

/-! ## Words in a row -/

/-- A word of certain letters, or several with one of the joints between any two. -/
inductive IsRow (isLetter : Char -> Bool) (joints : List Text) : Text -> Prop where
  | word {word : Text} (nonempty : word ≠ []) (letters : word.all isLetter = true) :
      IsRow isLetter joints word
  | joined {word joint others : Text} (nonempty : word ≠ []) (letters : word.all isLetter = true)
      (isJoint : joint ∈ joints) (row : IsRow isLetter joints others) :
      IsRow isLetter joints (word ++ joint ++ others)

namespace IsRow

variable {isLetter : Char -> Bool} {joints : List Text} {text : Text} {letter : Char}

theorem single (good : isLetter letter = true) : IsRow isLetter joints [letter] :=
  .word (List.cons_ne_nil _ _) (by simp [good])

/-- One more letter belongs to the first word. -/
theorem cons (good : isLetter letter = true) (row : IsRow isLetter joints text) :
    IsRow isLetter joints (letter :: text) := by
  cases row with
  | word nonempty letters =>
      exact .word (List.cons_ne_nil _ _) (by rw [List.all_cons, good, letters]; rfl)
  | joined nonempty letters isJoint row =>
      rw [← List.cons_append, ← List.cons_append]
      exact .joined (List.cons_ne_nil _ _) (by rw [List.all_cons, good, letters]; rfl) isJoint row

/-- A letter in front of a joint is a word. -/
theorem cons_joint (good : isLetter letter = true) {joint : Text} (isJoint : joint ∈ joints)
    (row : IsRow isLetter joints text) : IsRow isLetter joints (letter :: (joint ++ text)) :=
  @joined _ _ [letter] joint text (List.cons_ne_nil _ _) (by simp [good]) isJoint row

/-- A row begins with a letter. -/
theorem exists_cons (row : IsRow isLetter joints text) :
    exists first rest, text = first :: rest ∧ isLetter first = true := by
  have head : forall {word : Text} (rest : Text), word ≠ [] -> word.all isLetter = true ->
      exists first others, word ++ rest = first :: others ∧ isLetter first = true := by
    intro word rest nonempty letters
    cases word with
    | nil => exact absurd rfl nonempty
    | cons first others =>
        exact ⟨first, others ++ rest, rfl, (Bool.and_eq_true_iff.mp letters).1⟩
  cases row with
  | word nonempty letters => simpa using head [] nonempty letters
  | joined nonempty letters isJoint row => simpa using head _ nonempty letters

/-- A row ends with a letter. -/
theorem exists_concat (row : IsRow isLetter joints text) :
    exists front last, text = front ++ [last] ∧ isLetter last = true := by
  induction row with
  | word nonempty letters =>
      obtain ⟨front, last, rfl⟩ := Text.exists_concat nonempty
      exact ⟨front, last, rfl, List.all_eq_true.mp letters last List.mem_concat_self⟩
  | joined nonempty letters isJoint row ih =>
      obtain ⟨front, last, rfl, good⟩ := ih
      exact ⟨_, last, (List.append_assoc _ _ _).symm, good⟩

/-- A row has the characters of its words and joints only. -/
theorem all (row : IsRow isLetter joints text) {test : Char -> Bool}
    (onLetters : forall letter, isLetter letter = true -> test letter = true)
    (onJoints : forall joint, joint ∈ joints -> joint.all test = true) : text.all test = true := by
  have onWords : forall word : Text, word.all isLetter = true -> word.all test = true :=
    fun word letters => List.all_eq_true.mpr fun letter member =>
      onLetters letter (List.all_eq_true.mp letters letter member)
  induction row with
  | word nonempty letters => exact onWords _ letters
  | joined nonempty letters isJoint row ih =>
      rw [List.all_append, List.all_append, onWords _ letters, onJoints _ isJoint, ih]
      rfl

/-- What has no letters in it and stands in a row stands in one of the joints. -/
theorem infix_joint (row : IsRow isLetter joints text) {run : Text} (nonempty : run ≠ [])
    (unlettered : forall letter, letter ∈ run -> isLetter letter = false) (inside : run <:+: text) :
    exists joint, joint ∈ joints ∧ run <:+: joint := by
  have apart : forall {word : Text}, word.all isLetter = true ->
      forall letter, letter ∈ run -> letter ∉ word := by
    intro word letters letter member among
    have good := List.all_eq_true.mp letters letter among
    rw [unlettered letter member] at good
    cases good
  induction row with
  | @word word _ letters =>
      rw [← List.append_nil word] at inside
      have behind := infix_of_infix_append nonempty (apart letters) inside
      exact absurd (List.infix_nil.mp behind) nonempty
  | @joined word joint others _ letters isJoint row ih =>
      rw [List.append_assoc] at inside
      have behind := infix_of_infix_append nonempty (apart letters) inside
      obtain ⟨first, rest, rfl, good⟩ := row.exists_cons
      have free : first ∉ run := by
        intro member
        rw [unlettered first member] at good
        cases good
      rcases infix_or_infix free behind with here | later
      · exact ⟨joint, isJoint, here⟩
      · exact ih (List.infix_cons_iff.mpr (Or.inr later))

end IsRow

end Text
end BuildInputs

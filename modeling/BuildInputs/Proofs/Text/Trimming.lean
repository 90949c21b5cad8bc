import BuildInputs.Text.WhiteSpace

namespace BuildInputs
namespace Text

/-!
# Taking white space off the ends

A trimmed text is what stands between the white space at the two ends of a text, and has none at
its own.  There is only one such text, so trimming is described by `IsTrimmed` and by the two ends
that may be put back.
-/

/-- A text with no white space at its ends. -/
structure IsTrimmed (text : Text) : Prop where
  first : forall letter, text.head? = some letter -> isWhiteSpace letter = false
  last : forall letter, text.getLast? = some letter -> isWhiteSpace letter = false

section

variable {test : Char -> Bool} {front back text : Text}

/-- Dropping stops at the first character that is to stay. -/
theorem dropWhile_append (all : front.all test = true)
    (stops : forall letter, back.head? = some letter -> test letter = false) :
    (front ++ back).dropWhile test = back := by
  rw [List.dropWhile_append_of_pos (List.all_eq_true.mp all)]
  cases back with
  | nil => rfl
  | cons letter rest => rw [List.dropWhile_cons_of_neg (Bool.eq_false_iff.mp (stops letter rfl))]

theorem dropWhile_of_all (all : text.all test = true) : text.dropWhile test = [] := by
  have stops : forall letter, ([] : Text).head? = some letter -> test letter = false := nofun
  have whole := dropWhile_append all stops
  rwa [List.append_nil] at whole

theorem refused_of_head?_dropWhile {letter : Char}
    (begins : (text.dropWhile test).head? = some letter) : test letter = false := by
  have stops := List.head?_dropWhile_not test text
  rw [begins] at stops
  simpa using stops

end

/-- What stands in front of the trimmed text and behind it. -/
theorem exists_trim (text : Text) :
    exists after, text.dropWhile isWhiteSpace = trim text ++ after ∧
      text = text.takeWhile isWhiteSpace ++ trim text ++ after ∧
      after.all isWhiteSpace = true := by
  have behind : text.dropWhile isWhiteSpace =
      trim text ++ ((text.dropWhile isWhiteSpace).reverse.takeWhile isWhiteSpace).reverse := by
    rw [trim, ← List.reverse_append, List.takeWhile_append_dropWhile, List.reverse_reverse]
  refine ⟨_, behind, ?_, ?_⟩
  · rw [List.append_assoc, ← behind, List.takeWhile_append_dropWhile]
  · rw [List.all_reverse]
    exact List.all_takeWhile

theorem isTrimmed_trim (text : Text) : IsTrimmed (trim text) where
  first := by
    intro letter begins
    obtain ⟨after, behind, -, -⟩ := exists_trim text
    have head : (text.dropWhile isWhiteSpace).head? = some letter := by
      rw [behind, List.head?_append, begins]
      rfl
    exact refused_of_head?_dropWhile head
  last := by
    intro letter ends
    rw [trim, List.getLast?_reverse] at ends
    exact refused_of_head?_dropWhile ends

/-- A text that trimming leaves as it is. -/
theorem isTrimmed_of_trim {text : Text} (same : trim text = text) : IsTrimmed text :=
  same ▸ isTrimmed_trim text

theorem trim_append {before core after : Text} (trimmed : IsTrimmed core)
    (blankBefore : before.all isWhiteSpace = true) (blankAfter : after.all isWhiteSpace = true) :
    trim (before ++ core ++ after) = core := by
  cases core with
  | nil =>
      have blank : (before ++ [] ++ after).all isWhiteSpace = true := by
        rw [List.append_nil, List.all_append, blankBefore, blankAfter]
        rfl
      rw [trim, dropWhile_of_all blank]
      rfl
  | cons first rest =>
      have begins : forall letter, (first :: rest ++ after).head? = some letter ->
          isWhiteSpace letter = false :=
        fun letter head => trimmed.first letter head
      have ends : forall letter, (first :: rest).reverse.head? = some letter ->
          isWhiteSpace letter = false := by
        intro letter head
        rw [List.head?_reverse] at head
        exact trimmed.last letter head
      have reversed : after.reverse.all isWhiteSpace = true := by
        rw [List.all_reverse]
        exact blankAfter
      rw [trim, List.append_assoc, dropWhile_append blankBefore begins, List.reverse_append,
        dropWhile_append reversed ends, List.reverse_reverse]

/-- A text is trimmed in exactly one way. -/
theorem trim_eq_iff {text core : Text} :
    trim text = core ↔ IsTrimmed core ∧ exists before after, text = before ++ core ++ after ∧
      before.all isWhiteSpace = true ∧ after.all isWhiteSpace = true := by
  constructor
  · rintro rfl
    obtain ⟨after, -, whole, blank⟩ := exists_trim text
    exact ⟨isTrimmed_trim text, _, after, whole, List.all_takeWhile, blank⟩
  · rintro ⟨trimmed, before, after, rfl, blankBefore, blankAfter⟩
    exact trim_append trimmed blankBefore blankAfter

/-- Trimming only takes away. -/
theorem mem_of_mem_trim {text : Text} {letter : Char} (member : letter ∈ trim text) :
    letter ∈ text := by
  obtain ⟨after, -, whole, -⟩ := exists_trim text
  rw [whole]
  exact List.mem_append_left _ (List.mem_append_right _ member)

theorem trim_eq_nil_iff {text : Text} : trim text = [] ↔ text.all isWhiteSpace = true := by
  rw [trim_eq_iff]
  constructor
  · rintro ⟨-, before, after, rfl, blankBefore, blankAfter⟩
    rw [List.append_nil, List.all_append, blankBefore, blankAfter]
    rfl
  · intro blank
    exact ⟨⟨nofun, nofun⟩, text, [], by simp, blank, rfl⟩

end Text
end BuildInputs

import BuildInputs.Glob.Search

namespace BuildInputs
namespace Glob

/-!
# Patterns that mean themselves

A text without `?`, `*` and `[` is read as a pattern character by character, and each character
stands for itself.  With a star in front it stands for the names that end in it.
-/

/-- A character that means something else in a pattern.  A closing bracket does only behind an
opening one. -/
def isSpecial (letter : Char) : Bool :=
  letter = '?' || letter = '*' || letter = '['

/-- The elements that stand for a text and nothing else. -/
def literally (text : Text) : ComponentPattern :=
  text.map .literal

/-- The elements for a star and an ending. -/
def endingIn (ending : Text) : ComponentPattern :=
  .anySequence :: literally ending

/-! ## Reading -/

section

variable {previous : Option Char} {position steps : Nat} {text rest ending : Text}

theorem readTokens_literal {first : Char} (plain : isSpecial first = false) :
    readTokens previous position (steps + 1) (first :: rest) =
      (readTokens (some first) (position + 1) steps rest).map (.literal first :: ·) := by
  simp only [isSpecial, Bool.or_eq_false_iff, decide_eq_false_iff_not] at plain
  have read : readToken previous position first rest = .ok (.literal first, rest) := by
    unfold readToken
    rw [if_neg plain.1.1, if_neg plain.1.2, if_neg plain.2]
  have taken : (first :: rest).take (rest.length + 1 - rest.length) = [first] := by
    rw [Nat.add_sub_cancel_left, List.take_succ_cons, List.take_zero]
  rw [readTokens, read, Except.bind]
  simp only [taken]
  rfl

/-- Characters that mean themselves are read one by one. -/
theorem readTokens_append (plain : text.any isSpecial = false) :
    exists before place, readTokens previous position (text.length + steps) (text ++ rest) =
      (readTokens before place steps rest).map (literally text ++ ·) := by
  induction text generalizing previous position with
  | nil =>
      refine ⟨previous, position, ?_⟩
      rw [List.length_nil, Nat.zero_add, List.nil_append]
      cases readTokens previous position steps rest <;> rfl
  | cons first text ih =>
      obtain ⟨firstPlain, others⟩ := Bool.or_eq_false_iff.mp plain
      obtain ⟨before, place, read⟩ := @ih (some first) (position + 1) others
      refine ⟨before, place, ?_⟩
      rw [List.length_cons, Nat.add_right_comm, List.cons_append, readTokens_literal firstPlain,
        read]
      cases readTokens before place steps rest <;> rfl

theorem readTokens_plain (plain : text.any isSpecial = false) :
    readTokens previous position text.length text = .ok (literally text) := by
  obtain ⟨before, place, read⟩ := @readTokens_append previous position 0 text [] plain
  rw [List.append_nil, Nat.add_zero] at read
  rw [read, readTokens, Except.map, List.append_nil]

theorem readTokens_star (plain : ending.any isSpecial = false) :
    readTokens previous position (ending.length + 1) ('*' :: ending) = .ok (endingIn ending) := by
  have read : readToken previous position '*' ending = .ok (.anySequence, ending) := by
    cases ending with
    | nil => rfl
    | cons first others =>
        have notStar : first ≠ '*' := by
          rintro rfl
          cases plain
        unfold readToken
        rw [if_neg (by decide), if_pos rfl]
        split
        · next same => exact absurd (List.cons.inj same).1 notStar
        · next same => exact absurd (List.cons.inj same).1 notStar
        · rfl
  rw [readTokens, read, Except.bind]
  simp only
  rw [readTokens_plain plain]
  rfl

theorem parse_plain (plain : text.any isSpecial = false) : parse text = .ok (literally text) :=
  readTokens_plain plain

theorem parse_star (plain : ending.any isSpecial = false) :
    parse ('*' :: ending) = .ok (endingIn ending) :=
  readTokens_star plain

theorem parse_append_star (plain : text.any isSpecial = false)
    (endingPlain : ending.any isSpecial = false) :
    exists tokens, parse (text ++ '*' :: ending) = .ok tokens := by
  obtain ⟨before, place, read⟩ :=
    @readTokens_append none 0 (ending.length + 1) text ('*' :: ending) plain
  refine ⟨literally text ++ endingIn ending, ?_⟩
  rw [parse, List.length_append, List.length_cons, read, readTokens_star endingPlain, Except.map]

/-- Components that mean themselves are read as such. -/
theorem readComponents_star {pieces : List Text}
    (plain : forall piece, piece ∈ pieces -> piece.any isSpecial = false)
    (endingPlain : ending.any isSpecial = false) :
    readComponents (pieces ++ ['*' :: ending]) =
      .ok (pieces.map literally ++ [endingIn ending]) := by
  induction pieces with
  | nil =>
      rw [List.nil_append, readComponents, parse_star endingPlain]
      rfl
  | cons piece pieces ih =>
      rw [List.forall_mem_cons] at plain
      rw [List.cons_append, readComponents, parse_plain plain.1, Except.bind, ih plain.2]
      rfl

end

/-! ## Matching -/

theorem literalText?_literally (text : Text) : literalText? (literally text) = some text := by
  induction text with
  | nil => rfl
  | cons letter text ih =>
      rw [literally, List.map_cons, literalText?, ← literally, ih]
      rfl

theorem isMatch_literal (letter first : Char) (tokens : ComponentPattern) (name : Text) :
    isMatch (.literal letter :: tokens) (first :: name) =
      (decide (first = letter) && isMatch tokens name) :=
  rfl

theorem isMatch_literally {text name : Text} :
    isMatch (literally text) name = true ↔ name = text := by
  induction text generalizing name with
  | nil => exact List.isEmpty_iff
  | cons letter text ih =>
      cases name with
      | nil => exact iff_of_false Bool.false_ne_true nofun
      | cons first name =>
          rw [literally, List.map_cons, isMatch_literal, Bool.and_eq_true, ← literally, ih,
            List.cons.injEq, decide_eq_true_iff]

theorem anyEnd_iff {test : Text -> Bool} {name : Text} :
    anyEnd test name = true ↔ exists back, back <:+ name ∧ test back = true := by
  induction name with
  | nil => simp [anyEnd]
  | cons letter rest ih =>
      rw [anyEnd, Bool.or_eq_true, ih]
      constructor
      · rintro (whole | ⟨back, behind, passes⟩)
        · exact ⟨_, List.suffix_rfl, whole⟩
        · exact ⟨back, behind.trans (List.suffix_cons _ _), passes⟩
      · rintro ⟨back, behind, passes⟩
        rcases List.suffix_cons_iff.mp behind with rfl | behind
        · exact .inl passes
        · exact .inr ⟨back, behind, passes⟩

/-- A star and an ending match the names with that ending. -/
theorem isMatch_endingIn {ending name : Text} :
    isMatch (endingIn ending) name = ending.isSuffixOf name := by
  rw [Bool.eq_iff_iff, endingIn, isMatch, anyEnd_iff, List.isSuffixOf_iff_suffix]
  constructor
  · rintro ⟨back, behind, same⟩
    exact isMatch_literally.mp same ▸ behind
  · intro behind
    exact ⟨ending, behind, isMatch_literally.mpr rfl⟩

end Glob
end BuildInputs

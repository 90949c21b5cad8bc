import BuildInputs.Proofs.Text.Fields

namespace BuildInputs
namespace Text

/-!
# Cutting once

A text that is cut at the first or at the last occurrence of a mark is put together again from
the two sides, and one of the sides is free of the mark.  Conversely, any two such sides are
found again.

An end that begins with a mark can be taken off when it is good, whatever that means in a given
place.  `dropMarked` does so, and `marked` writes such an end or none.  Writing an end and taking
it off again gives the text before it, but only if there was an end to write: a text without one
may already end in something good.
-/

theorem not_mem_of_all {Letter : Type} {test : Letter -> Bool} {text : List Letter}
    {letter : Letter} (all : text.all test = true) (refused : test letter = false) :
    letter ∉ text := by
  intro member
  have accepted := List.all_eq_true.mp all letter member
  rw [refused] at accepted
  cases accepted

/-! ## The first and the last occurrence -/

section Occurrences

variable {Letter : Type} {mark : Letter}

theorem exists_last_of_mem {text : List Letter} (member : mark ∈ text) :
    exists front back, text = front ++ mark :: back ∧ mark ∉ back := by
  obtain ⟨back, front, reversed, free⟩ :=
    List.eq_append_cons_of_mem (List.mem_reverse.mpr member)
  refine ⟨front.reverse, back.reverse, ?_, fun inside => free (List.mem_reverse.mp inside)⟩
  have turned := congrArg List.reverse reversed
  rw [List.reverse_reverse, List.reverse_append, List.reverse_cons, List.append_assoc] at turned
  exact turned

variable [DecidableEq Letter]

theorem cutFirst_of_free {text : List Letter} (free : mark ∉ text) : cutFirst mark text = none := by
  induction text with
  | nil => rfl
  | cons letter rest ih =>
      have different : letter ≠ mark := fun same => free (same ▸ List.mem_cons_self)
      have restFree : mark ∉ rest := fun member => free (List.mem_cons_of_mem _ member)
      rw [cutFirst, if_neg different, ih restFree]
      rfl

theorem cutFirst_append {front : List Letter} (free : mark ∉ front) (back : List Letter) :
    cutFirst mark (front ++ mark :: back) = some (front, back) := by
  induction front with
  | nil => rw [List.nil_append, cutFirst, if_pos rfl]
  | cons letter front ih =>
      have different : letter ≠ mark := fun same => free (same ▸ List.mem_cons_self)
      have frontFree : mark ∉ front := fun member => free (List.mem_cons_of_mem _ member)
      rw [List.cons_append, cutFirst, if_neg different, ih frontFree]
      rfl

theorem cutFirst_eq_some_iff {text front back : List Letter} :
    cutFirst mark text = some (front, back) ↔ text = front ++ mark :: back ∧ mark ∉ front := by
  constructor
  · intro cut
    by_cases member : mark ∈ text
    · obtain ⟨first, rest, rfl, free⟩ := List.eq_append_cons_of_mem member
      rw [cutFirst_append free] at cut
      cases cut
      exact ⟨rfl, free⟩
    · rw [cutFirst_of_free member] at cut
      cases cut
  · rintro ⟨rfl, free⟩
    exact cutFirst_append free back

theorem cutFirst_eq_none_iff {text : List Letter} : cutFirst mark text = none ↔ mark ∉ text := by
  refine ⟨fun uncut member => ?_, cutFirst_of_free⟩
  obtain ⟨front, back, rfl, free⟩ := List.eq_append_cons_of_mem member
  rw [cutFirst_append free] at uncut
  cases uncut

theorem cutLast_of_free {text : List Letter} (free : mark ∉ text) : cutLast mark text = none := by
  induction text with
  | nil => rfl
  | cons letter rest ih =>
      have different : letter ≠ mark := fun same => free (same ▸ List.mem_cons_self)
      have restFree : mark ∉ rest := fun member => free (List.mem_cons_of_mem _ member)
      rw [cutLast, ih restFree]
      exact if_neg different

theorem cutLast_append (front : List Letter) {back : List Letter} (free : mark ∉ back) :
    cutLast mark (front ++ mark :: back) = some (front, back) := by
  induction front with
  | nil =>
      rw [List.nil_append, cutLast, cutLast_of_free free]
      exact if_pos rfl
  | cons letter front ih => rw [List.cons_append, cutLast, ih]

theorem cutLast_eq_some_iff {text front back : List Letter} :
    cutLast mark text = some (front, back) ↔ text = front ++ mark :: back ∧ mark ∉ back := by
  constructor
  · intro cut
    by_cases member : mark ∈ text
    · obtain ⟨first, rest, rfl, free⟩ := exists_last_of_mem member
      rw [cutLast_append first free] at cut
      cases cut
      exact ⟨rfl, free⟩
    · rw [cutLast_of_free member] at cut
      cases cut
  · rintro ⟨rfl, free⟩
    exact cutLast_append front free

/-- Induction along the cuts at the last mark: a text without the mark, or a shorter text with one
more piece at its end. -/
@[elab_as_elim] theorem lastCutInduction (mark : Letter) {motive : List Letter -> Prop}
    (uncut : forall text, mark ∉ text -> motive text)
    (cut : forall front back, mark ∉ back -> motive front -> motive (front ++ mark :: back))
    (text : List Letter) : motive text := by
  by_cases member : mark ∈ text
  · obtain ⟨front, back, same, free⟩ := exists_last_of_mem member
    have shorter : front.length < text.length := by
      rw [same, List.length_append, List.length_cons]
      omega
    rw [same]
    exact cut front back free (lastCutInduction mark uncut cut front)
  · exact uncut text member
termination_by text.length

end Occurrences

/-! ## Ends that begin with a mark -/

variable {mark : Char}

/-- An optional piece with its mark in front. -/
def marked (mark : Char) : Option Text -> Text
  | none => []
  | some piece => mark :: piece

/-- What is left of a text when a good piece at its end is taken off together with its mark. -/
def dropMarked (mark : Char) (good : Text -> Bool) (text : Text) : Text :=
  match cutLast mark text with
  | some (front, piece) => if good piece then front else text
  | none => text

variable {good : Text -> Bool}

theorem marked_injective : Function.Injective (marked mark) := by
  intro first second same
  cases first with
  | none => cases second with
    | none => rfl
    | some piece => cases same
  | some piece => cases second with
    | none => cases same
    | some other => exact congrArg some (List.cons.inj same).2

theorem not_mem_marked {letter : Char} {piece : Option Text} (different : letter ≠ mark)
    (free : forall text, piece = some text -> letter ∉ text) : letter ∉ marked mark piece := by
  cases piece with
  | none => exact List.not_mem_nil
  | some text =>
      intro member
      rcases List.mem_cons.mp member with same | inside
      · exact different same
      · exact free text rfl inside

/-- The mark of the optional end is the only one, so that the first one is where the end
begins. -/
theorem cutFirst_append_marked {front : Text} (free : mark ∉ front) (piece : Option Text) :
    cutFirst mark (front ++ marked mark piece) = piece.map fun text => (front, text) := by
  cases piece with
  | none => rw [marked, List.append_nil, cutFirst_of_free free]; rfl
  | some text => exact cutFirst_append free text

theorem dropMarked_append (front : Text) {piece : Text} (free : mark ∉ piece)
    (isGood : good piece = true) : dropMarked mark good (front ++ mark :: piece) = front := by
  simp only [dropMarked, cutLast_append front free, isGood, if_true]

/-- Nothing is taken off a text whose last piece is not good. -/
theorem dropMarked_of_last {text : Text}
    (notGood : forall front piece, text = front ++ mark :: piece -> mark ∉ piece ->
      good piece = false) : dropMarked mark good text = text := by
  unfold dropMarked
  cases cut : cutLast mark text with
  | none => rfl
  | some sides =>
      have parts := cutLast_eq_some_iff.mp cut
      simp only [notGood sides.1 sides.2 parts.1 parts.2, Bool.false_eq_true, if_false]

theorem dropMarked_of_free {text : Text} (free : mark ∉ text) : dropMarked mark good text = text :=
  dropMarked_of_last fun front _ same _ =>
    absurd (same ▸ List.mem_append_right front List.mem_cons_self) free

/-- What was taken off is a good piece with its mark, or nothing. -/
theorem exists_dropMarked (mark : Char) (good : Text -> Bool) (text : Text) :
    exists piece, piece.all good = true ∧ text = dropMarked mark good text ++ marked mark piece := by
  unfold dropMarked
  cases cut : cutLast mark text with
  | none => exact ⟨none, rfl, (List.append_nil text).symm⟩
  | some sides =>
      by_cases isGood : good sides.2 = true
      · refine ⟨some sides.2, isGood, ?_⟩
        simp only [isGood, if_true]
        exact (cutLast_eq_some_iff.mp cut).1
      · refine ⟨none, rfl, ?_⟩
        simp only [isGood, Bool.false_eq_true, if_false]
        exact (List.append_nil text).symm

/-- What is left of a text is found by taking off a good piece with its mark, and nothing only if
the text does not end in one. -/
theorem dropMarked_eq_iff (free : forall piece, good piece = true -> mark ∉ piece)
    {text front : Text} :
    dropMarked mark good text = front ↔
      exists piece : Option Text, piece.all good = true ∧ text = front ++ marked mark piece ∧
        (piece = none -> forall rest last, good last = true -> text ≠ rest ++ mark :: last) := by
  constructor
  · rintro rfl
    obtain ⟨piece, isGood, whole⟩ := exists_dropMarked mark good text
    refine ⟨piece, isGood, whole, ?_⟩
    rintro rfl rest last isLast rfl
    rw [dropMarked_append rest (free last isLast) isLast, marked, List.append_nil] at whole
    have length := congrArg List.length whole
    rw [List.length_append, List.length_cons] at length
    omega
  · rintro ⟨piece, isGood, rfl, none_left⟩
    cases piece with
    | some piece => exact dropMarked_append front (free piece isGood) isGood
    | none =>
        rw [marked, List.append_nil] at none_left ⊢
        refine dropMarked_of_last fun rest last whole _ => ?_
        exact Bool.eq_false_iff.mpr fun isLast => none_left rfl rest last isLast whole

end Text
end BuildInputs

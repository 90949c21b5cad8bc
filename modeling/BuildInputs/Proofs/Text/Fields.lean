import BuildInputs.Text.Basic

namespace BuildInputs
namespace Text

/-!
# Cutting and joining

Cutting a text at a separator and joining the pieces again are inverse to one another, as long
as the separator occurs in no piece.  Neither operation looks at anything else, so the rules for
paths, and for everything else that is read between separators, rest on the laws here.
-/

variable {Letter : Type} {separator : Letter}

/-- A list that is not empty has a last entry. -/
theorem exists_concat {α : Type} {entries : List α} (nonempty : entries ≠ []) :
    exists front last, entries = front ++ [last] :=
  ⟨_, _, (List.dropLast_concat_getLast nonempty).symm⟩

theorem exists_addToFirst (letter : Letter) (pieces : List (List Letter)) :
    exists first others, addToFirst letter pieces = (letter :: first) :: others := by
  cases pieces with
  | nil => exact ⟨[], [], rfl⟩
  | cons piece pieces => exact ⟨piece, pieces, rfl⟩

theorem joinWith_cons (piece : List Letter) {pieces : List (List Letter)} (nonempty : pieces ≠ []) :
    joinWith separator (piece :: pieces) = piece ++ separator :: joinWith separator pieces := by
  cases pieces with
  | nil => exact absurd rfl nonempty
  | cons next pieces => rfl

/-- One more piece at the end of a list that has some. -/
theorem joinWith_append_singleton {pieces : List (List Letter)} (nonempty : pieces ≠ [])
    (piece : List Letter) :
    joinWith separator (pieces ++ [piece]) = joinWith separator pieces ++ separator :: piece := by
  induction pieces with
  | nil => exact absurd rfl nonempty
  | cons head others ih =>
      cases others with
      | nil => rfl
      | cons next others =>
          have step := ih (List.cons_ne_nil _ _)
          simp only [List.cons_append] at step ⊢
          simp only [joinWith, step, List.append_assoc, List.cons_append]

/-- Joining adds separators and nothing else. -/
theorem mem_of_mem_joinWith {pieces : List (List Letter)} {letter : Letter}
    (member : letter ∈ joinWith separator pieces) :
    letter = separator ∨ exists piece, piece ∈ pieces ∧ letter ∈ piece := by
  induction pieces with
  | nil => cases member
  | cons piece others ih =>
      by_cases last : others = []
      · subst others
        exact Or.inr ⟨piece, List.mem_cons_self, member⟩
      · rw [joinWith_cons piece last] at member
        rcases List.mem_append.mp member with inside | member
        · exact Or.inr ⟨piece, List.mem_cons_self, inside⟩
        · rcases List.mem_cons.mp member with same | member
          · exact Or.inl same
          · rcases ih member with same | ⟨other, among, inside⟩
            · exact Or.inl same
            · exact Or.inr ⟨other, List.mem_cons_of_mem _ among, inside⟩

/-- Every other character is one of a piece. -/
theorem mem_joinWith_iff {pieces : List (List Letter)} {letter : Letter}
    (different : letter ≠ separator) :
    letter ∈ joinWith separator pieces ↔ exists piece, piece ∈ pieces ∧ letter ∈ piece := by
  induction pieces with
  | nil => simp [joinWith]
  | cons piece others ih =>
      by_cases last : others = []
      · subst others
        simp [joinWith]
      · rw [joinWith_cons piece last, List.mem_append, List.mem_cons, ih]
        simp [different]

/-- What spells texts in other letters, and the separator by one of them, spells the pieces. -/
theorem joinWith_spelled {Other : Type} {mark : Other} {spell : List Letter -> List Other}
    (append : forall front rest, spell (front ++ separator :: rest) =
      spell front ++ mark :: spell rest) {pieces : List (List Letter)} (nonempty : pieces ≠ []) :
    spell (joinWith separator pieces) = joinWith mark (pieces.map spell) := by
  induction pieces with
  | nil => exact absurd rfl nonempty
  | cons piece others ih =>
      by_cases last : others = []
      · subst others
        rfl
      · rw [joinWith_cons piece last, append, ih last, List.map_cons,
          joinWith_cons _ fun none => last (List.map_eq_nil_iff.mp none)]

variable [DecidableEq Letter]

theorem fields_ne_nil (text : List Letter) : fields separator text ≠ [] := by
  cases text with
  | nil => exact List.cons_ne_nil _ _
  | cons letter rest =>
      rw [fields]
      split
      · exact List.cons_ne_nil _ _
      · cases fields separator rest with
        | nil => exact List.cons_ne_nil _ _
        | cons head others => exact List.cons_ne_nil _ _

theorem length_fields_pos (separator : Letter) (text : List Letter) :
    0 < (fields separator text).length :=
  List.length_pos_iff.mpr (fields_ne_nil text)

theorem fields_of_free {piece : List Letter} (free : separator ∉ piece) :
    fields separator piece = [piece] := by
  induction piece with
  | nil => rfl
  | cons letter rest ih =>
      have different : letter ≠ separator := fun same => free (same ▸ List.mem_cons_self)
      have restFree : separator ∉ rest := fun member => free (List.mem_cons_of_mem _ member)
      rw [fields, if_neg different, ih restFree]
      rfl

/-- The first separator ends the first piece. -/
theorem fields_append {piece : List Letter} (free : separator ∉ piece) (rest : List Letter) :
    fields separator (piece ++ separator :: rest) = piece :: fields separator rest := by
  induction piece with
  | nil => rw [List.nil_append, fields, if_pos rfl]
  | cons letter piece ih =>
      have different : letter ≠ separator := fun same => free (same ▸ List.mem_cons_self)
      have pieceFree : separator ∉ piece := fun member => free (List.mem_cons_of_mem _ member)
      rw [List.cons_append, fields, if_neg different, ih pieceFree]
      rfl

/-- Cutting on either side of a separator cuts the whole. -/
theorem fields_append_separator (front rest : List Letter) :
    fields separator (front ++ separator :: rest) =
      fields separator front ++ fields separator rest := by
  induction front with
  | nil => simp only [List.nil_append, fields, if_true, List.singleton_append]
  | cons letter front ih =>
      rw [List.cons_append, fields, fields, ih]
      split
      · rfl
      · cases pieces : fields separator front with
        | nil => exact absurd pieces (fields_ne_nil front)
        | cons piece others => rfl

theorem fields_joinWith {pieces : List (List Letter)} (nonempty : pieces ≠ [])
    (free : forall piece, piece ∈ pieces -> separator ∉ piece) :
    fields separator (joinWith separator pieces) = pieces := by
  induction pieces with
  | nil => exact absurd rfl nonempty
  | cons piece others ih =>
      have pieceFree := free piece List.mem_cons_self
      cases others with
      | nil => exact fields_of_free pieceFree
      | cons next others =>
          have othersFree : forall other, other ∈ next :: others -> separator ∉ other :=
            fun other member => free other (List.mem_cons_of_mem _ member)
          rw [joinWith, fields_append pieceFree, ih (List.cons_ne_nil _ _) othersFree]
          intro impossible
          cases impossible

/-- The separator stands between pieces and in none of them. -/
theorem not_mem_of_mem_fields {text piece : List Letter} (member : piece ∈ fields separator text) :
    separator ∉ piece := by
  induction text generalizing piece with
  | nil =>
      rw [fields, List.mem_singleton] at member
      rw [member]
      exact List.not_mem_nil
  | cons letter rest ih =>
      rw [fields] at member
      by_cases same : letter = separator
      · rw [if_pos same] at member
        rcases List.mem_cons.mp member with first | member
        · rw [first]
          exact List.not_mem_nil
        · exact ih member
      · rw [if_neg same] at member
        cases pieces : fields separator rest with
        | nil =>
            rw [pieces, addToFirst, List.mem_singleton] at member
            rw [member, List.mem_singleton]
            exact fun equal => same equal.symm
        | cons head others =>
            rw [pieces, addToFirst] at member
            rcases List.mem_cons.mp member with first | member
            · rw [first]
              intro inside
              rcases List.mem_cons.mp inside with equal | inside
              · exact same equal.symm
              · exact ih (pieces ▸ List.mem_cons_self) inside
            · exact ih (pieces ▸ List.mem_cons_of_mem _ member)

/-- No character is lost by cutting. -/
theorem joinWith_fields (separator : Letter) (text : List Letter) :
    joinWith separator (fields separator text) = text := by
  induction text with
  | nil => rfl
  | cons letter rest ih =>
      unfold fields
      split
      · next same => rw [joinWith_cons [] (fields_ne_nil rest), ih, same, List.nil_append]
      · cases pieces : fields separator rest with
        | nil => exact absurd pieces (fields_ne_nil rest)
        | cons piece others =>
            rw [pieces] at ih
            cases others with
            | nil => exact congrArg (letter :: ·) ih
            | cons next others => exact congrArg (letter :: ·) ih

/-- A spelling is cut where the text is, if the mark spells nothing but the separator. -/
theorem fields_spelled {Other : Type} [DecidableEq Other] {mark : Other}
    {spell : List Letter -> List Other}
    (append : forall front rest, spell (front ++ separator :: rest) =
      spell front ++ mark :: spell rest)
    (free : forall piece, separator ∉ piece -> mark ∉ spell piece) (text : List Letter) :
    fields mark (spell text) = (fields separator text).map spell := by
  have pieces := @fields_ne_nil _ separator _ text
  rw [← joinWith_fields separator text, joinWith_spelled append pieces, joinWith_fields,
    fields_joinWith fun none => pieces (List.map_eq_nil_iff.mp none)]
  intro other member
  obtain ⟨piece, among, rfl⟩ := List.mem_map.mp member
  exact free piece (not_mem_of_mem_fields among)

/-- A text that is cut into one piece has no separator. -/
theorem free_of_length_fields {text : List Letter} (single : (fields separator text).length = 1) :
    separator ∉ text := by
  obtain ⟨piece, cut⟩ := List.length_eq_one_iff.mp single
  have whole := joinWith_fields separator text
  rw [cut, joinWith] at whole
  exact whole ▸ not_mem_of_mem_fields (cut ▸ List.mem_cons_self)

end Text
end BuildInputs

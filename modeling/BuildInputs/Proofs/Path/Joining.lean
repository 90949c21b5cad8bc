import BuildInputs.Proofs.Path.Inside
import BuildInputs.Proofs.Text.Words

namespace BuildInputs
namespace Path

open Text

/-!
# Folding pieces into a path

Folding one path into another edits spellings: a name is appended, and `..` cuts the path at a
slash.  What comes out can be said without a single edit.  The names of the base are a stack, and
the pieces between the slashes of the other path are gone through from the left: a name is pushed,
`..` pops one name if there is any, and empty pieces and `.` do nothing.

The result is again an absolute path without detours, and so a further path may be folded into it.
That is the same as folding in both at once, with a slash between them, since cutting at slashes
does not look across a slash.
-/

/-- What a piece between slashes does to a stack of names. -/
def foldPiece (names : List Path) (piece : Path) : List Path :=
  if piece = [] ∨ piece = [dot] then names
  else if piece = [dot, dot] then names.dropLast
  else names ++ [piece]

/-- An absolute path with one slash between names, none at its end and no dots in place of names.
The root alone is its own slash. -/
structure IsDirect (path : Path) : Prop where
  absolute : isAbsolute path = true
  no_current : [dot] ∉ fields slash path
  no_parent : [dot, dot] ∉ fields slash path
  single : ¬ [slash, slash] <:+: path
  unclosed : path ≠ [slash] -> path.getLast? ≠ some slash

section

variable {names : List Path}

/-! ## From components to pieces -/

theorem foldl_foldName_ofPiece (pieces : List Path) (names : List Path) :
    (pieces.filterMap Component.ofPiece?).foldl foldName names = pieces.foldl foldPiece names := by
  induction pieces generalizing names with
  | nil => rfl
  | cons piece pieces ih =>
      rw [List.filterMap_cons, List.foldl_cons, ← ih, Component.ofPiece?, foldPiece]
      by_cases empty : piece = []
      · simp [empty]
      by_cases current : piece = [dot]
      · simp [current]
      rw [if_neg empty, if_neg current, if_neg (not_or.mpr ⟨empty, current⟩)]
      by_cases parent : piece = [dot, dot]
      · rw [if_pos parent, if_pos parent]
        rfl
      · rw [if_neg parent, if_neg parent]
        rfl

/-- A component `.`, which a path has at its front if anywhere, is folded in without effect. -/
theorem foldl_foldName_filter (parts : List Component) (names : List Path) :
    (parts.filter fun part => part ≠ .current).foldl foldName names =
      parts.foldl foldName names := by
  induction parts generalizing names with
  | nil => rfl
  | cons part parts ih =>
      rw [List.filter_cons]
      by_cases current : part = .current
      · subst current
        exact ih names
      · rw [if_pos (decide_eq_true current)]
        exact ih _

theorem foldl_foldName_components (path : Path) (names : List Path) :
    (components path).foldl foldName names = (fields slash path).foldl foldPiece names := by
  rw [← foldl_foldName_filter, filter_components, List.foldl_append, ← foldl_foldName_ofPiece]
  split
  · rfl
  · rfl

/-- The spelling of the result is that of the names left on the stack. -/
theorem joinLexically_eq_rooted (plain : forall name, name ∈ names -> IsPlain name)
    (relative : Path) :
    joinLexically (rooted names) relative =
        rooted ((fields slash relative).foldl foldPiece names) ∧
      forall name, name ∈ (fields slash relative).foldl foldPiece names -> IsPlain name := by
  rw [← foldl_foldName_components]
  exact joinLexically_rooted plain relative

/-! ## Spellings without detours -/

/-- Neither of two neighbouring slashes could be the one at the front or one between names. -/
theorem not_double_rooted (plain : forall name, name ∈ names -> IsPlain name) :
    ¬ [slash, slash] <:+: rooted names := by
  have free : forall name, name ∈ names -> slash ∉ name :=
    fun name member => (plain name member).free
  intro double
  cases names with
  | nil => exact absurd double.length_le (by decide)
  | cons first others =>
      have firstPlain := plain first List.mem_cons_self
      have cut := fields_joinWith (List.cons_ne_nil first others) free
      rcases List.infix_cons_iff.mp double with front | behind
      · rcases (List.cons_prefix_cons.mp front).2 with ⟨rest, spelled⟩
        rw [← spelled, List.singleton_append, fields, if_pos rfl] at cut
        exact firstPlain.nonempty (List.cons.inj cut).1.symm
      · have empty := nil_mem_fields behind
        rw [cut] at empty
        exact (plain [] empty).nonempty rfl

theorem isDirect_rooted (plain : forall name, name ∈ names -> IsPlain name) :
    IsDirect (rooted names) := by
  by_cases empty : names = []
  · subst names
    exact ⟨rfl, by decide, by decide, not_double_rooted plain, fun other => absurd rfl other⟩
  · have pieces := fields_rooted empty plain
    refine ⟨rfl, ?_, ?_, not_double_rooted plain, fun _ => getLast?_rooted empty plain⟩
    · rw [pieces, List.mem_cons]
      rintro (impossible | member)
      · cases impossible
      · exact (plain _ member).ne_current rfl
    · rw [pieces, List.mem_cons]
      rintro (impossible | member)
      · cases impossible
      · exact (plain _ member).ne_parent rfl

/-- More names behind those of a boundary lie below it. -/
theorem isContained_rooted {boundary : List Path}
    (plain : forall name, name ∈ names -> IsPlain name) (start : boundary <+: names) :
    isContained (rooted names) (rooted boundary) = true := by
  have boundaryPlain : forall name, name ∈ boundary -> IsPlain name :=
    fun name member => plain name (start.subset member)
  rw [isContained, startsWith, List.isPrefixOf_iff_prefix, components_rooted plain,
    components_rooted boundaryPlain]
  exact List.cons_prefix_cons.mpr ⟨rfl, start.map Component.name⟩

end

/-- Folding any path into an absolute one without detours gives an absolute path without detours.
Its names are those of the base after each name of the path has been pushed and each `..` has popped
one.  Paths that are folded in one after the other may be folded in at once, and a path that stays
inside stays inside the base. -/
theorem joinLexically_folds_pieces {names : List Path}
    (plain : forall name, name ∈ names -> IsPlain name) (relative : Path) :
    IsDirect (joinLexically (rooted names) relative) ∧
      components (joinLexically (rooted names) relative) =
        .root :: ((fields slash relative).foldl foldPiece names).map .name ∧
      (forall first second,
        joinLexically (joinLexically (rooted names) first) second =
          joinLexically (rooted names) (first ++ slash :: second)) ∧
      (StaysInside relative ->
        isContained (joinLexically (rooted names) relative) (rooted names) = true) := by
  rcases joinLexically_eq_rooted plain relative with ⟨joined, joinedPlain⟩
  rw [joined]
  refine ⟨isDirect_rooted joinedPlain, components_rooted joinedPlain, ?_, ?_⟩
  · intro first second
    rcases joinLexically_eq_rooted plain first with ⟨once, oncePlain⟩
    rw [once, (joinLexically_eq_rooted oncePlain second).1, (joinLexically_eq_rooted plain _).1,
      fields_append_separator, List.foldl_append]
  · intro stays
    apply isContained_rooted joinedPlain
    rw [← foldl_foldName_components]
    exact stays.prefix_foldl (List.prefix_refl names)

/-- A path with an absolute front, doubled slashes, dots and a `..` that stays inside. -/
theorem joinLexically_folds_pieces_dotted :
    (forall name, name ∈ ["opt".toList, "src".toList].map ofText -> IsPlain name) ∧
      StaysInside (ofText "//a/./../.b//c/".toList) ∧
      joinLexically (rooted (["opt".toList, "src".toList].map ofText))
        (ofText "//a/./../.b//c/".toList) = ofText "/opt/src/.b/c".toList ∧
      components (joinLexically (rooted (["opt".toList, "src".toList].map ofText))
        (ofText "//a/./../.b//c/".toList)) =
          [.root, .name (ofText "opt".toList), .name (ofText "src".toList),
            .name (ofText ".b".toList), .name (ofText "c".toList)] ∧
      isContained (joinLexically (rooted (["opt".toList, "src".toList].map ofText))
        (ofText "//a/./../.b//c/".toList)) (rooted (["opt".toList, "src".toList].map ofText)) =
          true := by
  have plain : forall name, name ∈ ["opt".toList, "src".toList].map ofText -> IsPlain name := by
    intro name member
    rcases List.mem_cons.mp member with rfl | member
    · exact ⟨⟨by decide, by decide⟩, by decide, by decide⟩
    · cases List.mem_singleton.mp member
      exact ⟨⟨by decide, by decide⟩, by decide, by decide⟩
  have stays : StaysInside (ofText "//a/./../.b//c/".toList) := by decide
  rcases joinLexically_folds_pieces plain (ofText "//a/./../.b//c/".toList) with
    ⟨-, parts, -, inside⟩
  exact ⟨plain, stays, by decide, parts, inside stays⟩

end Path
end BuildInputs

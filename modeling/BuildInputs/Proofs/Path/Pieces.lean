import BuildInputs.Path.Basic
import BuildInputs.Proofs.Text.Fields

namespace BuildInputs
namespace Path

/-!
# Paths and their pieces

A path is its leading slashes and the pieces that follow them, and pushing one more piece onto
such a path puts it at the end, behind a slash where one is needed.  In the other direction,
cutting a path at its slashes gives back the pieces, along with the empty ones that doubled and
trailing slashes leave.  What counts as a component can therefore be read off the pieces alone,
and a path that is pushed together from its own components is the same path in a clean spelling.
-/

/-- What fits between two slashes. -/
structure IsPiece (piece : Path) : Prop where
  nonempty : piece ≠ []
  free : slash ∉ piece

theorem IsPiece.not_isAbsolute {piece : Path} (fits : IsPiece piece) :
    isAbsolute piece = false := by
  cases piece with
  | nil => exact absurd rfl fits.nonempty
  | cons first rest =>
      apply decide_eq_false
      intro same
      exact fits.free (Option.some.inj same ▸ List.mem_cons_self)

/-! ## Pushing a piece -/

theorem getLast?_joinWith {pieces : List Path} (nonempty : pieces ≠ [])
    (fit : forall piece, piece ∈ pieces -> IsPiece piece) :
    exists byte, (Text.joinWith slash pieces).getLast? = some byte ∧ byte ≠ slash := by
  rcases Text.exists_concat nonempty with ⟨front, last, rfl⟩
  have lastFits := fit last List.mem_concat_self
  have spelled : exists before, Text.joinWith slash (front ++ [last]) = before ++ last := by
    by_cases alone : front = []
    · subst front
      exact ⟨[], rfl⟩
    · refine ⟨Text.joinWith slash front ++ [slash], ?_⟩
      rw [Text.joinWith_append_singleton alone, List.append_assoc, List.singleton_append]
  rcases spelled with ⟨before, spelled⟩
  rw [spelled, List.getLast?_append, List.getLast?_eq_some_getLast lastFits.nonempty]
  refine ⟨_, rfl, fun slash => lastFits.free ?_⟩
  rw [← slash]
  exact List.getLast_mem lastFits.nonempty

/-- Pushing a piece puts it at the end, behind a slash only where pieces stand already. -/
theorem push_joinWith {slashes : Path} {pieces : List Path} {piece : Path}
    (leading : forall byte, byte ∈ slashes -> byte = slash)
    (fit : forall piece, piece ∈ pieces -> IsPiece piece) (fits : IsPiece piece) :
    push (slashes ++ Text.joinWith slash pieces) piece =
      slashes ++ Text.joinWith slash (pieces ++ [piece]) := by
  rw [push, fits.not_isAbsolute, if_neg Bool.false_ne_true]
  by_cases empty : pieces = []
  · subst pieces
    have closed : (slashes ++ Text.joinWith slash [] = [] ||
        (slashes ++ Text.joinWith slash []).getLast? = some slash) = true := by
      rw [Text.joinWith, List.append_nil, Bool.or_eq_true, decide_eq_true_iff, decide_eq_true_iff]
      by_cases bare : slashes = []
      · exact Or.inl bare
      · rw [List.getLast?_eq_some_getLast bare, leading _ (List.getLast_mem bare)]
        exact Or.inr rfl
    rw [if_pos closed, Text.joinWith, List.append_nil]
    rfl
  · rcases getLast?_joinWith empty fit with ⟨byte, final, different⟩
    have last : (slashes ++ Text.joinWith slash pieces).getLast? = some byte := by
      rw [List.getLast?_append, final]
      rfl
    have unclosed : ¬ (slashes ++ Text.joinWith slash pieces = [] ||
        (slashes ++ Text.joinWith slash pieces).getLast? = some slash) = true := by
      rw [last, Bool.or_eq_true, decide_eq_true_iff, decide_eq_true_iff]
      rintro (bare | slash)
      · rw [bare] at last
        cases last
      · exact different (Option.some.inj slash)
    rw [if_neg unclosed, Text.joinWith_append_singleton empty, List.append_assoc]

/-- Pushing pieces one after the other. -/
theorem foldl_push_joinWith {slashes : Path} {pieces more : List Path}
    (leading : forall byte, byte ∈ slashes -> byte = slash)
    (fit : forall piece, piece ∈ pieces -> IsPiece piece)
    (moreFit : forall piece, piece ∈ more -> IsPiece piece) :
    more.foldl push (slashes ++ Text.joinWith slash pieces) =
      slashes ++ Text.joinWith slash (pieces ++ more) := by
  induction more generalizing pieces with
  | nil => rw [List.foldl_nil, List.append_nil]
  | cons piece more ih =>
      have fits := moreFit piece List.mem_cons_self
      have grown : forall other, other ∈ pieces ++ [piece] -> IsPiece other := by
        intro other member
        rcases List.mem_append.mp member with old | new
        · exact fit other old
        · exact List.mem_singleton.mp new ▸ fits
      rw [List.foldl_cons, push_joinWith leading fit fits,
        ih grown fun other member => moreFit other (List.mem_cons_of_mem _ member),
        List.append_assoc, List.singleton_append]

theorem foldl_push_slashes {slashes : Path} {pieces : List Path}
    (leading : forall byte, byte ∈ slashes -> byte = slash)
    (fit : forall piece, piece ∈ pieces -> IsPiece piece) :
    pieces.foldl push slashes = slashes ++ Text.joinWith slash pieces := by
  have none : forall piece, piece ∈ ([] : List Path) -> IsPiece piece :=
    fun piece member => absurd member List.not_mem_nil
  have bare := foldl_push_joinWith leading none fit
  rw [Text.joinWith, List.append_nil, List.nil_append] at bare
  exact bare

/-! ## The pieces of a path -/

/-- The components of a path that is not empty, from the pieces between its slashes. -/
theorem components_of_fields {path : Path} {head : Path} {pieces : List Path}
    (nonempty : path ≠ []) (cut : Text.fields slash path = head :: pieces) :
    components path =
      (if head = [] then [Component.root]
        else if head = [dot] then [Component.current]
        else (Component.ofPiece? head).toList) ++ pieces.filterMap Component.ofPiece? := by
  cases path with
  | nil => exact absurd rfl nonempty
  | cons byte rest =>
      unfold components
      rw [cut]

/-- A path begins at the root if nothing stands in front of its first slash. -/
theorem isAbsolute_iff_head {path : Path} {head : Path} {pieces : List Path}
    (nonempty : path ≠ []) (cut : Text.fields slash path = head :: pieces) :
    isAbsolute path = true ↔ head = [] := by
  cases path with
  | nil => exact absurd rfl nonempty
  | cons byte rest =>
      rw [isAbsolute, decide_eq_true_iff, List.head?_cons, Option.some_inj]
      rw [Text.fields] at cut
      split at cut
      · next slash =>
          cases cut
          exact ⟨fun _ => rfl, fun _ => slash⟩
      · next other =>
          rcases Text.exists_addToFirst byte (Text.fields slash rest) with ⟨first, others, same⟩
          rw [same] at cut
          cases cut
          exact ⟨fun slash => absurd slash other, fun impossible => absurd impossible (List.cons_ne_nil _ _)⟩

theorem ne_current_of_ofPiece {piece : Path} {part : Component}
    (meant : Component.ofPiece? piece = some part) : part ≠ .current := by
  rw [Component.ofPiece?] at meant
  split at meant
  · cases meant
  split at meant
  · cases meant
  split at meant
  · cases meant
    exact Component.noConfusion
  · cases meant
    exact Component.noConfusion

/-- Without the components `.` a path is the root, if it begins there, and what its pieces
stand for. -/
theorem filter_components (path : Path) :
    (components path).filter (fun part => part ≠ .current) =
      (if isAbsolute path then [Component.root] else []) ++
        (Text.fields slash path).filterMap Component.ofPiece? := by
  by_cases empty : path = []
  · subst path
    rfl
  · cases cut : Text.fields slash path with
    | nil => exact absurd cut (Text.fields_ne_nil path)
    | cons head pieces =>
        have kept : (pieces.filterMap Component.ofPiece?).filter (fun part => part ≠ .current) =
            pieces.filterMap Component.ofPiece? := by
          refine List.filter_eq_self.mpr fun part member => decide_eq_true ?_
          rcases List.mem_filterMap.mp member with ⟨piece, _, meant⟩
          exact ne_current_of_ofPiece meant
        have leading := isAbsolute_iff_head empty cut
        rw [components_of_fields empty cut, List.filter_append, kept]
        by_cases first : head = []
        · rw [if_pos first, if_pos (leading.mpr first),
            List.filterMap_cons_none (by rw [first]; rfl)]
          rfl
        · rw [if_neg first, if_neg fun absolute => first (leading.mp absolute)]
          by_cases current : head = [dot]
          · rw [if_pos current, List.filterMap_cons_none (by rw [current]; rfl)]
            rfl
          · rw [if_neg current]
            cases meant : Component.ofPiece? head with
            | none =>
                rw [List.filterMap_cons_none meant]
                rfl
            | some part =>
                rw [List.filterMap_cons_some meant, Option.toList_some, List.filter_cons,
                  if_pos (decide_eq_true (ne_current_of_ofPiece meant))]
                rfl

/-- The pieces that stand for a component are those that are neither empty nor `.`, and the
component spells them. -/
theorem map_spelling_filterMap_ofPiece (pieces : List Path) :
    (pieces.filterMap Component.ofPiece?).map Component.spelling =
      pieces.filter fun piece => piece ≠ [] ∧ piece ≠ [dot] := by
  induction pieces with
  | nil => rfl
  | cons piece pieces ih =>
      by_cases empty : piece = []
      · subst piece
        exact ih
      by_cases current : piece = [dot]
      · subst piece
        exact ih
      have meant : exists part, Component.ofPiece? piece = some part ∧ part.spelling = piece := by
        rw [Component.ofPiece?, if_neg empty, if_neg current]
        split
        · next parent => exact ⟨_, rfl, parent.symm⟩
        · exact ⟨_, rfl, rfl⟩
      rcases meant with ⟨part, meant, spelled⟩
      have counts : decide (piece ≠ [] ∧ piece ≠ [dot]) = true :=
        decide_eq_true ⟨empty, current⟩
      rw [List.filterMap_cons_some meant, List.map_cons, spelled, ih, List.filter_cons,
        if_pos counts]

end Path
end BuildInputs

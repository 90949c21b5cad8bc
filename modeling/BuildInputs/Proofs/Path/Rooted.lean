import BuildInputs.Path.Containment
import BuildInputs.Proofs.Path.Pieces

namespace BuildInputs
namespace Path

/-!
# Absolute paths without detours

Among the many spellings of an absolute path one is distinguished: the root and then plain
names, with one slash between any two.  A location is always spelled in this way.  On such
spellings editing the spelling and editing the list of names are the same thing, so that folding a
path into one of them is a fold over names.  In particular nothing that is folded in can turn an
absolute path into a relative one.
-/

/-- What stands for one name between two slashes. -/
structure IsPlain (bytes : Path) : Prop extends IsPiece bytes where
  ne_current : bytes ≠ [dot]
  ne_parent : bytes ≠ [dot, dot]

/-- The absolute path along some names. -/
def rooted (names : List Path) : Path :=
  slash :: Text.joinWith slash names

theorem IsPlain.ofPiece {bytes : Path} (plain : IsPlain bytes) :
    Component.ofPiece? bytes = some (.name bytes) := by
  rw [Component.ofPiece?, if_neg plain.nonempty, if_neg plain.ne_current, if_neg plain.ne_parent]

/-! ## What a rooted path is made of -/

theorem isAbsolute_rooted (names : List Path) : isAbsolute (rooted names) = true :=
  rfl

theorem fields_rooted {names : List Path} (nonempty : names ≠ [])
    (plain : forall name, name ∈ names -> IsPlain name) :
    Text.fields slash (rooted names) = [] :: names := by
  rw [rooted, Text.fields, if_pos rfl,
    Text.fields_joinWith nonempty fun name member => (plain name member).free]

theorem filterMap_ofPiece {names : List Path} (plain : forall name, name ∈ names -> IsPlain name) :
    names.filterMap Component.ofPiece? = names.map .name := by
  induction names with
  | nil => rfl
  | cons name names ih =>
      rw [List.filterMap_cons_some (plain name List.mem_cons_self).ofPiece, List.map_cons,
        ih fun other member => plain other (List.mem_cons_of_mem _ member)]

theorem components_rooted {names : List Path} (plain : forall name, name ∈ names -> IsPlain name) :
    components (rooted names) = .root :: names.map .name := by
  by_cases empty : names = []
  · subst names
    rfl
  · have nonempty : rooted names ≠ [] := List.cons_ne_nil _ _
    rw [components_of_fields nonempty (fields_rooted empty plain), if_pos rfl,
      filterMap_ofPiece plain]
    rfl

theorem plain_of_ofPiece {piece bytes : Path} (free : slash ∉ piece)
    (meant : Component.ofPiece? piece = some (.name bytes)) : IsPlain bytes := by
  rw [Component.ofPiece?] at meant
  split at meant
  · cases meant
  split at meant
  · cases meant
  split at meant
  · cases meant
  next nonempty notCurrent notParent =>
    cases meant
    exact ⟨⟨nonempty, free⟩, notCurrent, notParent⟩

/-- Every name among the components of a path is plain, however the path is spelled. -/
theorem plain_of_mem_components {path : Path} {bytes : Path}
    (member : .name bytes ∈ components path) : IsPlain bytes := by
  by_cases empty : path = []
  · subst path
    cases member
  · cases cut : Text.fields slash path with
    | nil => exact absurd cut (Text.fields_ne_nil path)
    | cons head pieces =>
        have free : forall piece, piece ∈ head :: pieces -> slash ∉ piece :=
          fun piece inside => Text.not_mem_of_mem_fields (cut ▸ inside)
        rw [components_of_fields empty cut] at member
        rcases List.mem_append.mp member with first | later
        · split at first
          · cases List.mem_singleton.mp first
          split at first
          · cases List.mem_singleton.mp first
          · exact plain_of_ofPiece (free head List.mem_cons_self) (Option.mem_toList.mp first)
        · rcases List.mem_filterMap.mp later with ⟨piece, inside, meant⟩
          exact plain_of_ofPiece (free piece (List.mem_cons_of_mem _ inside)) meant

/-! ## Editing a rooted path -/

theorem getLast?_rooted {names : List Path} (nonempty : names ≠ [])
    (plain : forall name, name ∈ names -> IsPlain name) :
    (rooted names).getLast? ≠ some slash := by
  rcases getLast?_joinWith nonempty fun name member => (plain name member).toIsPiece with
    ⟨byte, final, different⟩
  intro slash
  rw [rooted, ← List.singleton_append, List.getLast?_append, final] at slash
  exact different (Option.some.inj slash)

theorem push_rooted {names : List Path} {name : Path}
    (plain : forall name, name ∈ names -> IsPlain name) (namePlain : IsPlain name) :
    push (rooted names) name = rooted (names ++ [name]) :=
  @push_joinWith [slash] _ _ (fun _ member => List.mem_singleton.mp member)
    (fun other member => (plain other member).toIsPiece) namePlain.toIsPiece

theorem skipBlank_of_plain {name : Path} (plain : IsPlain name) (pieces : List Path) :
    skipBlank (name :: pieces) = name :: pieces := by
  cases pieces with
  | nil => rfl
  | cons next pieces =>
      rw [skipBlank, plain.ofPiece]
      rfl

/-- The root is the empty piece in front of the first slash. -/
theorem rooted_eq_joinWith {names : List Path} (nonempty : names ≠ []) :
    rooted names = Text.joinWith slash ([] :: names) :=
  (Text.joinWith_cons [] nonempty).symm

/-- Cutting off a last name that has other pieces in front of it. -/
theorem pop_of_reverse_fields {path : Path} {last : Path} {pieces : List Path}
    (plain : IsPlain last) (more : pieces ≠ [])
    (reversed : (Text.fields slash path).reverse = last :: pieces) :
    pop path =
      if skipBlank pieces = [[]] then [slash]
      else Text.joinWith slash (skipBlank pieces).reverse := by
  unfold pop
  rw [reversed, skipBlank_of_plain plain]
  cases pieces with
  | nil => exact absurd rfl more
  | cons next pieces =>
      dsimp only
      split
      · next only => rw [only, if_pos rfl]
      · next several => rw [if_neg several]

theorem pop_rooted {names : List Path} (plain : forall name, name ∈ names -> IsPlain name) :
    pop (rooted names) = rooted names.dropLast := by
  by_cases empty : names = []
  · subst names
    rfl
  · have pieces := fields_rooted empty plain
    rcases Text.exists_concat empty with ⟨front, last, rfl⟩
    have reversed : (Text.fields slash (rooted (front ++ [last]))).reverse =
        last :: (front.reverse ++ [[]]) := by
      rw [pieces, List.reverse_cons, List.reverse_append]
      rfl
    rw [List.dropLast_concat, pop_of_reverse_fields (plain last List.mem_concat_self)
      (List.append_ne_nil_of_right_ne_nil _ (List.cons_ne_nil _ _)) reversed]
    by_cases alone : front = []
    · subst front
      rfl
    · rcases Text.exists_concat alone with ⟨before, parent, rfl⟩
      have parentPlain := plain parent (List.mem_append_left _ List.mem_concat_self)
      have kept : skipBlank ((before ++ [parent]).reverse ++ [[]]) =
          parent :: (before.reverse ++ [[]]) := by
        rw [List.reverse_append]
        exact skipBlank_of_plain parentPlain _
      have several : ¬ parent :: (before.reverse ++ [[]]) = [[]] :=
        fun same => parentPlain.nonempty (List.cons.inj same).1
      rw [kept, if_neg several, rooted_eq_joinWith alone, List.reverse_cons, List.reverse_append,
        List.reverse_reverse]
      rfl

/-! ## Folding a path into a rooted one -/

/-- What folding in one component does to the names of a rooted path. -/
def foldName (names : List Path) : Component -> List Path
  | .root => names
  | .current => names
  | .parent => names.dropLast
  | .name bytes => names ++ [bytes]

theorem joinComponent_rooted {names : List Path} {part : Component}
    (plain : forall name, name ∈ names -> IsPlain name)
    (partPlain : forall bytes, part = .name bytes -> IsPlain bytes) :
    joinComponent (rooted names) part = rooted (foldName names part) ∧
      forall name, name ∈ foldName names part -> IsPlain name := by
  cases part with
  | root => exact ⟨rfl, plain⟩
  | current => exact ⟨rfl, plain⟩
  | parent =>
      exact ⟨pop_rooted plain, fun name member => plain name (List.dropLast_subset _ member)⟩
  | name bytes =>
      have namePlain := partPlain bytes rfl
      refine ⟨push_rooted plain namePlain, fun name member => ?_⟩
      rcases List.mem_append.mp member with old | new
      · exact plain name old
      · exact List.mem_singleton.mp new ▸ namePlain

/-- Folding a path into a rooted one gives a rooted one again, whatever the path: it has the
names that the fold over components leaves. -/
theorem joinLexically_rooted {names : List Path}
    (plain : forall name, name ∈ names -> IsPlain name) (relative : Path) :
    joinLexically (rooted names) relative =
        rooted ((components relative).foldl foldName names) ∧
      forall name, name ∈ (components relative).foldl foldName names -> IsPlain name := by
  have fold : forall parts : List Component,
      (forall bytes, .name bytes ∈ parts -> IsPlain bytes) ->
      forall names : List Path, (forall name, name ∈ names -> IsPlain name) ->
        parts.foldl joinComponent (rooted names) = rooted (parts.foldl foldName names) ∧
          forall name, name ∈ parts.foldl foldName names -> IsPlain name := by
    intro parts
    induction parts with
    | nil => exact fun _ names plain => ⟨rfl, plain⟩
    | cons part parts ih =>
        intro partsPlain names plain
        have step := joinComponent_rooted plain fun bytes same =>
          partsPlain bytes (same ▸ List.mem_cons_self)
        rw [List.foldl_cons, List.foldl_cons, step.1]
        exact ih (fun bytes member => partsPlain bytes (List.mem_cons_of_mem _ member)) _ step.2
  exact fold (components relative) (fun _ member => plain_of_mem_components member) names plain

end Path
end BuildInputs

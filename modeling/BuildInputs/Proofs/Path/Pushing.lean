import BuildInputs.Proofs.Path.Rooted
import BuildInputs.Proofs.Text.Words

namespace BuildInputs
namespace Path

/-!
# The pieces that count

Of the pieces between the slashes of a path, the empty ones and the ones that are `.` do not count.
The others, along with where the path starts, are its course: two paths with the same course differ
in their spelling only.  Pushing a piece adds that piece to the course, wherever the spelling puts a
slash.  This holds of pieces that do not count as well, so that a path may be pushed together piece
by piece and its course read off the pieces.
-/

/-- Whether a piece between slashes counts. -/
def counts (piece : Path) : Bool :=
  piece ≠ [] && piece ≠ [dot]

/-- The pieces of a path that count. -/
def countingPieces (path : Path) : List Path :=
  (Text.fields slash path).filter counts

/-- The components of a path without a `.` at its front, which is the only place where one is
kept. -/
def course (path : Path) : List Component :=
  (components path).filter fun part => part ≠ .current

/-- Two spellings with the same course. -/
structure SameCourse (path other : Path) : Prop where
  nonempty : path ≠ []
  otherNonempty : other ≠ []
  absolute : isAbsolute path = isAbsolute other
  counting : countingPieces path = countingPieces other

theorem SameCourse.symm {path other : Path} (same : SameCourse path other) :
    SameCourse other path :=
  ⟨same.otherNonempty, same.nonempty, same.absolute.symm, same.counting.symm⟩

theorem ofPiece?_isSome (piece : Path) : (Component.ofPiece? piece).isSome = counts piece := by
  rw [Component.ofPiece?, counts]
  by_cases empty : piece = []
  · simp [empty]
  by_cases current : piece = [dot]
  · simp [current]
  rw [if_neg empty, if_neg current]
  split <;> simp [empty, current]

/-- Only pieces that count stand for components. -/
theorem filterMap_ofPiece?_filter (pieces : List Path) :
    (pieces.filter counts).filterMap Component.ofPiece? = pieces.filterMap Component.ofPiece? := by
  have kept : (fun piece => if counts piece = true then Component.ofPiece? piece else none) =
      Component.ofPiece? := by
    funext piece
    rw [← ofPiece?_isSome]
    cases Component.ofPiece? piece <;> rfl
  rw [List.filterMap_filter, kept]

/-- The course of a path is where it starts and what its counting pieces stand for. -/
theorem course_eq (path : Path) :
    course path = (if isAbsolute path then [Component.root] else []) ++
      (countingPieces path).filterMap Component.ofPiece? := by
  rw [course, countingPieces, filterMap_ofPiece?_filter, filter_components]

theorem SameCourse.course_eq {path other : Path} (same : SameCourse path other) :
    course path = course other := by
  rw [Path.course_eq, Path.course_eq, same.absolute, same.counting]

/-- Only the current directory, spelled as such, is one component `.` and nothing else. -/
theorem components_eq_current_iff {path : Path} (nonempty : path ≠ []) :
    components path = [.current] ↔ isAbsolute path = false ∧ countingPieces path = [] := by
  constructor
  · intro here
    have parts := course_eq path
    rw [course, here] at parts
    obtain ⟨relative, meant⟩ := List.append_eq_nil_iff.mp parts.symm
    refine ⟨?_, List.eq_nil_iff_forall_not_mem.mpr fun piece member => ?_⟩
    · by_cases absolute : isAbsolute path = true
      · rw [if_pos absolute] at relative
        cases relative
      · exact Bool.eq_false_iff.mpr absolute
    · have some := ofPiece?_isSome piece
      rw [List.filterMap_eq_nil_iff.mp meant piece member, (List.mem_filter.mp member).2] at some
      cases some
  · rintro ⟨relative, none⟩
    cases cut : Text.fields slash path with
    | nil => exact absurd cut (Text.fields_ne_nil path)
    | cons head pieces =>
        have first : head ≠ [] := by
          intro empty
          rw [(isAbsolute_iff_head nonempty cut).mpr empty] at relative
          cases relative
        rw [countingPieces, cut, List.filter_eq_nil_iff, List.forall_mem_cons] at none
        have current : head = [dot] := by simpa [counts, first] using none.1
        have meant : pieces.filterMap Component.ofPiece? = [] := by
          rw [← filterMap_ofPiece?_filter, List.filter_eq_nil_iff.mpr none.2]
          rfl
        rw [components_of_fields nonempty cut, if_neg first, if_pos current, meant]
        rfl

/-- A character that is neither a slash nor a dot stands in a piece that counts. -/
theorem mem_iff_of_counts {path : Path} {byte : UInt8} (notSlash : byte ≠ slash)
    (notDot : byte ≠ dot) :
    byte ∈ path ↔ exists piece, piece ∈ countingPieces path ∧ byte ∈ piece := by
  constructor
  · intro member
    rw [← Text.joinWith_fields slash path] at member
    rcases Text.mem_of_mem_joinWith member with slash | ⟨piece, among, inside⟩
    · exact absurd slash notSlash
    · refine ⟨piece, List.mem_filter.mpr ⟨among, ?_⟩, inside⟩
      simp only [counts, Bool.and_eq_true, decide_eq_true_iff]
      refine ⟨List.ne_nil_of_mem inside, ?_⟩
      rintro rfl
      exact notDot (List.mem_singleton.mp inside)
  · rintro ⟨piece, among, inside⟩
    exact (Text.infix_of_mem_fields (List.mem_filter.mp among).1).subset inside

/-! ## What a pushed piece adds -/

/-- The pieces in front of one that is pushed onto the path. -/
def stem (path : Path) : List Path :=
  if path = [] || path.getLast? = some slash then (Text.fields slash path).dropLast
  else Text.fields slash path

theorem stem_closed (front : Path) : stem (front ++ [slash]) = Text.fields slash front := by
  have cut : Text.fields slash (front ++ [slash]) = Text.fields slash front ++ [[]] :=
    Text.fields_append_separator front []
  rw [stem, List.getLast?_concat, cut, List.dropLast_concat, if_pos]
  simp

theorem isAbsolute_of_free {piece : Path} (free : slash ∉ piece) : isAbsolute piece = false := by
  cases piece with
  | nil => rfl
  | cons byte rest =>
      exact IsPiece.not_isAbsolute ⟨List.cons_ne_nil _ _, free⟩

/-- A path is empty, or it ends with a slash, or one is put behind it. -/
theorem push_cases (path : Path) :
    (path = [] ∧ stem path = [] ∧
        forall piece, slash ∉ piece -> push path piece = piece) ∨
      exists front, path ≠ [] ∧ stem path = Text.fields slash front ∧
        (path = front ++ [slash] ∨ path = front) ∧
          forall piece, slash ∉ piece -> push path piece = front ++ slash :: piece := by
  by_cases closed : (path = [] || path.getLast? = some slash) = true
  · by_cases empty : path = []
    · subst path
      refine .inl ⟨rfl, rfl, ?_⟩
      intro piece free
      rw [push, isAbsolute_of_free free]
      rfl
    · obtain ⟨front, last, rfl⟩ := Text.exists_concat empty
      have slash : last = slash := by simpa using closed
      subst last
      refine .inr ⟨front, empty, stem_closed front, .inl rfl, ?_⟩
      intro piece free
      rw [push, isAbsolute_of_free free, if_neg Bool.false_ne_true, if_pos closed,
        List.append_assoc, List.singleton_append]
  · have nonempty : path ≠ [] := by
      rintro rfl
      exact closed rfl
    refine .inr ⟨path, nonempty, if_neg closed, .inr rfl, ?_⟩
    intro piece free
    rw [push, isAbsolute_of_free free, if_neg Bool.false_ne_true, if_neg closed]

theorem fields_push {path : Path} {piece : Path} (free : slash ∉ piece) :
    Text.fields slash (push path piece) = stem path ++ [piece] := by
  rcases push_cases path with ⟨-, none, pushed⟩ | ⟨front, -, some, -, pushed⟩
  · rw [pushed piece free, none, Text.fields_of_free free, List.nil_append]
  · rw [pushed piece free, some, Text.fields_append_separator, Text.fields_of_free free]

theorem filter_stem (path : Path) : (stem path).filter counts = countingPieces path := by
  rcases push_cases path with ⟨rfl, -, -⟩ | ⟨front, -, some, rfl | rfl, -⟩
  · rfl
  · have cut : Text.fields slash (front ++ [slash]) = Text.fields slash front ++ [[]] :=
      Text.fields_append_separator front []
    rw [some, countingPieces, cut, List.filter_append]
    exact (List.append_nil _).symm
  · rw [some, countingPieces]

theorem countingPieces_push {path : Path} {piece : Path} (free : slash ∉ piece) :
    countingPieces (push path piece) = countingPieces path ++ [piece].filter counts := by
  rw [countingPieces, fields_push free, List.filter_append, filter_stem]

theorem isAbsolute_push {path : Path} {piece : Path} (free : slash ∉ piece) :
    isAbsolute (push path piece) = isAbsolute path := by
  rcases push_cases path with ⟨rfl, -, pushed⟩ | ⟨front, nonempty, -, rfl | rfl, pushed⟩
  · rw [pushed piece free]
    exact isAbsolute_of_free free
  · rw [pushed piece free]
    cases front <;> rfl
  · rw [pushed piece free]
    cases path with
    | nil => exact absurd rfl nonempty
    | cons byte rest => rfl

/-- A path with a piece pushed onto it does not end in a slash. -/
theorem getLast?_push {path : Path} {piece : Path} (fits : IsPiece piece) :
    (push path piece).getLast? ≠ some slash := by
  obtain ⟨front, spelled⟩ : exists front, push path piece = front ++ piece := by
    rcases push_cases path with ⟨-, -, pushed⟩ | ⟨front, -, -, -, pushed⟩
    · exact ⟨[], pushed piece fits.free⟩
    · exact ⟨front ++ [slash], (pushed piece fits.free).trans (List.append_cons _ _ _)⟩
  rw [spelled, List.getLast?_append, List.getLast?_eq_some_getLast fits.nonempty]
  intro slash
  exact fits.free (Option.some.inj slash ▸ List.getLast_mem fits.nonempty)

/-- Pushing adds the bytes of the piece and slashes. -/
theorem mem_push_iff {path : Path} {piece : Path} {byte : UInt8} (free : slash ∉ piece)
    (notSlash : byte ≠ slash) : byte ∈ push path piece ↔ byte ∈ path ∨ byte ∈ piece := by
  rcases push_cases path with ⟨rfl, -, pushed⟩ | ⟨front, -, -, rfl | rfl, pushed⟩
  · simp [pushed piece free]
  · simp [pushed piece free, notSlash]
  · simp [pushed piece free, notSlash]

theorem filterMap_counts_plain {name : Path} (plain : IsPlain name) :
    ([name].filter counts).filterMap Component.ofPiece? = [.name name] := by
  rw [filterMap_ofPiece?_filter, List.filterMap_cons_some plain.ofPiece]
  rfl

/-- Pushing a plain name adds one component that counts. -/
theorem course_push {path : Path} {name : Path} (plain : IsPlain name) :
    course (push path name) = course path ++ [.name name] := by
  rw [course_eq, course_eq, isAbsolute_push plain.free, countingPieces_push plain.free,
    List.filterMap_append, filterMap_counts_plain plain, List.append_assoc]

theorem push_ne_nil {path : Path} {piece : Path} (nonempty : path ≠ []) (free : slash ∉ piece) :
    push path piece ≠ [] := by
  rcases push_cases path with ⟨empty, -, -⟩ | ⟨front, -, -, -, pushed⟩
  · exact absurd empty nonempty
  · rw [pushed piece free]
    exact List.append_ne_nil_of_right_ne_nil _ (List.cons_ne_nil _ _)

/-- A slash in front changes nothing about the end. -/
theorem closed_append_slash (front rest : Path) :
    (decide (front ++ slash :: rest = []) ||
        decide ((front ++ slash :: rest).getLast? = some slash)) =
      (decide (rest = []) || decide (rest.getLast? = some slash)) := by
  cases rest with
  | nil => simp
  | cons byte rest => simp [List.getLast?_append]

/-- Only a first piece can be kept as `.`. -/
theorem current_mem_components_iff {path : Path} :
    .current ∈ components path ↔ (Text.fields slash path).head? = some [dot] := by
  by_cases empty : path = []
  · subst path
    exact iff_of_false List.not_mem_nil (by decide)
  cases cut : Text.fields slash path with
  | nil => exact absurd cut (Text.fields_ne_nil path)
  | cons head pieces =>
      have later : .current ∉ pieces.filterMap Component.ofPiece? := by
        intro member
        obtain ⟨piece, -, meant⟩ := List.mem_filterMap.mp member
        exact ne_current_of_ofPiece meant rfl
      rw [components_of_fields empty cut, List.mem_append, or_iff_left later, List.head?_cons,
        Option.some_inj]
      by_cases first : head = []
      · rw [if_pos first, first]
        exact iff_of_false (by decide) (List.cons_ne_nil _ _).symm
      by_cases current : head = [dot]
      · rw [if_neg first, if_pos current]
        exact iff_of_true List.mem_cons_self current
      · rw [if_neg first, if_neg current]
        refine iff_of_false (fun member => ?_) current
        exact ne_current_of_ofPiece (Option.mem_toList.mp member) rfl

theorem head?_fields_push {path : Path} {piece : Path} (nonempty : path ≠ [])
    (free : slash ∉ piece) :
    (Text.fields slash (push path piece)).head? = (Text.fields slash path).head? := by
  have front : forall front back, (Text.fields slash (front ++ slash :: back)).head? =
      (Text.fields slash front).head? := by
    intro front back
    rw [Text.fields_append_separator, List.head?_append,
      Option.or_of_isSome (List.isSome_head?.mpr (Text.fields_ne_nil front))]
  rcases push_cases path with ⟨empty, -⟩ | ⟨before, -, -, rfl | rfl, pushed⟩
  · exact absurd empty nonempty
  · rw [pushed piece free, front, front]
  · rw [pushed piece free, front]

theorem push_slash {path : Path} {piece : Path} (free : slash ∉ piece) :
    push (slash :: path) piece = slash :: push path piece := by
  have closed := closed_append_slash [] path
  rw [List.nil_append] at closed
  rw [push, push, isAbsolute_of_free free, if_neg Bool.false_ne_true, if_neg Bool.false_ne_true,
    closed]
  split <;> rfl

theorem stem_append_slash {piece : Path} (free : slash ∉ piece) (path : Path) :
    stem (piece ++ slash :: path) = piece :: stem path := by
  rw [stem, stem, closed_append_slash, Text.fields_append free]
  split
  · exact List.dropLast_cons_of_ne_nil (Text.fields_ne_nil path)
  · rfl

theorem mem_of_mem_stem {path : Path} {piece : Path} {byte : UInt8} (among : piece ∈ stem path)
    (inside : byte ∈ piece) : byte ∈ path ∧ byte ≠ slash := by
  have cut : forall {front : Path}, piece ∈ Text.fields slash front ->
      byte ∈ front ∧ byte ≠ slash := by
    intro front member
    refine ⟨(Text.infix_of_mem_fields member).subset inside, ?_⟩
    rintro rfl
    exact Text.not_mem_of_mem_fields member inside
  rcases push_cases path with ⟨-, none, -⟩ | ⟨front, -, some, rfl | rfl, -⟩
  · rw [none] at among
    cases among
  · rw [some] at among
    exact (cut among).imp_left (List.mem_append_left _)
  · rw [some] at among
    exact cut among

/-- No slash stands in a piece in front. -/
theorem free_of_mem_stem {path : Path} {piece : Path} (among : piece ∈ stem path) : slash ∉ piece :=
  fun slash => (mem_of_mem_stem among slash).2 rfl

theorem fileName_of_fields {path : Path} {front : List Path} {name : Path}
    (plain : IsPlain name) (cut : Text.fields slash path = front ++ [name]) :
    fileName path = some name := by
  have nonempty : path ≠ [] := by
    rintro rfl
    have last := congrArg List.getLast? cut
    rw [List.getLast?_concat] at last
    exact plain.nonempty (Option.some.inj last).symm
  have last : (components path).getLast? = some (.name name) := by
    cases front with
    | nil =>
        rw [components_of_fields nonempty cut, if_neg plain.nonempty, if_neg plain.ne_current,
          plain.ofPiece]
        rfl
    | cons head front =>
        rw [List.cons_append] at cut
        rw [components_of_fields nonempty cut, List.filterMap_append,
          List.filterMap_cons_some plain.ofPiece, ← List.append_assoc, List.filterMap_nil,
          List.getLast?_concat]
  rw [fileName, last]

/-- A name that is pushed onto a path is its file name. -/
theorem fileName_push {path : Path} {name : Path} (plain : IsPlain name) :
    fileName (push path name) = some name :=
  fileName_of_fields plain (fields_push plain.free)

end Path
end BuildInputs

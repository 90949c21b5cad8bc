import BuildInputs.Proofs.FileSystem.Real
import BuildInputs.Proofs.Path.Pushing

namespace BuildInputs
namespace Path

/-!
# The same path from the root

A path is made absolute by editing its spelling: the pieces that count are pushed onto the path of
the current directory, or onto the root if the path begins there.  So its course is that of the
current directory followed by its own, and since a piece `..` counts, none is taken back.  From a
location the result can be written down at once, with one slash between any two pieces.
-/

theorem counts_of_plain {text : Path} (plain : IsPlain text) : counts text = true := by
  rw [counts, decide_eq_true plain.nonempty, decide_eq_true plain.ne_current]
  rfl

theorem decide_eq_counts :
    (fun piece : Path => decide (piece ≠ [] ∧ piece ≠ [dot])) = counts := by
  funext piece
  rw [Bool.decide_and, counts]

/-- Pushing pieces one after the other adds those that count. -/
theorem countingPieces_foldl_push {pieces : List Path} (path : Path)
    (free : forall piece, piece ∈ pieces -> slash ∉ piece) :
    countingPieces (pieces.foldl push path) = countingPieces path ++ pieces.filter counts := by
  induction pieces generalizing path with
  | nil => exact (List.append_nil _).symm
  | cons piece pieces ih =>
      rw [List.forall_mem_cons] at free
      rw [List.foldl_cons, ih _ free.2, countingPieces_push free.1, List.append_assoc,
        ← List.filter_append, List.singleton_append]

theorem isAbsolute_foldl_push {pieces : List Path} (path : Path)
    (free : forall piece, piece ∈ pieces -> slash ∉ piece) :
    isAbsolute (pieces.foldl push path) = isAbsolute path := by
  induction pieces generalizing path with
  | nil => rfl
  | cons piece pieces ih =>
      rw [List.forall_mem_cons] at free
      rw [List.foldl_cons, ih _ free.2, isAbsolute_push free.1]

theorem counts_of_mem_countingPieces {path : Path} {piece : Path}
    (member : piece ∈ countingPieces path) : counts piece = true :=
  (List.mem_filter.mp member).2

theorem free_of_mem_countingPieces {path : Path} {piece : Path}
    (member : piece ∈ countingPieces path) : slash ∉ piece :=
  Text.not_mem_of_mem_fields (List.mem_filter.mp member).1

theorem isPiece_of_mem_countingPieces {path : Path} {piece : Path}
    (member : piece ∈ countingPieces path) : IsPiece piece where
  nonempty := by
    rintro rfl
    cases counts_of_mem_countingPieces member
  free := free_of_mem_countingPieces member

theorem filter_countingPieces (path : Path) :
    (countingPieces path).filter counts = countingPieces path :=
  List.filter_eq_self.mpr fun _ member => counts_of_mem_countingPieces member

theorem ne_root_of_ofPiece {piece : Path} {part : Component}
    (meant : Component.ofPiece? piece = some part) : part ≠ .root := by
  rw [Component.ofPiece?] at meant
  rintro rfl
  split at meant
  · cases meant
  split at meant
  · cases meant
  split at meant <;> cases meant

/-- The components that are put behind the current directory spell the pieces that count. -/
theorem map_spelling_components (path : Path) :
    ((components path).filter fun part => part ≠ .current && part ≠ .root).map Component.spelling =
      countingPieces path := by
  have kept : ((countingPieces path).filterMap Component.ofPiece?).filter
      (fun part => part ≠ .root) = (countingPieces path).filterMap Component.ofPiece? := by
    refine List.filter_eq_self.mpr fun part member => decide_eq_true ?_
    obtain ⟨piece, -, meant⟩ := List.mem_filterMap.mp member
    exact ne_root_of_ofPiece meant
  have parts : (components path).filter (fun part => part ≠ .current && part ≠ .root) =
      (countingPieces path).filterMap Component.ofPiece? := by
    have swapped : (fun part : Component => decide (part ≠ .current) && decide (part ≠ .root)) =
        fun part => decide (part ≠ .root) && decide (part ≠ .current) :=
      funext fun part => Bool.and_comm _ _
    rw [swapped, ← List.filter_filter, ← course, course_eq, List.filter_append, kept]
    split <;> rfl
  rw [parts, map_spelling_filterMap_ofPiece, decide_eq_counts, filter_countingPieces]

/-- The slashes in front of a path from the root.  Exactly two are kept as two. -/
def leading (path : Path) : Path :=
  if (path.takeWhile (· = slash)).length = 2 then [slash, slash] else [slash]

theorem leading_cases (path : Path) : leading path = [slash] ∨ leading path = [slash, slash] := by
  rw [leading]
  split
  · exact .inr rfl
  · exact .inl rfl

theorem eq_slash_of_mem_leading {path : Path} {byte : UInt8} (member : byte ∈ leading path) :
    byte = slash := by
  rcases leading_cases path with same | same <;> rw [same] at member <;> simpa using member

theorem leading_of_relative {path : Path} (relative : isAbsolute path = false) :
    leading path = [slash] := by
  cases path with
  | nil => rfl
  | cons byte rest =>
      have different : ¬byte = slash := by simpa [isAbsolute] using relative
      rw [leading, List.takeWhile_cons_of_neg (by simpa using different), if_neg (by decide)]

/-- A path begins with so many slashes. -/
theorem isPrefixOf_slashes (count : Nat) (path : Path) :
    (List.replicate count slash).isPrefixOf path =
      decide (count ≤ (path.takeWhile (· = slash)).length) := by
  induction path generalizing count with
  | nil => cases count <;> simp
  | cons byte path ih =>
      cases count with
      | zero => simp
      | succ count =>
          by_cases same : byte = slash
          · subst byte
            simp [List.replicate_succ, ih]
          · simp [List.replicate_succ, List.isPrefixOf, same, Ne.symm same]

/-- What a path is put behind that is made absolute. -/
theorem absolute_eq (here path : Path) : absolute here path =
    (countingPieces path).foldl push (if isAbsolute path then leading path else here) := by
  have slashes : (if [slash, slash].isPrefixOf path && !([slash, slash, slash].isPrefixOf path) then
      [slash, slash] else [slash]) = leading path := by
    have two := isPrefixOf_slashes 2 path
    have three := isPrefixOf_slashes 3 path
    simp only [List.replicate] at two three
    have exactly : ((path.takeWhile (· = slash)).length = 2) ↔
        2 ≤ (path.takeWhile (· = slash)).length ∧ ¬3 ≤ (path.takeWhile (· = slash)).length := by
      omega
    rw [leading, two, three]
    simp only [exactly, Bool.and_eq_true, decide_eq_true_iff, Bool.not_eq_true',
      decide_eq_false_iff_not]
  simp only [absolute, ← map_spelling_components path, List.foldl_map, slashes]

theorem isAbsolute_absolute {here : Path} (rooted : isAbsolute here = true) (path : Path) :
    isAbsolute (absolute here path) = true := by
  rw [absolute_eq, isAbsolute_foldl_push _ fun _ => free_of_mem_countingPieces]
  split
  · rcases leading_cases path with same | same <;> rw [same] <;> rfl
  · exact rooted

/-- The course of a path from the root is its own behind that of the current directory. -/
theorem countingPieces_absolute (here path : Path) :
    countingPieces (absolute here path) =
      (if isAbsolute path then [] else countingPieces here) ++ countingPieces path := by
  have bare : countingPieces (leading path) = [] := by
    rcases leading_cases path with same | same <;> rw [same] <;> rfl
  rw [absolute_eq, countingPieces_foldl_push _ fun _ => free_of_mem_countingPieces,
    filter_countingPieces]
  split
  · rw [bare]
  · rfl

/-- A path from the root has the bytes of the path, and those of the current directory if the
path is relative. -/
theorem mem_absolute_iff {here path : Path} {byte : UInt8} (notSlash : byte ≠ slash)
    (notDot : byte ≠ dot) :
    byte ∈ absolute here path ↔ byte ∈ path ∨ (isAbsolute path = false ∧ byte ∈ here) := by
  have inPath := @mem_iff_of_counts path byte notSlash notDot
  have inHere := @mem_iff_of_counts here byte notSlash notDot
  rw [mem_iff_of_counts notSlash notDot, countingPieces_absolute, inPath, inHere]
  cases isAbsolute path with
  | true => simp
  | false =>
      simp only [Bool.false_eq_true, if_false, List.mem_append, true_and, or_and_right, exists_or]
      exact or_comm

/-- The name that the last component is, if its piece is not `..`. -/
theorem name_of_ofPiece {piece : Path} {part : Component}
    (meant : Component.ofPiece? piece = some part) :
    part.spelling = piece ∧
      (match some part with
        | some (.name spelling) => some spelling
        | _ => none) = (some piece).filter fun piece => piece ≠ [dot, dot] := by
  rw [Component.ofPiece?] at meant
  split at meant
  · cases meant
  split at meant
  · cases meant
  split at meant
  · next parent =>
      cases meant
      subst piece
      exact ⟨rfl, rfl⟩
  · next name =>
      cases meant
      refine ⟨rfl, ?_⟩
      rw [Option.filter_some, decide_eq_true name]
      rfl

/-- The file name of a path is the last of its pieces that count, unless that is `..`. -/
theorem fileName_eq (path : Path) :
    fileName path = (countingPieces path).getLast?.filter fun piece => piece ≠ [dot, dot] := by
  by_cases empty : path = []
  · subst path
    rfl
  cases cut : Text.fields slash path with
  | nil => exact absurd cut (Text.fields_ne_nil path)
  | cons head pieces =>
      have spelled := map_spelling_filterMap_ofPiece pieces
      rw [decide_eq_counts] at spelled
      rw [fileName, components_of_fields empty cut, countingPieces, cut, List.filter_cons]
      by_cases none : pieces.filterMap Component.ofPiece? = []
      · rw [none, List.map_nil] at spelled
        rw [none, ← spelled, List.append_nil]
        by_cases first : head = []
        · subst head
          rfl
        by_cases current : head = [dot]
        · subst head
          rfl
        have counting : counts head = true := by simp [counts, first, current]
        obtain ⟨part, meant⟩ := Option.isSome_iff_exists.mp ((ofPiece?_isSome head).trans counting)
        rw [if_neg first, if_neg current, if_pos counting, meant]
        exact (name_of_ofPiece meant).2
      · obtain ⟨front, part, some⟩ := Text.exists_concat none
        have among : part ∈ pieces.filterMap Component.ofPiece? := some ▸ List.mem_concat_self
        obtain ⟨piece, -, meant⟩ := List.mem_filterMap.mp among
        obtain ⟨same, named⟩ := name_of_ofPiece meant
        rw [some, List.map_append, List.map_singleton, same] at spelled
        rw [some, ← List.append_assoc, List.getLast?_concat, ← spelled]
        refine named.trans (congrArg _ ?_)
        split
        · rw [← List.cons_append, List.getLast?_concat]
        · rw [List.getLast?_concat]
/-- The file name of a path is one of its pieces. -/
theorem mem_countingPieces_of_fileName {path : Path} {name : Path}
    (named : fileName path = some name) : name ∈ countingPieces path := by
  rw [fileName_eq, Option.filter_eq_some_iff] at named
  exact List.mem_of_getLast? named.1

end Path

namespace Location

/-- All names of a location count. -/
theorem countingPieces_path (location : Location) :
    Path.countingPieces location.path = location.map FileName.bytes := by
  by_cases empty : location = []
  · subst location
    rfl
  · have nonempty : location.map FileName.bytes ≠ [] :=
      fun same => empty (List.map_eq_nil_iff.mp same)
    have counting := List.filter_eq_self.mpr fun piece member =>
      Path.counts_of_plain (location.plain_of_mem piece member)
    rw [Path.countingPieces, path_eq_rooted, Path.fields_rooted nonempty plain_of_mem,
      List.filter_cons, counting]
    rfl

/-- A name behind a path that is made absolute: the root, the names of the current directory if the
path is relative, the pieces of the path that count, and the name. -/
theorem push_absolute_path (here : Location) (path : Path) {name : Path}
    (plain : Path.IsPlain name) :
    Path.push (Path.absolute here.path path) name =
      Path.leading path ++ Text.joinWith Path.slash
        ((if Path.isAbsolute path then [] else here.map FileName.bytes) ++
          (Path.countingPieces path ++ [name])) := by
  have base : (if Path.isAbsolute path then Path.leading path else here.path) =
      Path.leading path ++ Text.joinWith Path.slash
        (if Path.isAbsolute path then [] else here.map FileName.bytes) := by
    cases begins : Path.isAbsolute path with
    | true => exact (List.append_nil _).symm
    | false => rw [Path.leading_of_relative begins]; rfl
  have fit : forall piece,
      piece ∈ (if Path.isAbsolute path then [] else here.map FileName.bytes) ->
        Path.IsPiece piece := by
    intro piece member
    split at member
    · exact absurd member List.not_mem_nil
    · exact (plain_of_mem piece member).toIsPiece
  have moreFit : forall piece, piece ∈ Path.countingPieces path ++ [name] ->
      Path.IsPiece piece := by
    intro piece member
    rcases List.mem_append.mp member with among | last
    · exact Path.isPiece_of_mem_countingPieces among
    · exact List.mem_singleton.mp last ▸ plain.toIsPiece
  rw [Path.absolute_eq, base, ← Path.foldl_push_joinWith
    (fun _ => Path.eq_slash_of_mem_leading) fit moreFit, List.foldl_append]
  rfl

end Location
end BuildInputs

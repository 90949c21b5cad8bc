import BuildInputs.Proofs.Path.Absolute

namespace BuildInputs
namespace Path

/-!
# Clean spellings

Putting the course of a path together again gives a spelling of the same path in which one slash
stands between any two pieces and nothing that does not count.  This spelling can be read as a path
once more, and then it has the course that it was made from.  So cleaning loses nothing about a path
but its spelling.
-/

/-- A clean spelling is the pieces that count, pushed onto the root or onto nothing. -/
theorem ofComponents_course (path : Path) :
    ofComponents (course path) =
      (countingPieces path).foldl push (if isAbsolute path then [slash] else []) := by
  have spelled : (course path).map Component.spelling =
      (if isAbsolute path then [[slash]] else []) ++ countingPieces path := by
    rw [course_eq, List.map_append, map_spelling_filterMap_ofPiece, decide_eq_counts,
      filter_countingPieces]
    split <;> rfl
  rw [ofComponents, ← List.foldl_map, spelled, List.foldl_append]
  split <;> rfl

/-- A clean spelling has the course of the path that was cleaned. -/
theorem course_ofComponents_course (path : Path) :
    course (ofComponents (course path)) = course path := by
  have free : forall piece, piece ∈ countingPieces path -> slash ∉ piece :=
    fun _ => free_of_mem_countingPieces
  have begins : isAbsolute (if isAbsolute path then [slash] else []) = isAbsolute path := by
    cases isAbsolute path <;> rfl
  have bare : countingPieces (if isAbsolute path then [slash] else []) = [] := by
    split <;> rfl
  have absolute : isAbsolute (ofComponents (course path)) = isAbsolute path := by
    rw [ofComponents_course, isAbsolute_foldl_push _ free, begins]
  have counting : countingPieces (ofComponents (course path)) = countingPieces path := by
    rw [ofComponents_course, countingPieces_foldl_push _ free, bare, List.nil_append,
      filter_countingPieces]
  rw [course_eq, absolute, counting, ← course_eq]

example : ofComponents (course (ofText "./alias//.".toList)) = ofText "alias".toList ∧
    course (ofText "alias".toList) = course (ofText "./alias//.".toList) := by
  decide

end Path
end BuildInputs

import BuildInputs.GoProxy
import BuildInputs.Proofs.Text.Fields

namespace BuildInputs
namespace GoProxy

/-!
# Which lines are dropped

The lines are gone through with a flag in hand, which says whether a block is open.  Whether a
line is dropped can be said without the flag, by looking back from the line.  Most lines leave the
flag as it is.  Those that do not settle it alone, whatever stood before them: a line that opens a
block, and a line at the top level that does not set the proxy there.  So the last such line in
front of a line decides.

No line that is dropped settles anything.  The lines that stay therefore give each other the same
flags as before, and going through them once more drops nothing.
-/

/-- Whether a line settles on its own if a block is open after it. -/
def settles (line : Text) : Bool :=
  opensBlock line || (!isIndented line && !isTopLevelProxy line)

/-- Whether lines leave a block open.  Going back from their end, the first line that settles the
matter is the one that counts. -/
def leavesOpen (before : List Text) : Bool :=
  (before.reverse.find? settles).any opensBlock

/-- Whether a line is dropped, inside a block or outside. -/
def goes (inBlock : Bool) (line : Text) : Bool :=
  isTopLevelProxy line || (isIndented line && isBlockProxy line && inBlock)

/-- Whether a line is dropped where it stands behind some others. -/
def isDropped (before : List Text) (line : Text) : Bool :=
  goes (leavesOpen before) line

/-- The lines that are not dropped, each as it is. -/
def linesLeft (lines : List Text) : List Text :=
  (lines.zipIdx.filter fun entry => !isDropped (lines.take entry.2) entry.1).map Prod.fst

/-! ## One line -/

/-- Whether a block is open after a line. -/
def openAfter (inBlock : Bool) (line : Text) : Bool :=
  if settles line then opensBlock line else inBlock

/-- A line begins with one of two keys only if neither begins with the other. -/
theorem not_beginsWith {key other line : Text} (apart : ¬key <+: other) (across : ¬other <+: key)
    (begins : beginsWith key line = true) : beginsWith other line = false := by
  apply Bool.eq_false_iff.mpr
  intro also
  rw [beginsWith, List.isPrefixOf_iff_prefix] at begins also
  exact (List.prefix_or_prefix_of_prefix begins also).elim apart across

theorem opensBlock_of_isTopLevelProxy {line : Text} (proxy : isTopLevelProxy line = true) :
    opensBlock line = false :=
  not_beginsWith (by decide) (by decide) proxy

theorem isBlockProxy_of_opensBlock {line : Text} (opening : opensBlock line = true) :
    isBlockProxy line = false :=
  not_beginsWith (by decide) (by decide) opening

/-- A line that is dropped settles nothing. -/
theorem openAfter_of_goes {inBlock : Bool} {line : Text} (gone : goes inBlock line = true) :
    openAfter inBlock line = inBlock := by
  have unsettled : settles line = false := by
    rw [goes, Bool.or_eq_true, Bool.and_eq_true, Bool.and_eq_true] at gone
    rw [settles]
    rcases gone with proxy | ⟨⟨indented, proxy⟩, -⟩
    · rw [opensBlock_of_isTopLevelProxy proxy, proxy, Bool.not_true, Bool.and_false]
      rfl
    · have notOpening : opensBlock line = false := by
        apply Bool.eq_false_iff.mpr
        intro opening
        rw [isBlockProxy_of_opensBlock opening] at proxy
        cases proxy
      rw [notOpening, indented]
      rfl
  rw [openAfter, unsettled]
  rfl

/-- The first line is dropped or stays, and passes the flag on to the others. -/
theorem keep_cons (inBlock : Bool) (line : Text) (lines : List Text) :
    keep inBlock (line :: lines) =
      (if goes inBlock line then [] else [line]) ++ keep (openAfter inBlock line) lines := by
  rw [keep]
  by_cases proxy : isTopLevelProxy line = true
  · have gone : goes inBlock line = true := by
      rw [goes, proxy]
      rfl
    rw [if_pos proxy, if_pos gone, openAfter_of_goes gone, List.nil_append]
  rw [if_neg proxy]
  rw [Bool.not_eq_true] at proxy
  by_cases opening : opensBlock line = true
  · have stays : goes inBlock line = false := by
      rw [goes, proxy, isBlockProxy_of_opensBlock opening, Bool.and_false]
      rfl
    rw [if_pos opening, stays, openAfter, settles, opening]
    rfl
  rw [if_neg opening]
  rw [Bool.not_eq_true] at opening
  cases indented : isIndented line <;> cases inBlock <;> cases setting : isBlockProxy line <;>
    simp [goes, openAfter, settles, proxy, opening, indented, setting]

/-! ## Looking back -/

theorem leavesOpen_nil : leavesOpen [] = false :=
  rfl

theorem leavesOpen_concat (before : List Text) (line : Text) :
    leavesOpen (before ++ [line]) = openAfter (leavesOpen before) line := by
  rw [leavesOpen, List.reverse_append, List.reverse_singleton, List.singleton_append,
    List.find?_cons, openAfter]
  cases settles line <;> rfl

/-- A block is left open by a line that opens it and by no line behind that one that would close it
or open another. -/
theorem leavesOpen_iff {before : List Text} :
    leavesOpen before = true ↔ exists front opening between,
      before = front ++ opening :: between ∧ opensBlock opening = true ∧
        forall other, other ∈ between ->
          opensBlock other = false ∧ (isIndented other = true ∨ isTopLevelProxy other = true) := by
  have unsettled : forall other : Text, settles other = false ↔
      opensBlock other = false ∧ (isIndented other = true ∨ isTopLevelProxy other = true) := by
    intro other
    rw [settles, Bool.or_eq_false_iff, Bool.and_eq_false_iff, Bool.not_eq_false',
      Bool.not_eq_false']
  rw [leavesOpen, Option.any_eq_true]
  constructor
  · rintro ⟨opening, found, opens⟩
    obtain ⟨-, behind, front, reversed, free⟩ := List.find?_eq_some_iff_append.mp found
    refine ⟨front.reverse, opening, behind.reverse, ?_, opens, fun other member => ?_⟩
    · rw [← List.reverse_reverse before, reversed, List.reverse_append, List.reverse_cons,
        List.append_assoc, List.singleton_append]
    · apply (unsettled other).mp
      simpa using free other (List.mem_reverse.mp member)
  · rintro ⟨front, opening, between, rfl, opens, free⟩
    refine ⟨opening, List.find?_eq_some_iff_append.mpr ⟨?_, between.reverse, front.reverse, ?_, ?_⟩,
      opens⟩
    · rw [settles, opens]
      rfl
    · rw [List.reverse_append, List.reverse_cons, List.append_assoc, List.singleton_append]
    · intro other member
      rw [(unsettled other).mpr (free other (List.mem_reverse.mp member))]
      rfl

/-! ## All lines -/

/-- The flag that is in hand at a line says what the lines before it leave. -/
theorem keep_behind (before after : List Text) :
    keep (leavesOpen before) after =
      ((after.zipIdx before.length).filter fun entry =>
        !isDropped ((before ++ after).take entry.2) entry.1).map Prod.fst := by
  induction after generalizing before with
  | nil => rfl
  | cons line after ih =>
      have others := ih (before ++ [line])
      rw [leavesOpen_concat, List.length_append, List.length_singleton, List.append_assoc,
        List.singleton_append] at others
      rw [keep_cons, others, List.zipIdx_cons, List.filter_cons, List.take_left, isDropped]
      split <;> simp_all

theorem keep_eq_linesLeft (lines : List Text) : keep false lines = linesLeft lines :=
  keep_behind [] lines

/-- Going through the lines that stay drops nothing. -/
theorem keep_keep (inBlock : Bool) (lines : List Text) :
    keep inBlock (keep inBlock lines) = keep inBlock lines := by
  induction lines generalizing inBlock with
  | nil => rfl
  | cons line lines ih =>
      rw [keep_cons]
      by_cases gone : goes inBlock line = true
      · rw [if_pos gone, List.nil_append, openAfter_of_goes gone, ih]
      · rw [if_neg gone, List.singleton_append, keep_cons, if_neg gone, List.singleton_append, ih]

theorem linesLeft_sublist (lines : List Text) : (linesLeft lines).Sublist lines := by
  have among : (linesLeft lines).Sublist (lines.zipIdx.map Prod.fst) :=
    List.filter_sublist.map Prod.fst
  rwa [List.zipIdx_map_fst] at among

/-- Where every line is left, none is dropped. -/
theorem not_isDropped_of_linesLeft {before after : List Text} {line : Text}
    (all : linesLeft (before ++ line :: after) = before ++ line :: after) :
    isDropped before line = false := by
  have length := congrArg List.length all
  rw [linesLeft, List.length_map] at length
  have stay := List.length_filter_eq_length_iff.mp (length.trans List.length_zipIdx.symm)
  have stays := stay (line, before.length) (List.mem_zipIdx_iff_getElem?.mpr (by simp))
  rw [List.take_left] at stays
  simpa using stays

/-! ## The text -/

/-- The lines of the result are the lines that stay, or one empty line if none does. -/
theorem fields_drop (content : Text) :
    Text.fields '\n' (drop content) = keep false (Text.fields '\n' content) ∨
      Text.fields '\n' (drop content) = [[]] := by
  by_cases none : keep false (Text.fields '\n' content) = []
  · rw [drop, none]
    exact Or.inr rfl
  · refine Or.inl (Text.fields_joinWith none fun line member => ?_)
    rw [keep_eq_linesLeft] at member
    exact Text.not_mem_of_mem_fields ((linesLeft_sublist _).subset member)

theorem keep_fields_drop (content : Text) :
    keep false (Text.fields '\n' (drop content)) = Text.fields '\n' (drop content) := by
  rcases fields_drop content with lines | lines
  · rw [lines, keep_keep]
  · rw [lines]
    rfl

theorem drop_drop (content : Text) : drop (drop content) = drop content := by
  rw [drop, keep_fields_drop, Text.joinWith_fields]

/-- Dropping keeps lines as they are and in order.  A line is dropped if it sets the proxy of the
top level, indented or not, or if it is indented, sets the proxy of a block and stands behind a line
that opens one, with lines between them that leave the block open.  The result has no more lines to
drop, although the lines around a dropped one have become neighbours. -/
theorem drop_by_looking_back (content : Text) :
    drop content = Text.joinWith '\n' (linesLeft (Text.fields '\n' content)) ∧
      (linesLeft (Text.fields '\n' content)).Sublist (Text.fields '\n' content) ∧
      (forall before line, isDropped before line = true ↔
        beginsWith "goproxy_url:".toList line = true ∨
          isIndented line = true ∧ beginsWith "proxy_url:".toList line = true ∧
            exists front opening between, before = front ++ opening :: between ∧
              beginsWith "gomod:".toList opening = true ∧
                forall other, other ∈ between -> beginsWith "gomod:".toList other = false ∧
                  (isIndented other = true ∨ beginsWith "goproxy_url:".toList other = true)) ∧
      drop (drop content) = drop content ∧
      (forall before line after, Text.fields '\n' (drop content) = before ++ line :: after ->
        isDropped before line = false) := by
  refine ⟨?_, linesLeft_sublist _, fun before line => ?_, drop_drop content, ?_⟩
  · rw [drop, keep_eq_linesLeft]
  · rw [isDropped, goes, Bool.or_eq_true, Bool.and_eq_true, Bool.and_eq_true, leavesOpen_iff,
      and_assoc]
    rfl
  · intro before line after lines
    have all : linesLeft (before ++ line :: after) = before ++ line :: after := by
      rw [← keep_eq_linesLeft, ← lines, keep_fields_drop]
    exact not_isDropped_of_linesLeft all

end GoProxy
end BuildInputs

import BuildInputs.Proofs.GoProxy.Lines

namespace BuildInputs
namespace GoProxy

/-!
# What lies in a block

A block lasts as long as lines are indented, however deep the line that opens it is indented
itself.  So a proxy is dropped only below a line that opens a block, with nothing at the top level
between the two but lines that are dropped.  For a block that is opened at the top level this is
nesting.  A block that is opened deeper also takes in what stands beside its opening line, and
what follows less deep.
-/

/-- The number of spaces and tabs that a line begins with. -/
def depth (line : Text) : Nat :=
  (line.takeWhile fun letter => letter = ' ' || letter = '\t').length

theorem depth_pos_iff {line : Text} : 0 < depth line ↔ isIndented line = true := by
  cases line with
  | nil => decide
  | cons letter rest =>
      rw [depth, isIndented, List.takeWhile_cons, List.head?_cons]
      by_cases blank : (letter = ' ' || letter = '\t') = true
      · simp [blank]
      · simp [blank]

/-- A line lies deeper than some depth, and so does every line in between, apart from lines at the
top level that set the proxy there. -/
structure LiesBelow (base : Nat) (between : List Text) (line : Text) : Prop where
  deeper : base < depth line
  between : forall other, other ∈ between ->
    base < depth other ∨ (isTopLevelProxy other = true ∧ depth other = 0)

/-! ## Where a block is open -/

/-- A block stays open as long as no line closes it. -/
theorem leavesOpen_append {front between : List Text} (opened : leavesOpen front = true)
    (unclosed : forall other, other ∈ between -> settles other = true -> opensBlock other = true) :
    leavesOpen (front ++ between) = true := by
  induction between generalizing front with
  | nil => rwa [List.append_nil]
  | cons line between ih =>
      rw [List.forall_mem_cons] at unclosed
      rw [← List.singleton_append, ← List.append_assoc]
      refine ih ?_ unclosed.2
      rw [leavesOpen_concat, openAfter]
      split
      · next settled => exact unclosed.1 settled
      · exact opened

/-- A line that is indented, or sets the proxy at the top level, closes no block. -/
theorem opensBlock_of_settles {line : Text} (settled : settles line = true)
    (unclosing : 0 < depth line ∨ (isTopLevelProxy line = true ∧ depth line = 0)) :
    opensBlock line = true := by
  rw [settles, Bool.or_eq_true, Bool.and_eq_true, Bool.not_eq_true', Bool.not_eq_true'] at settled
  rcases settled with opens | ⟨top, other⟩
  · exact opens
  rcases unclosing with deep | ⟨proxy, -⟩
  · rw [depth_pos_iff.mp deep] at top
    cases top
  · rw [proxy] at other
    cases other

/-- For an indented line a block is open exactly if the line lies below the top level behind a line
that opens one. -/
theorem leavesOpen_iff_liesBelow {before : List Text} {line : Text}
    (indented : isIndented line = true) :
    leavesOpen before = true ↔ exists front opening between,
      before = front ++ opening :: between ∧ opensBlock opening = true ∧
        LiesBelow 0 between line := by
  constructor
  · intro opened
    obtain ⟨front, opening, between, whole, opens, inside⟩ := leavesOpen_iff.mp opened
    refine ⟨front, opening, between, whole, opens, depth_pos_iff.mpr indented, ?_⟩
    intro other member
    rcases Nat.eq_zero_or_pos (depth other) with top | deep
    · refine Or.inr ⟨(inside other member).2.resolve_left fun indented => ?_, top⟩
      exact Nat.ne_of_gt (depth_pos_iff.mpr indented) top
    · exact Or.inl deep
  · rintro ⟨front, opening, between, rfl, opens, below⟩
    rw [← List.singleton_append, ← List.append_assoc]
    refine leavesOpen_append ?_ fun other member settled =>
      opensBlock_of_settles settled (below.between other member)
    rw [leavesOpen_concat, openAfter, settles, opens]
    rfl

/-! ## What becomes of a line -/

/-- What becomes of a line of a text.  The part that it leaves is the line or nothing, and stands
behind what stays of the lines in front of it, whatever follows. -/
structure Becomes (content : Text) (before : List Text) (line : Text) (part : List Text) :
    Prop where
  lineOrNothing : part = [line] ∨ part = []
  upToHere : keep false (before ++ [line]) = keep false before ++ part
  inText : exists rest, drop content = Text.joinWith '\n' (keep false before ++ part ++ rest)

/-- What stays of lines is what stays of the first of them, and what stays of the others behind
these. -/
theorem keep_append (front before after : List Text) :
    keep (leavesOpen front) (before ++ after) =
      keep (leavesOpen front) before ++ keep (leavesOpen (front ++ before)) after := by
  induction before generalizing front with
  | nil => rw [List.append_nil]; rfl
  | cons line before ih =>
      have others := ih (front ++ [line])
      rw [leavesOpen_concat, List.append_assoc, List.singleton_append] at others
      rw [List.cons_append, keep_cons, others, keep_cons, List.append_assoc]

theorem becomes_of_cut {content : Text} {before after : List Text} {line : Text}
    (cut : Text.fields '\n' content = before ++ line :: after) :
    Becomes content before line (if isDropped before line then [] else [line]) := by
  have here : forall others, keep false (before ++ line :: others) = keep false before ++
      ((if isDropped before line then [] else [line]) ++
        keep (openAfter (leavesOpen before) line) others) := by
    intro others
    rw [← leavesOpen_nil, keep_append, List.nil_append, keep_cons, isDropped]
  refine ⟨?_, ?_, keep (openAfter (leavesOpen before) line) after, ?_⟩
  · split
    · exact Or.inr rfl
    · exact Or.inl rfl
  · rw [here []]
    exact congrArg _ (List.append_nil _)
  · rw [drop, cut, here after, List.append_assoc]

/-- Among the lines that do not set the proxy of the top level, the ones that are dropped set the
proxy of a block and lie in one. -/
theorem isDropped_iff_liesBelow {before : List Text} {line : Text}
    (other : isTopLevelProxy line = false) :
    isDropped before line = true ↔ isBlockProxy line = true ∧ exists front opening between,
      before = front ++ opening :: between ∧ opensBlock opening = true ∧
        LiesBelow 0 between line := by
  rw [isDropped, goes, other, Bool.false_or, Bool.and_eq_true, Bool.and_eq_true]
  constructor
  · rintro ⟨⟨indented, proxy⟩, opened⟩
    exact ⟨proxy, (leavesOpen_iff_liesBelow indented).mp opened⟩
  · rintro ⟨proxy, front, opening, between, whole, opens, below⟩
    have indented := depth_pos_iff.mp below.deeper
    exact ⟨⟨indented, proxy⟩, (leavesOpen_iff_liesBelow indented).mpr
      ⟨front, opening, between, whole, opens, below⟩⟩

/-- Dropping spares other settings.  Of the lines that do not set the proxy of the top level, one is
dropped exactly if it sets the proxy of a block and lies below the top level behind a line that
opens a block; every other one stays.  At the top level the proxy is dropped. -/
theorem drop_spares_settings {content : Text} {before after : List Text} {line : Text}
    (cut : Text.fields '\n' content = before ++ line :: after) :
    exists part, Becomes content before line part ∧
      (isTopLevelProxy line = true -> depth line = 0 -> part = []) ∧
      (isTopLevelProxy line = false ->
        (part = [] ↔ isBlockProxy line = true ∧ exists front opening between,
          before = front ++ opening :: between ∧ opensBlock opening = true ∧
            LiesBelow 0 between line)) := by
  refine ⟨_, becomes_of_cut cut, fun proxy _ => ?_, fun other => ?_⟩
  · rw [isDropped, goes, proxy]
    rfl
  · rw [← isDropped_iff_liesBelow other]
    cases isDropped before line <;> simp

/-- A line at the top level that is dropped does not end the block, so the one behind it is dropped
as well. -/
theorem drop_spares_settings_across :
    Text.fields '\n' "gomod:\ngoproxy_url: g\n\tproxy_url: p\n".toList =
        ["gomod:".toList, "goproxy_url: g".toList] ++ "\tproxy_url: p".toList :: [[]] ∧
      isTopLevelProxy "\tproxy_url: p".toList = false ∧
      LiesBelow 0 ["goproxy_url: g".toList] "\tproxy_url: p".toList ∧
      Becomes "gomod:\ngoproxy_url: g\n\tproxy_url: p\n".toList
        ["gomod:".toList, "goproxy_url: g".toList] "\tproxy_url: p".toList [] := by
  have cut : Text.fields '\n' "gomod:\ngoproxy_url: g\n\tproxy_url: p\n".toList =
      ["gomod:".toList, "goproxy_url: g".toList] ++ "\tproxy_url: p".toList :: [[]] := by
    decide
  have other : isTopLevelProxy "\tproxy_url: p".toList = false := by decide
  have below : LiesBelow 0 ["goproxy_url: g".toList] "\tproxy_url: p".toList :=
    ⟨by decide, List.forall_mem_singleton.mpr (.inr (by decide))⟩
  obtain ⟨part, becomes, -, spared⟩ := drop_spares_settings cut
  have dropped : part = [] :=
    (spared other).mpr ⟨by decide, [], "gomod:".toList, _, rfl, by decide, below⟩
  exact ⟨cut, other, below, dropped ▸ becomes⟩

/-- A section with a block in it, and the proxy of the section behind the block. -/
def nestedBlock : List Text :=
  ["pip:".toList, "  gomod:".toList, "    x: 1".toList]

def sectionProxy : Text :=
  "  proxy_url: p".toList

/-- The proxy of a section is dropped although it lies no deeper than the only line that opens a
block. -/
theorem drop_takes_sibling :
    drop (Text.joinWith '\n' (nestedBlock ++ [sectionProxy])) = Text.joinWith '\n' nestedBlock ∧
      isBlockProxy sectionProxy = true ∧ isTopLevelProxy sectionProxy = false ∧
      ¬exists front opening between, nestedBlock = front ++ opening :: between ∧
        opensBlock opening = true ∧ LiesBelow (depth opening) between sectionProxy := by
  refine ⟨by decide, by decide, by decide, ?_⟩
  rintro ⟨front, opening, between, whole, opens, below⟩
  have only : forall line, line ∈ nestedBlock -> opensBlock line = true ->
      ¬depth line < depth sectionProxy := by
    decide
  have member : opening ∈ nestedBlock := whole ▸ List.mem_append_right front List.mem_cons_self
  exact only opening member opens below.deeper

end GoProxy
end BuildInputs

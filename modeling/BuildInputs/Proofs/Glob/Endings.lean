import BuildInputs.Proofs.FileSystem.Directories
import BuildInputs.Proofs.Glob.Literals
import BuildInputs.Proofs.Path.Shown

namespace BuildInputs
namespace Glob

open BuildInputs.Path

/-!
# Names with an ending in one directory

A pattern may be the path of a directory with a star and an ending behind it.  As long as no
character of the path means anything else, each of its components is looked up by name, and the star
finds those entries of the directory that are texts and have the ending.  So the search looks into
no other directory.

It does not always arrive in this one.  In the current directory an empty component, between two
slashes, is looked up as the empty path, and nothing is there.  This happens to a path that begins
with `./` and goes on with another slash, and to no other.
-/

/-- Whether a path begins with `./`, once or more often, and goes on with another slash. -/
def doublesHere : Path -> Bool
  | dot :: slash :: rest => rest.head? = some slash || doublesHere rest
  | _ => false

/-- A path as a directory is asked for.  The empty one stands for the current directory. -/
def orHere (path : Path) : Path :=
  if path = [] then [dot] else path

/-- Where the search for a path begins. -/
def origin (path : Path) : Path :=
  if isAbsolute path then [slash] else [dot]

/-- The components that are looked up in front of a last one. -/
def lookups (path : Path) : List Path :=
  stem (if isAbsolute path then path.drop 1 else path)

/-- The path that is reached by looking up components one after the other. -/
def follow (path : Path) (pieces : List Path) : Path :=
  pieces.foldl entryPath path

/-- The path at which the search for the entries of a directory arrives, if it does. -/
def reached (path : Path) : Path :=
  follow (origin path) (lookups path)

/-- No component is looked up as the empty path. -/
def NeverEmpty : Path -> List Path -> Prop
  | _, [] => True
  | path, piece :: pieces => entryPath path piece ≠ [] ∧ NeverEmpty (entryPath path piece) pieces

section

variable {path : Path} {piece : Path} {pieces : List Path}

theorem isHere_iff (nonempty : path ≠ []) :
    isHere path = true ↔ isAbsolute path = false ∧ countingPieces path = [] := by
  rw [isHere, decide_eq_true_iff, components_eq_current_iff nonempty]

theorem entryPath_eq_nil_iff (nonempty : path ≠ []) (free : slash ∉ piece) :
    entryPath path piece = [] ↔ isHere path = true ∧ piece = [] := by
  rw [entryPath]
  by_cases here : isHere path = true
  · rw [if_pos here]
    exact ⟨fun empty => ⟨here, empty⟩, And.right⟩
  · rw [if_neg here]
    exact iff_of_false (push_ne_nil nonempty free) fun both => here both.1

/-- Looking up a component adds it to the course. -/
theorem course_entryPath (nonempty : path ≠ []) (free : slash ∉ piece) :
    isAbsolute (entryPath path piece) = isAbsolute path ∧
      countingPieces (entryPath path piece) = countingPieces path ++ [piece].filter counts := by
  rw [entryPath]
  by_cases here : isHere path = true
  · obtain ⟨relative, none⟩ := (isHere_iff nonempty).mp here
    rw [if_pos here, relative, none, isAbsolute_of_free free, countingPieces,
      Text.fields_of_free free]
    exact ⟨rfl, rfl⟩
  · rw [if_neg here]
    exact ⟨isAbsolute_push free, countingPieces_push free⟩

theorem course_entryPath_plain {name : Path} (nonempty : path ≠ []) (plain : IsPlain name) :
    course (entryPath path name) = course path ++ [.name name] := by
  obtain ⟨absolute, counting⟩ := course_entryPath nonempty plain.free
  rw [course_eq, course_eq, absolute, counting, List.filterMap_append,
    filterMap_counts_plain plain, List.append_assoc]

theorem course_follow (nonempty : path ≠ [])
    (free : forall piece, piece ∈ pieces -> slash ∉ piece) (never : NeverEmpty path pieces) :
    follow path pieces ≠ [] ∧ isAbsolute (follow path pieces) = isAbsolute path ∧
      countingPieces (follow path pieces) = countingPieces path ++ pieces.filter counts := by
  induction pieces generalizing path with
  | nil => exact ⟨nonempty, rfl, (List.append_nil _).symm⟩
  | cons piece pieces ih =>
      rw [List.forall_mem_cons] at free
      obtain ⟨absolute, counting⟩ := course_entryPath nonempty free.1
      obtain ⟨more, sameRoot, further⟩ := ih never.1 free.2 never.2
      refine ⟨more, sameRoot.trans absolute, further.trans ?_⟩
      rw [counting, List.append_assoc, ← List.filter_append, List.singleton_append]

/-- Only the current directory is left by an empty component. -/
theorem neverEmpty_of_not_isHere (nonempty : path ≠ []) (elsewhere : isHere path = false)
    (free : forall piece, piece ∈ pieces -> slash ∉ piece) : NeverEmpty path pieces := by
  induction pieces generalizing path with
  | nil => trivial
  | cons piece pieces ih =>
      rw [List.forall_mem_cons] at free
      have named : entryPath path piece ≠ [] := by
        rw [Ne, entryPath_eq_nil_iff nonempty free.1, elsewhere]
        exact fun both => Bool.false_ne_true both.1
      obtain ⟨absolute, counting⟩ := course_entryPath nonempty free.1
      refine ⟨named, ih named (Bool.eq_false_iff.mpr fun here => ?_) free.2⟩
      rw [isHere_iff named, absolute, counting, List.append_eq_nil_iff] at here
      rw [(isHere_iff nonempty).mpr ⟨here.1, here.2.1⟩] at elsewhere
      cases elsewhere

/-! ## Paths that are lost -/

theorem neverEmpty_dot {pieces : List Path} :
    NeverEmpty [dot] ([dot] :: pieces) ↔ NeverEmpty [dot] pieces := by
  have stays : entryPath [dot] [dot] = [dot] := by rfl
  rw [NeverEmpty, stays]
  exact and_iff_right (List.cons_ne_nil _ _)

theorem neverEmpty_of_counts {piece : Path} {pieces : List Path} (counting : counts piece = true)
    (free : forall other, other ∈ piece :: pieces -> slash ∉ other) :
    NeverEmpty [dot] (piece :: pieces) := by
  rw [List.forall_mem_cons] at free
  have named : piece ≠ [] := by
    rintro rfl
    cases counting
  have alone : entryPath [dot] piece = piece := if_pos rfl
  have elsewhere : isHere piece = false := by
    rw [Bool.eq_false_iff, Ne, isHere_iff named, countingPieces, Text.fields_of_free free.1]
    simp [counting]
  rw [NeverEmpty, alone]
  exact ⟨named, neverEmpty_of_not_isHere named elsewhere free.2⟩

/-- A relative path is lost in the current directory exactly if it begins with `./` and then has
one slash too many. -/
theorem neverEmpty_relative {path : Path} (relative : isAbsolute path = false) :
    NeverEmpty [dot] (stem path) ↔ doublesHere path = false := by
  fun_induction doublesHere path with
  | case1 rest ih =>
      have cut : stem (dot :: slash :: rest) = [dot] :: stem rest :=
        stem_append_slash (show slash ∉ [dot] by decide) rest
      change NeverEmpty [dot] (stem (dot :: slash :: rest)) ↔ _
      rw [cut, neverEmpty_dot, Bool.or_eq_false_iff]
      cases doubled : decide (rest.head? = some slash) with
      | false => exact (ih doubled).trans (and_iff_right rfl).symm
      | true =>
          obtain ⟨more, rfl⟩ := List.head?_eq_some_iff.mp (of_decide_eq_true doubled)
          have lost : stem (slash :: more) = [] :: stem more :=
            stem_append_slash List.not_mem_nil more
          rw [lost]
          exact iff_of_false (fun never => never.1 rfl) nofun
  | case2 path other =>
      apply iff_of_true _ rfl
      rcases push_cases path with ⟨-, none, -⟩ | ⟨front, nonempty, some, spelled, -⟩
      · rw [none]
        trivial
      cases cut : Text.fields slash front with
      | nil => exact absurd cut (Text.fields_ne_nil front)
      | cons first pieces =>
          rw [some, cut]
          have free : forall piece, piece ∈ first :: pieces -> slash ∉ piece :=
            fun piece member => Text.not_mem_of_mem_fields (cut ▸ member)
          by_cases counting : counts first = true
          · exact neverEmpty_of_counts counting free
          -- The first piece of a relative path is not empty, so this one is `.` and is the last.
          have pushed : Text.fields slash (push path []) = first :: (pieces ++ [[]]) := by
            rw [fields_push List.not_mem_nil, some, cut, List.cons_append]
          have named : first ≠ [] := by
            intro empty
            have absolute :=
              (isAbsolute_iff_head (push_ne_nil nonempty List.not_mem_nil) pushed).mpr empty
            rw [isAbsolute_push List.not_mem_nil, relative] at absolute
            cases absolute
          obtain rfl : first = [dot] := by simpa [counts, named] using counting
          have joined := Text.joinWith_fields slash front
          rw [cut] at joined
          cases pieces with
          | nil => exact neverEmpty_dot.mpr trivial
          | cons next pieces =>
              subst front
              rcases spelled with rfl | rfl
              · exact absurd rfl (other _)
              · exact absurd rfl (other _)

/-- The search loses a path exactly if it is spelled in this way. -/
theorem neverEmpty_lookups (path : Path) :
    NeverEmpty (origin path) (lookups path) ↔ doublesHere path = false := by
  rw [origin, lookups]
  by_cases absolute : isAbsolute path = true
  · obtain ⟨rest, rfl⟩ := List.head?_eq_some_iff.mp (of_decide_eq_true absolute)
    rw [if_pos absolute, if_pos absolute, List.drop_one, List.tail_cons]
    exact iff_of_true (neverEmpty_of_not_isHere (List.cons_ne_nil _ _) (by rfl)
      fun _ among => free_of_mem_stem among) (by rfl)
  · rw [if_neg absolute, if_neg absolute]
    exact neverEmpty_relative (Bool.eq_false_iff.mpr absolute)

theorem course_origin (path : Path) :
    origin path ≠ [] ∧ isAbsolute (origin path) = isAbsolute (orHere path) ∧
      countingPieces (origin path) ++ (lookups path).filter counts =
        countingPieces (orHere path) := by
  rw [origin, orHere, lookups]
  by_cases absolute : isAbsolute path = true
  · obtain ⟨rest, rfl⟩ := List.head?_eq_some_iff.mp (of_decide_eq_true absolute)
    have cut : Text.fields slash (slash :: rest) = [] :: Text.fields slash rest :=
      Text.fields_append List.not_mem_nil rest
    rw [if_pos absolute, if_pos absolute, if_neg (List.cons_ne_nil _ _), List.drop_one,
      List.tail_cons, filter_stem, countingPieces, countingPieces, countingPieces, cut]
    exact ⟨List.cons_ne_nil _ _, rfl, rfl⟩
  · rw [if_neg absolute, if_neg absolute, filter_stem]
    by_cases empty : path = []
    · subst path
      exact ⟨List.cons_ne_nil _ _, rfl, rfl⟩
    · rw [if_neg empty, Bool.eq_false_iff.mpr absolute]
      exact ⟨List.cons_ne_nil _ _, rfl, rfl⟩

/-- What is reached otherwise is the path in another spelling. -/
theorem sameCourse_reached {path : Path} (arrives : doublesHere path = false) :
    SameCourse (reached path) (orHere path) := by
  have free : forall piece, piece ∈ lookups path -> slash ∉ piece :=
    fun _ among => free_of_mem_stem among
  obtain ⟨nonempty, sameRoot, whole⟩ := course_origin path
  obtain ⟨reached, absolute, counting⟩ :=
    course_follow nonempty free ((neverEmpty_lookups path).mpr arrives)
  have named : orHere path ≠ [] := by
    rw [orHere]
    split
    · exact List.cons_ne_nil _ _
    · assumption
  exact ⟨reached, named, absolute.trans sameRoot, counting.trans whole⟩

theorem course_orHere (path : Path) : course (orHere path) = course path := by
  by_cases empty : path = []
  · subst path
    rfl
  · rw [orHere, if_neg empty]

/-- A path in which `.` stands alone or not at all. -/
def SpellsNoDot (path : Path) : Prop :=
  path = [dot] ∨ .current ∉ components path

theorem SpellsNoDot.entryPath (spelled : SpellsNoDot path) (nonempty : path ≠ [])
    (free : slash ∉ piece) : SpellsNoDot (entryPath path piece) := by
  rcases spelled with rfl | spelled
  · have alone : Glob.entryPath [dot] piece = piece := if_pos rfl
    rw [alone]
    by_cases dot : piece = [dot]
    · exact .inl dot
    · refine .inr fun current => dot ?_
      rw [current_mem_components_iff, Text.fields_of_free free] at current
      exact Option.some.inj current
  · have elsewhere : ¬isHere path = true := by
      intro here
      rw [isHere, decide_eq_true_iff] at here
      rw [here] at spelled
      exact spelled List.mem_cons_self
    rw [Glob.entryPath, if_neg elsewhere, SpellsNoDot, current_mem_components_iff,
      head?_fields_push nonempty free, ← current_mem_components_iff]
    exact .inr spelled

theorem SpellsNoDot.follow (spelled : SpellsNoDot path) (nonempty : path ≠ [])
    (free : forall piece, piece ∈ pieces -> slash ∉ piece) (never : NeverEmpty path pieces) :
    SpellsNoDot (follow path pieces) := by
  induction pieces generalizing path with
  | nil => exact spelled
  | cons piece pieces ih =>
      rw [List.forall_mem_cons] at free
      exact ih (spelled.entryPath nonempty free.1) never.1 free.2 never.2

theorem spellsNoDot_reached {path : Path} (arrives : doublesHere path = false) :
    SpellsNoDot (reached path) := by
  have spelled : SpellsNoDot (origin path) := by
    rw [origin]
    split
    · exact .inr (by decide)
    · exact .inl rfl
  exact spelled.follow (course_origin path).1 (fun _ among => free_of_mem_stem among)
    ((neverEmpty_lookups path).mpr arrives)

/-- An entry is spelled as its name in the directory, but for a `.` in front. -/
theorem components_entryPath_reached {path : Path} {name : Path}
    (arrives : doublesHere path = false) (plain : IsPlain name) :
    components (entryPath (reached path) name) = course (push path name) := by
  have same := sameCourse_reached arrives
  have sameEntry : course (entryPath (reached path) name) = course (push path name) := by
    rw [course_entryPath_plain same.nonempty plain, same.course_eq, course_orHere,
      course_push plain]
  rw [← sameEntry, eq_comm, course, List.filter_eq_self]
  intro part member
  rw [decide_eq_true_iff]
  rintro rfl
  rcases (spellsNoDot_reached arrives).entryPath same.nonempty plain.free with dot | spelled
  · have named := course_entryPath_plain same.nonempty plain
    rw [dot] at named
    exact List.append_ne_nil_of_right_ne_nil _ (List.cons_ne_nil _ _) named.symm
  · exact spelled member

/-! ## Searching -/

variable {workspace : Workspace} {last : ComponentPattern}

theorem isThere_of_isDirectory (nonempty : path ≠ []) (free : slash ∉ piece)
    (isDirectory : workspace.isDirectory (entryPath path piece) = true) :
    isThere workspace path piece = true := by
  obtain ⟨absolute, counting⟩ := course_entryPath nonempty free
  rw [isThere]
  split
  · exact Workspace.isDirectory_of_longer nonempty absolute counting isDirectory
  · obtain ⟨location, located, -⟩ := Workspace.isDirectory_iff.mp isDirectory
    refine Bool.or_eq_true_iff.mpr (.inl ?_)
    rw [located]
    rfl

/-- The empty path is not there. -/
theorem isThere_of_empty (nonempty : path ≠ []) (free : slash ∉ piece)
    (empty : entryPath path piece = []) : isThere workspace path piece = false := by
  obtain ⟨-, rfl⟩ := (entryPath_eq_nil_iff nonempty free).mp empty
  rw [isThere, empty]
  rfl

theorem search_literally {text : Text} {steps : Nat} {patterns : List ComponentPattern}
    (more : patterns ≠ []) :
    search workspace (steps + 1) path (literally text :: patterns) =
      if isThere workspace path (ofText text) then
        search workspace steps (entryPath path (ofText text)) patterns
      else [] := by
  rw [search, literalText?_literally]
  cases patterns with
  | nil => exact absurd rfl more
  | cons pattern patterns => rfl

theorem childNames_of_not_isDirectory (elsewhere : workspace.isDirectory path = false) :
    childNames workspace path = [] := by
  rw [childNames]
  cases listed : workspace.list path with
  | error failure => rfl
  | ok entries =>
      rw [Workspace.isDirectory_iff_list.mpr ⟨entries, listed⟩] at elsewhere
      cases elsewhere

/-- Whether a name is a text and ends so. -/
def endsIn (ending : Text) (name : Path) : Bool :=
  Utf8.IsText name && ending.isSuffixOf name.display

/-- The names in a directory that end so, as paths. -/
def entriesEndingIn (workspace : Workspace) (ending : Text) (path : Path) : List Path :=
  ((childNames workspace path).filter (endsIn ending)).map (entryPath path)

/-- The entries that are found are those that a listing has, whatever the spelling. -/
theorem mem_entriesEndingIn_iff {ending : Text} {other found : Path}
    (same : SameCourse path other) :
    found ∈ entriesEndingIn workspace ending path ↔
      exists entries entry, workspace.list other = .ok entries ∧ entry ∈ entries ∧
        endsIn ending entry.1.bytes = true ∧ found = entryPath path entry.1.bytes := by
  have listed : forall name, name ∈ childNames workspace path ↔
      exists entries entry, workspace.list other = .ok entries ∧ entry ∈ entries ∧
        entry.1.bytes = name := by
    intro name
    rw [childNames]
    cases listing : workspace.list path with
    | error failure =>
        apply iff_of_false List.not_mem_nil
        rintro ⟨entries, entry, listed, -⟩
        rw [Workspace.list_of_sameCourse same.symm listed] at listing
        cases listing
    | ok entries =>
        rw [Workspace.list_of_sameCourse same listing, List.mem_map]
        constructor
        · rintro ⟨entry, member, named⟩
          exact ⟨entries, entry, rfl, member, named⟩
        · rintro ⟨_, entry, ⟨⟩, member, named⟩
          exact ⟨entry, member, named⟩
  rw [entriesEndingIn, List.mem_map]
  constructor
  · rintro ⟨name, member, rfl⟩
    obtain ⟨among, ends⟩ := List.mem_filter.mp member
    obtain ⟨entries, entry, listing, inside, rfl⟩ := (listed name).mp among
    exact ⟨entries, entry, listing, inside, ends, rfl⟩
  · rintro ⟨entries, entry, listing, inside, ends, rfl⟩
    have among := (listed entry.1.bytes).mpr ⟨entries, entry, listing, inside, rfl⟩
    exact ⟨_, List.mem_filter.mpr ⟨among, ends⟩, rfl⟩

/-- The search for the components that are left, if any. -/
def searchOn (workspace : Workspace) (steps : Nat) (path : Path) :
    List ComponentPattern -> List Path
  | [] => [path]
  | pattern :: patterns => search workspace steps path (pattern :: patterns)

/-- A component with wildcards is matched against the names in a directory. -/
theorem search_wild {pattern : ComponentPattern} {patterns : List ComponentPattern}
    (wild : literalText? pattern = none) (undotted : specialNames pattern = [])
    (flat : isRecursive pattern = false) (steps : Nat) :
    search workspace (steps + 1) path (pattern :: patterns) =
      ((childNames workspace path).filter (isNameMatch pattern)).flatMap fun name =>
        searchOn workspace steps (entryPath path name) patterns := by
  rw [search, wild, undotted]
  simp only [flat, Bool.false_eq_true, if_false, List.flatMap_nil, List.nil_append]
  cases directory : workspace.isDirectory path with
  | false => rw [childNames_of_not_isDirectory directory, if_neg Bool.false_ne_true]; rfl
  | true =>
      rw [if_pos rfl]
      induction childNames workspace path with
      | nil => rfl
      | cons name names ih =>
          rw [List.flatMap_cons, ih, List.filter_cons]
          split <;> cases patterns <;> rfl

/-- A component is matched against the names that are texts. -/
theorem isNameMatch_eq (pattern : ComponentPattern) (name : Path) :
    isNameMatch pattern name = (Utf8.IsText name && isMatch pattern name.display) := by
  rw [isNameMatch]
  cases decoded : Utf8.decode name with
  | ok text =>
      obtain ⟨isText, rfl⟩ := Utf8.decode_eq_ok_iff_isText.mp decoded
      rw [decide_eq_true isText]
      rfl
  | error refusal =>
      have noText : ¬Utf8.IsText name := by
        intro isText
        rw [Utf8.decode_eq_ok_iff_isText.mpr ⟨isText, rfl⟩] at decoded
        cases decoded
      rw [decide_eq_false noText]
      rfl

/-- A star and an ending find the names in a directory that end so. -/
theorem search_endingIn (steps : Nat) (ending : Text) :
    search workspace (steps + 1) path [endingIn ending] =
      entriesEndingIn workspace ending path := by
  have flat : isRecursive (endingIn ending) = false := by
    simp [isRecursive, endingIn, literally]
  have ends : isNameMatch (endingIn ending) = endsIn ending := by
    funext name
    rw [isNameMatch_eq, isMatch_endingIn, endsIn]
  rw [search_wild (by rfl) (by rfl) flat, entriesEndingIn, ends, List.map_eq_flatMap]
  rfl

/-- One step of the search for a path and an ending. -/
theorem search_lookups_cons (steps : Nat) (ending text : Text) (texts : List Text) :
    search workspace ((text :: texts).length + (steps + 1)) path
        ((text :: texts).map literally ++ [endingIn ending]) =
      if isThere workspace path (ofText text) then
        search workspace (texts.length + (steps + 1)) (entryPath path (ofText text))
          (texts.map literally ++ [endingIn ending])
      else [] := by
  have more : texts.map literally ++ [endingIn ending] ≠ [] :=
    List.append_ne_nil_of_right_ne_nil _ (List.cons_ne_nil _ _)
  rw [List.length_cons, Nat.add_right_comm, List.map_cons, List.cons_append, search_literally more]

/-- Nothing on the way to a directory is missing. -/
theorem isThere_of_follow (nonempty : path ≠ [])
    (free : forall other, other ∈ piece :: pieces -> slash ∉ other)
    (never : NeverEmpty path (piece :: pieces))
    (isDirectory : workspace.isDirectory (follow path (piece :: pieces)) = true) :
    isThere workspace path piece = true := by
  rw [List.forall_mem_cons] at free
  obtain ⟨-, absolute, counting⟩ := course_follow never.1 free.2 never.2
  have first := Workspace.isDirectory_of_longer never.1 absolute counting isDirectory
  exact isThere_of_isDirectory nonempty free.1 first

/-- Components that mean themselves are followed one by one to the directory. -/
theorem search_lookups {ending : Text} {texts : List Text} (nonempty : path ≠ [])
    (free : forall piece, piece ∈ texts.map ofText -> slash ∉ piece)
    (never : NeverEmpty path (texts.map ofText)) (steps : Nat) :
    search workspace (texts.length + (steps + 1)) path
        (texts.map literally ++ [endingIn ending]) =
      entriesEndingIn workspace ending (follow path (texts.map ofText)) := by
  induction texts generalizing path with
  | nil =>
      rw [List.length_nil, Nat.zero_add, List.map_nil, List.nil_append, search_endingIn, follow]
      rfl
  | cons text texts ih =>
      have further := ih never.1 (List.forall_mem_cons.mp free).2 never.2
      rw [search_lookups_cons, further]
      cases there : isThere workspace path (ofText text) with
      | true => rw [if_pos rfl, follow, follow, List.map_cons, List.foldl_cons]
      | false =>
          have elsewhere :
              workspace.isDirectory (follow path ((text :: texts).map ofText)) = false := by
            rw [Bool.eq_false_iff]
            intro isDirectory
            rw [isThere_of_follow nonempty free never isDirectory] at there
            cases there
          rw [if_neg Bool.false_ne_true, entriesEndingIn, childNames_of_not_isDirectory elsewhere]
          rfl

/-- At the empty path the search ends. -/
theorem search_of_empty {ending : Text} {texts : List Text} (nonempty : path ≠ [])
    (free : forall piece, piece ∈ texts.map ofText -> slash ∉ piece)
    (lost : ¬NeverEmpty path (texts.map ofText)) (steps : Nat) :
    search workspace (texts.length + (steps + 1)) path
        (texts.map literally ++ [endingIn ending]) = [] := by
  induction texts generalizing path with
  | nil => exact absurd trivial lost
  | cons text texts ih =>
      rw [List.map_cons, List.forall_mem_cons] at free
      rw [search_lookups_cons]
      by_cases empty : entryPath path (ofText text) = []
      · rw [isThere_of_empty nonempty free.1 empty, if_neg Bool.false_ne_true]
      · rw [ih empty free.2 fun never => lost ⟨empty, never⟩, ite_self]

end

/-! ## Patterns of a path and an ending -/

section

variable {text pattern ending : Text}

/-- A path that is a text, with a star and an ending pushed onto it. -/
structure IsStarIn (text ending pattern : Text) : Prop where
  spelled : ofText pattern = push (ofText text) (ofText ('*' :: ending))
  plain : text.any isSpecial = false
  endingPlain : ending.any isSpecial = false
  free : '/' ∉ '*' :: ending

theorem IsStarIn.exists_parse (star : IsStarIn text ending pattern) :
    exists tokens, parse pattern = .ok tokens := by
  have spelled := star.spelled
  have free : slash ∉ ofText ('*' :: ending) := mt slash_mem_ofText_iff.mp star.free
  rw [push, isAbsolute_of_free free, if_neg Bool.false_ne_true] at spelled
  split at spelled
  · rw [← ofText_append] at spelled
    rw [ofText_injective spelled]
    exact parse_append_star star.plain star.endingPlain
  · have behind : (text ++ ['/']).any isSpecial = false := by
      rw [List.any_append, star.plain]
      rfl
    have whole : pattern = text ++ ['/'] ++ '*' :: ending := by
      apply ofText_injective
      rw [spelled, ofText_append, ofText_append, List.append_assoc]
      rfl
    rw [whole]
    exact parse_append_star behind star.endingPlain

/-- The pattern begins at the root if the path does. -/
theorem IsStarIn.begins (star : IsStarIn text ending pattern) :
    decide (pattern.head? = some '/') = isAbsolute (ofText text) := by
  rw [← isAbsolute_ofText, star.spelled, isAbsolute_push (mt slash_mem_ofText_iff.mp star.free)]

/-- The components of a path with a name pushed onto it are those that are looked up and the
name. -/
theorem fields_push_name {path name : Path} (free : slash ∉ name) :
    Text.fields slash (if isAbsolute path then (push path name).drop 1 else push path name) =
      lookups path ++ [name] := by
  rw [lookups, ← fields_push free]
  by_cases absolute : isAbsolute path = true
  · obtain ⟨rest, rfl⟩ := List.head?_eq_some_iff.mp (of_decide_eq_true absolute)
    rw [if_pos absolute, if_pos absolute, push_slash free]
    rfl
  · rw [if_neg absolute, if_neg absolute]

theorem IsStarIn.exists_fields (star : IsStarIn text ending pattern) :
    exists texts, texts.map ofText = lookups (ofText text) ∧
      Text.fields '/' (if isAbsolute (ofText text) then pattern.drop 1 else pattern) =
        texts ++ ['*' :: ending] := by
  have cut := @fields_push_name (ofText text) _ (mt slash_mem_ofText_iff.mp star.free)
  have body : ofText (if isAbsolute (ofText text) then pattern.drop 1 else pattern) =
      if isAbsolute (ofText text) then (ofText pattern).drop 1 else ofText pattern := by
    split
    · next absolute =>
        rw [← star.begins, decide_eq_true_iff] at absolute
        obtain ⟨rest, rfl⟩ := List.head?_eq_some_iff.mp absolute
        rfl
    · rfl
  rw [← star.spelled, ← body, fields_ofText] at cut
  obtain ⟨texts, last, same, looked, named⟩ := List.map_eq_append_iff.mp cut
  obtain ⟨name, rfl, spelled⟩ := List.map_eq_singleton_iff.mp named
  exact ⟨texts, looked, ofText_injective spelled ▸ same⟩

/-- Only ASCII characters mean something else. -/
theorem lookups_plain (plain : text.any isSpecial = false) {piece : Text}
    (among : ofText piece ∈ lookups (ofText text)) : piece.any isSpecial = false := by
  rw [List.any_eq_false] at plain ⊢
  intro letter inside special
  have ascii : letter.toNat < 0x80 := by
    simp only [isSpecial, Bool.or_eq_true, decide_eq_true_iff] at special
    rcases special with (rfl | rfl) | rfl <;> decide
  have member := (mem_of_mem_stem among ((mem_ofText_iff ascii).mpr inside)).1
  refine plain letter ((mem_ofText_iff ascii).mp ?_) special
  split at member
  · exact List.mem_of_mem_drop member
  · exact member

/-- What is found by the pattern of a path with a star and an ending behind it. -/
theorem IsStarIn.paths_eq {workspace : Workspace} (star : IsStarIn text ending pattern) :
    paths workspace pattern =
      .ok (if doublesHere (ofText text) then []
        else entriesEndingIn workspace ending (reached (ofText text))) := by
  obtain ⟨tokens, parsed⟩ := star.exists_parse
  obtain ⟨texts, looked, cut⟩ := star.exists_fields
  have whole : (texts ++ ['*' :: ending]).getLast? ≠ some [] := by
    rw [List.getLast?_concat]
    exact fun same => List.cons_ne_nil _ _ (Option.some.inj same)
  have plain : forall piece, piece ∈ texts -> piece.any isSpecial = false :=
    fun piece among => lookups_plain star.plain (looked ▸ List.mem_map_of_mem among)
  have free : forall piece, piece ∈ texts.map ofText -> slash ∉ piece :=
    fun _ among => free_of_mem_stem (looked ▸ among)
  have nonempty := (course_origin (ofText text)).1
  have steps : stepBound workspace (texts.map literally ++ [endingIn ending]).length =
      texts.length + ((FileSystem.linkLimit + 1) * (workspace.files.rows.length + 1) + 1) := by
    rw [stepBound, List.length_append, List.length_map, List.length_singleton]
    omega
  rw [paths, parsed, Except.bind]
  simp only [star.begins, cut, if_neg whole, readComponents_star plain star.endingPlain,
    Except.map, steps]
  rw [← origin]
  cases doubles : doublesHere (ofText text) with
  | false =>
      have never : NeverEmpty (origin (ofText text)) (texts.map ofText) :=
        looked ▸ (neverEmpty_lookups (ofText text)).mpr doubles
      rw [if_neg Bool.false_ne_true, search_lookups nonempty free never, looked, ← reached]
  | true =>
      have lost : ¬NeverEmpty (origin (ofText text)) (texts.map ofText) := by
        rw [looked, neverEmpty_lookups, doubles]
        exact nofun
      rw [if_pos rfl, search_of_empty nonempty free lost]

end

end Glob
end BuildInputs

import Mathlib.Logic.ExistsUnique
import BuildInputs.Auth.File
import BuildInputs.Proofs.Text.Cuts

namespace BuildInputs
namespace AuthFile

open Text

/-!
# The scope that answers for a repository

A scope covers a repository if it is the repository itself or a beginning of it that a slash
follows.  A scope that merely begins with the same characters covers nothing.  The scopes that are
tried are exactly those that cover the repository, each being the one before cut at its last slash.
So they come longest first, and the first one that a file has is the longest one that it has.

The scope of Docker's index covers no repository of Docker's registry.  It is asked when all others
have failed, and is the only scope beside the covering ones that can make a difference.
-/

/-- The scope is the repository, or a beginning of it that a slash follows. -/
def Covers (scope repository : Text) : Prop :=
  scope = repository ∨ scope ++ ['/'] <+: repository

instance (scope repository : Text) : Decidable (Covers scope repository) :=
  inferInstanceAs (Decidable (scope = repository ∨ scope ++ ['/'] <+: repository))

variable {scope repository : Text}

theorem Covers.isPrefix (covers : Covers scope repository) : scope <+: repository := by
  rcases covers with same | ⟨rest, same⟩
  · exact same ▸ List.prefix_refl scope
  · exact ⟨'/' :: rest, by rw [← same, List.append_assoc, List.singleton_append]⟩

theorem Covers.length_le (covers : Covers scope repository) : scope.length ≤ repository.length :=
  covers.isPrefix.length_le

/-! ## Cutting at the last slash -/

theorem covers_of_free (free : '/' ∉ repository) : Covers scope repository ↔ scope = repository := by
  refine or_iff_left ?_
  rintro ⟨rest, rfl⟩
  exact free (List.mem_append_left rest List.mem_concat_self)

/-- A scope that covers a repository and is not the repository covers what is left when the last
slash and everything after it are cut off. -/
theorem covers_append (front : Text) {back : Text} (free : '/' ∉ back) :
    Covers scope (front ++ '/' :: back) ↔ scope = front ++ '/' :: back ∨ Covers scope front := by
  refine or_congr Iff.rfl ⟨?_, ?_⟩
  · rintro ⟨rest, same⟩
    rw [List.append_assoc, List.singleton_append] at same
    rcases List.append_eq_append_iff.mp same with ⟨middle, isFront, later⟩ | ⟨middle, isScope, later⟩
    · cases middle with
      | nil => exact Or.inl (by rw [isFront, List.append_nil])
      | cons letter middle =>
          obtain ⟨rfl, -⟩ := List.cons.inj later
          exact Or.inr ⟨middle, by rw [isFront, List.append_assoc, List.singleton_append]⟩
    · cases middle with
      | nil => exact Or.inl (by rw [isScope, List.append_nil])
      -- The slash that follows the scope would stand behind the last one.
      | cons letter middle =>
          have inBack : '/' ∈ back :=
            (List.cons.inj later).2 ▸ List.mem_append_right middle List.mem_cons_self
          exact absurd inBack free
  · rintro (rfl | ⟨rest, rfl⟩)
    · exact ⟨back, by rw [List.append_assoc, List.singleton_append]⟩
    · exact ⟨rest ++ '/' :: back, by rw [List.append_assoc, List.append_assoc, List.append_assoc]⟩

theorem enclosing_of_free (free : '/' ∉ repository) : enclosing repository = [] := by
  induction repository with
  | nil => rfl
  | cons letter rest ih =>
      have different : letter ≠ '/' := fun same => free (same ▸ List.mem_cons_self)
      have restFree : '/' ∉ rest := fun member => free (List.mem_cons_of_mem _ member)
      rw [enclosing, if_neg different, ih restFree, List.map_nil]

theorem enclosing_append (front : Text) {back : Text} (free : '/' ∉ back) :
    enclosing (front ++ '/' :: back) = enclosing front ++ [front] := by
  induction front with
  | nil =>
      change enclosing ('/' :: back) = [[]]
      rw [enclosing, if_pos rfl, enclosing_of_free free, List.map_nil]
  | cons letter front ih =>
      rw [List.cons_append, enclosing, enclosing, ih, List.map_append]
      split
      · rfl
      · rfl

theorem scopesFor_of_free (free : '/' ∉ repository) : scopesFor repository = [repository] := by
  rw [scopesFor, enclosing_of_free free, List.reverse_nil]

/-- After a repository the scopes are tried that stand in for its part before the last slash. -/
theorem scopesFor_append (front : Text) {back : Text} (free : '/' ∉ back) :
    scopesFor (front ++ '/' :: back) = (front ++ '/' :: back) :: scopesFor front := by
  rw [scopesFor, enclosing_append front free, List.reverse_append]
  rfl

/-! ## The scopes that are tried -/

theorem mem_scopesFor_iff : scope ∈ scopesFor repository ↔ Covers scope repository := by
  induction repository using lastCutInduction '/' with
  | uncut repository free =>
      rw [scopesFor_of_free free, covers_of_free free, List.mem_singleton]
  | cut front back free ih =>
      rw [scopesFor_append front free, covers_append front free, List.mem_cons, ih]

/-- A scope must end where a part of the repository ends. -/
example : "quay.io/org".toList ∈ scopesFor "quay.io/org/app".toList ∧
    "quay.io/org".toList ∉ scopesFor "quay.io/organisation".toList := by
  decide

/-- They come longest first. -/
theorem scopesFor_ordered (repository : Text) :
    (scopesFor repository).Pairwise fun earlier later => later.length < earlier.length := by
  induction repository using lastCutInduction '/' with
  | uncut repository free =>
      rw [scopesFor_of_free free]
      exact List.pairwise_singleton _ _
  | cut front back free ih =>
      rw [scopesFor_append front free]
      refine List.pairwise_cons.mpr ⟨?_, ih⟩
      intro later member
      have shorter := (mem_scopesFor_iff.mp member).length_le
      rw [List.length_append, List.length_cons]
      omega

variable {file : AuthFile}

/-- The longest scope of a file that covers a repository. -/
structure IsClosest (file : AuthFile) (repository scope : Text) : Prop where
  listed : file.token? scope ≠ none
  covers : Covers scope repository
  longest : forall other, file.token? other ≠ none -> Covers other repository ->
    other.length ≤ scope.length

theorem IsClosest.unique {other : Text} (closest : file.IsClosest repository scope)
    (isOther : file.IsClosest repository other) : scope = other := by
  have length : scope.length = other.length :=
    Nat.le_antisymm (isOther.longest scope closest.listed closest.covers)
      (closest.longest other isOther.listed isOther.covers)
  have begins := List.prefix_of_prefix_length_le closest.covers.isPrefix isOther.covers.isPrefix
    (Nat.le_of_eq length)
  exact begins.eq_of_length length

/-- The first token that is found is that of the longest scope. -/
theorem findSome?_scopesFor_eq_some_iff {token : Text} :
    (scopesFor repository).findSome? file.token? = some token ↔
      exists scope, file.IsClosest repository scope ∧ file.token? scope = some token := by
  have ordered := scopesFor_ordered repository
  constructor
  · intro found
    obtain ⟨before, scope, after, tried, isToken, earlier⟩ := List.findSome?_eq_some_iff.mp found
    rw [tried] at ordered
    have shorter := (List.pairwise_cons.mp (List.pairwise_append.mp ordered).2.1).1
    refine ⟨scope, ⟨?_, ?_, ?_⟩, isToken⟩
    · rw [isToken]
      exact Option.some_ne_none token
    · rw [← mem_scopesFor_iff, tried]
      exact List.mem_append_right before List.mem_cons_self
    · intro other listed covers
      rw [← mem_scopesFor_iff, tried] at covers
      rcases List.mem_append.mp covers with inBefore | inRest
      · exact absurd (earlier other inBefore) listed
      · rcases List.mem_cons.mp inRest with rfl | inAfter
        · exact Nat.le_refl _
        · exact Nat.le_of_lt (shorter other inAfter)
  · rintro ⟨scope, closest, isToken⟩
    obtain ⟨before, after, tried⟩ := List.append_of_mem (mem_scopesFor_iff.mpr closest.covers)
    refine List.findSome?_eq_some_iff.mpr ⟨before, scope, after, tried, isToken, ?_⟩
    rw [tried] at ordered
    intro longer inBefore
    have covers : Covers longer repository := by
      rw [← mem_scopesFor_iff, tried]
      exact List.mem_append_left _ inBefore
    have isLonger := (List.pairwise_append.mp ordered).2.2 longer inBefore scope List.mem_cons_self
    refine Decidable.byContradiction fun listed => ?_
    exact absurd (closest.longest longer listed covers) (Nat.not_le_of_lt isLonger)

theorem findSome?_scopesFor_eq_none_iff :
    (scopesFor repository).findSome? file.token? = none ↔
      forall scope, Covers scope repository -> file.token? scope = none := by
  simp only [List.findSome?_eq_none_iff, mem_scopesFor_iff]

/-! ## Looking a repository up -/

/-- The closest scope answers, with whatever token it has. -/
theorem find?_of_closest (closest : file.IsClosest repository scope) :
    file.find? repository = file.token? scope := by
  obtain ⟨token, isToken⟩ := Option.ne_none_iff_exists'.mp closest.listed
  rw [find?, findSome?_scopesFor_eq_some_iff.mpr ⟨scope, closest, isToken⟩, isToken]

/-- Docker's index answers if no scope covers the repository and that is in Docker's registry. -/
theorem find?_of_uncovered (uncovered : forall scope, Covers scope repository ->
    file.token? scope = none) :
    file.find? repository =
      if registryOf repository = Settings.dockerRegistry then file.token? Settings.dockerIndex
      else none := by
  rw [find?, findSome?_scopesFor_eq_none_iff.mpr uncovered]

/-- A repository that some scope of a file covers has a closest one. -/
theorem uncovered_or_exists_closest (file : AuthFile) (repository : Text) :
    (forall scope, Covers scope repository -> file.token? scope = none) ∨
      exists scope, file.IsClosest repository scope := by
  cases found : (scopesFor repository).findSome? file.token? with
  | none => exact Or.inl (findSome?_scopesFor_eq_none_iff.mp found)
  | some token =>
      obtain ⟨scope, closest, -⟩ := findSome?_scopesFor_eq_some_iff.mp found
      exact Or.inr ⟨scope, closest⟩

/-- Two files with the same tokens for the scopes that cover a repository give the same answer.  If
there are no such scopes and the repository is in Docker's registry, the index must agree as well. -/
theorem find?_congr {other : AuthFile}
    (alike : forall scope, Covers scope repository -> other.token? scope = file.token? scope)
    (index : registryOf repository = Settings.dockerRegistry ->
      (forall scope, Covers scope repository -> file.token? scope = none) ->
        other.token? Settings.dockerIndex = file.token? Settings.dockerIndex) :
    other.find? repository = file.find? repository := by
  rcases uncovered_or_exists_closest file repository with uncovered | ⟨scope, closest⟩
  · have otherUncovered : forall scope, Covers scope repository -> other.token? scope = none :=
      fun scope covers => (alike scope covers).trans (uncovered scope covers)
    rw [find?_of_uncovered uncovered, find?_of_uncovered otherUncovered]
    split
    · next docker => exact index docker uncovered
    · rfl
  · have same := alike scope closest.covers
    have otherClosest : other.IsClosest repository scope :=
      ⟨same ▸ closest.listed, closest.covers, fun longer listed covers =>
        closest.longest longer (alike longer covers ▸ listed) covers⟩
    rw [find?_of_closest closest, find?_of_closest otherClosest, same]

/-- A repository is answered by the longest scope of the file that covers it, and if there is none
and the repository is in Docker's registry, by Docker's index.  No other scope makes a difference,
whether the file has it or not. -/
theorem find?_longest_covering (file : AuthFile) (repository : Text) :
    ((exists scope, file.token? scope ≠ none ∧ Covers scope repository) ->
      ∃! scope, file.IsClosest repository scope) ∧
    (forall scope, file.IsClosest repository scope ->
      file.find? repository = file.token? scope) ∧
    ((forall scope, Covers scope repository -> file.token? scope = none) ->
      file.find? repository =
        if registryOf repository = Settings.dockerRegistry then file.token? Settings.dockerIndex
        else none) ∧
    forall other : AuthFile,
      (forall scope, Covers scope repository -> other.token? scope = file.token? scope) ->
      (registryOf repository = Settings.dockerRegistry ->
        (forall scope, Covers scope repository -> file.token? scope = none) ->
          other.token? Settings.dockerIndex = file.token? Settings.dockerIndex) ->
      other.find? repository = file.find? repository := by
  refine ⟨?_, fun scope => find?_of_closest, find?_of_uncovered, fun other => find?_congr⟩
  rintro ⟨scope, listed, covers⟩
  rcases uncovered_or_exists_closest file repository with uncovered | ⟨longest, closest⟩
  · exact absurd (uncovered scope covers) listed
  · exact ⟨longest, closest, fun other isOther => isOther.unique closest⟩

/-- A token for a registry, and one for some of its repositories. -/
def nestedScopes : AuthFile :=
  ⟨[("quay.io".toList, "dTpw".toList), ("quay.io/org".toList, "dTpx".toList)]⟩

theorem find?_longest_covering_nested :
    nestedScopes.IsClosest "quay.io/org/app".toList "quay.io/org".toList ∧
      nestedScopes.find? "quay.io/org/app".toList = some "dTpx".toList := by
  have noneLonger : forall other, other ∈ scopesFor "quay.io/org/app".toList ->
      nestedScopes.token? other ≠ none -> other.length ≤ "quay.io/org".toList.length := by
    decide
  have closest : nestedScopes.IsClosest "quay.io/org/app".toList "quay.io/org".toList :=
    ⟨by decide, by decide, fun other listed covers =>
      noneLonger other (mem_scopesFor_iff.mpr covers) listed⟩
  exact ⟨closest, ((find?_longest_covering _ _).2.1 _ closest).trans (by decide)⟩

/-- The index covers no repository of Docker's registry, but it makes a difference there. -/
theorem find?_insert_index :
    ¬ Covers Settings.dockerIndex "docker.io/app".toList ∧
      (empty.insert Settings.dockerIndex "dTpw".toList).find? "docker.io/app".toList ≠
        empty.find? "docker.io/app".toList := by
  decide

end AuthFile
end BuildInputs

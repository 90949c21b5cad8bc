import BuildInputs.Proofs.Path.Rooted
import Mathlib.Data.List.Infix

namespace BuildInputs
namespace Path

/-!
# Paths that stay inside

Folding a path into a base takes back one name for each `..`, and where the names of the path itself
are used up it takes back those of the base.  A path stays inside if this never happens: read from
the left, it has never had more `..` than names.  Then it may be folded into any base, and whatever
it is folded into, the names of the base stay in front.
-/

/-- Whether a component is a name. -/
def Component.isName : Component -> Bool
  | .name _ => true
  | _ => false

/-- In no front of some components are there more `..` than names and so many names above. -/
def StaysWithin (depth : Nat) (parts : List Component) : Prop :=
  forall front, front <+: parts -> front.count .parent ≤ depth + front.countP Component.isName

/-- In no front of a path are there more `..` than names. -/
def StaysInside (path : Path) : Prop :=
  StaysWithin 0 (components path)

instance (depth : Nat) (parts : List Component) : Decidable (StaysWithin depth parts) :=
  decidable_of_iff (forall front, front ∈ parts.inits ->
      front.count .parent ≤ depth + front.countP Component.isName)
    (by simp only [StaysWithin, List.mem_inits])

instance (path : Path) : Decidable (StaysInside path) :=
  inferInstanceAs (Decidable (StaysWithin 0 (components path)))

section

variable {depth : Nat} {part : Component} {parts : List Component}

theorem StaysWithin.mono {more : Nat} (stays : StaysWithin depth parts) (deeper : depth ≤ more) :
    StaysWithin more parts :=
  fun front start => Nat.le_trans (stays front start) (Nat.add_le_add_right deeper _)

theorem StaysWithin.front (stays : StaysWithin depth (part :: parts)) {front : List Component}
    (start : front <+: parts) :
    (part :: front).count .parent ≤ depth + (part :: front).countP Component.isName :=
  stays (part :: front) ((List.prefix_cons_inj part).mpr start)

theorem StaysWithin.name {text : Path} (stays : StaysWithin depth (.name text :: parts)) :
    StaysWithin (depth + 1) parts := by
  intro front start
  have counted := stays.front start
  rw [List.count_cons_of_ne Component.noConfusion, List.countP_cons_of_pos rfl] at counted
  omega

theorem StaysWithin.parent (stays : StaysWithin depth (.parent :: parts)) :
    0 < depth ∧ StaysWithin (depth - 1) parts := by
  have counted : forall front, front <+: parts ->
      front.count .parent + 1 ≤ depth + front.countP Component.isName := by
    intro front start
    have all := stays.front start
    rwa [List.count_cons_self, List.countP_cons_of_neg Bool.false_ne_true] at all
  have deep : 0 < depth := counted [] List.nil_prefix
  refine ⟨deep, fun front start => ?_⟩
  have all := counted front start
  omega

theorem StaysWithin.other (stays : StaysWithin depth (part :: parts)) (notParent : part ≠ .parent)
    (notName : ¬part.isName = true) : StaysWithin depth parts := by
  intro front start
  have counted := stays.front start
  rwa [List.count_cons_of_ne notParent, List.countP_cons_of_neg notName] at counted

/-- The names of a base stay in front while no more is taken back than stands behind them. -/
theorem prefix_foldl_of_staysWithin {base rest : List Path}
    (stays : StaysWithin rest.length parts) : base <+: parts.foldl foldName (base ++ rest) := by
  induction parts generalizing rest with
  | nil => exact List.prefix_append base rest
  | cons part parts ih =>
      rw [List.foldl_cons]
      cases part with
      | root => exact ih (stays.other Component.noConfusion Bool.false_ne_true)
      | current => exact ih (stays.other Component.noConfusion Bool.false_ne_true)
      | name bytes =>
          rw [foldName, List.append_assoc]
          refine ih ?_
          rw [List.length_append]
          exact stays.name
      | parent =>
          obtain ⟨deep, others⟩ := stays.parent
          rw [foldName, List.dropLast_append_of_ne_nil (List.ne_nil_of_length_pos deep)]
          refine ih ?_
          rw [List.length_dropLast]
          exact others

end

/-- A path that stays inside never takes back a name that was there before. -/
theorem StaysInside.prefix_foldl {path : Path} {base names : List Path} (stays : StaysInside path)
    (start : base <+: names) : base <+: (components path).foldl foldName names := by
  obtain ⟨rest, rfl⟩ := start
  exact prefix_foldl_of_staysWithin (stays.mono (Nat.zero_le _))

example : StaysInside (ofText "/a/.././b".toList) ∧
    joinLexically (ofText "/src".toList) (ofText "/a/.././b".toList) = ofText "/src/b".toList := by
  decide

example : ¬StaysInside (ofText "a/../../b".toList) ∧
    joinLexically (ofText "/src".toList) (ofText "a/../../b".toList) = ofText "/b".toList := by
  decide

end Path
end BuildInputs

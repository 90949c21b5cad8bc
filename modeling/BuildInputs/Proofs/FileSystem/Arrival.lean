import BuildInputs.FileSystem.Walk

namespace BuildInputs
namespace FileSystem

/-!
# How a walk succeeds

The walk along a path can fail in many ways and succeed in few.  `Leads` lists only the steps of
successful walks, one rule for each, so that whatever holds of every such walk is proved by an
induction in which no failure appears.  `walk_eq_ok_iff` ties the rules to the walk: it succeeds
with exactly the arrivals that the rules derive.
-/

/-- The steps lead from a location to an arrival, following at most `links` links. -/
inductive Leads (files : FileSystem) (purpose : Purpose) :
    Nat -> Location -> List Step -> Arrival -> Prop where
  | arrive {links : Nat} {here : Location} :
      Leads files purpose links here [] (.present here)
  | stay {links : Nat} {here : Location} {rest : List Step} {arrival : Arrival}
      (directory : files.node? here = some .directory)
      (further : Leads files purpose links here rest arrival) :
      Leads files purpose links here (.stay :: rest) arrival
  | slash {links : Nat} {here : Location} {rest : List Step} {arrival : Arrival}
      (directory : files.node? here = some .directory)
      (further : Leads files purpose links here rest arrival) :
      Leads files purpose links here (.slash :: rest) arrival
  | up {links : Nat} {here : Location} {rest : List Step} {arrival : Arrival}
      (directory : files.node? here = some .directory)
      (further : Leads files purpose links here.dropLast rest arrival) :
      Leads files purpose links here (.up :: rest) arrival
  | vacant {links : Nat} {here : Location} {name : FileName}
      (directory : files.node? here = some .directory)
      (free : files.node? (here ++ [name]) = none) :
      Leads files purpose links here [.name name] (.vacant here name)
  | enter {links : Nat} {here : Location} {name : FileName} {rest : List Step}
      {arrival : Arrival} {node : Node}
      (directory : files.node? here = some .directory)
      (allowed : ¬ (purpose = .create ∧ rest = [.slash]))
      (entry : files.node? (here ++ [name]) = some node)
      (notLink : forall target, node ≠ .link target)
      (further : Leads files purpose links (here ++ [name]) rest arrival) :
      Leads files purpose links here (.name name :: rest) arrival
  | follow {links : Nat} {here : Location} {name : FileName} {rest : List Step}
      {arrival : Arrival} {target : Path}
      (directory : files.node? here = some .directory)
      (allowed : ¬ (purpose = .create ∧ rest = [.slash]))
      (entry : files.node? (here ++ [name]) = some (.link target))
      (nonempty : target ≠ [])
      (further : Leads files purpose links (start here target) (FileSystem.steps target ++ rest)
        arrival) :
      Leads files purpose (links + 1) here (.name name :: rest) arrival

theorem leads_of_walk {files : FileSystem} {purpose : Purpose} {links : Nat} {here : Location}
    {steps : List Step} {arrival : Arrival}
    (walked : files.walk purpose links here steps = .ok arrival) :
    files.Leads purpose links here steps arrival := by
  fun_induction walk files purpose links here steps with
  | case1 links here =>
      cases walked
      exact .arrive
  | case2 => cases walked
  | case3 links here rest directory ih => exact .stay (Decidable.not_not.mp directory) (ih walked)
  | case4 links here rest directory ih => exact .slash (Decidable.not_not.mp directory) (ih walked)
  | case5 links here rest directory ih => exact .up (Decidable.not_not.mp directory) (ih walked)
  | case6 => cases walked
  | case7 => cases walked
  | case8 links here directory name free =>
      cases walked
      exact .vacant (Decidable.not_not.mp directory) free
  | case9 => cases walked
  | case10 => cases walked
  | case11 => cases walked
  | case12 here rest directory name allowed target entry links nonempty ih =>
      have going : ¬ (purpose = .create ∧ rest = [.slash]) := by simpa using allowed
      exact .follow (Decidable.not_not.mp directory) going entry nonempty (ih walked)
  | case13 links here rest directory name allowed node notLink entry ih =>
      have going : ¬ (purpose = .create ∧ rest = [.slash]) := by simpa using allowed
      exact .enter (Decidable.not_not.mp directory) going entry notLink (ih walked)

/-- A name is looked up once it is clear that the walk may go on from here. -/
theorem walk_name {files : FileSystem} {purpose : Purpose} {links : Nat} {here : Location}
    {name : FileName} {rest : List Step} (directory : files.node? here = some .directory)
    (allowed : ¬ (purpose = .create ∧ rest = [.slash])) :
    files.walk purpose links here (.name name :: rest) =
      match files.node? (here ++ [name]) with
      | none => if rest = [] then .ok (.vacant here name) else .error .notFound
      | some (.link target) =>
          match links with
          | 0 => .error .tooManyLinks
          | links + 1 =>
              if target = [] then .error .notFound
              else files.walk purpose links (start here target) (FileSystem.steps target ++ rest)
      | some _ => files.walk purpose links (here ++ [name]) rest := by
  have going : ¬ (purpose = .create && decide (rest = [.slash])) = true := by
    simpa using allowed
  rewrite [walk, if_neg (Decidable.not_not.mpr directory), if_neg going]
  cases entry : files.node? (here ++ [name]) with
  | none => rfl
  | some node => cases node <;> cases links <;> rfl

theorem walk_of_leads {files : FileSystem} {purpose : Purpose} {links : Nat} {here : Location}
    {steps : List Step} {arrival : Arrival}
    (leads : files.Leads purpose links here steps arrival) :
    files.walk purpose links here steps = .ok arrival := by
  induction leads with
  | arrive => rw [walk]
  | stay directory _ ih => rw [walk, if_neg (Decidable.not_not.mpr directory), ih]
  | slash directory _ ih => rw [walk, if_neg (Decidable.not_not.mpr directory), ih]
  | up directory _ ih => rw [walk, if_neg (Decidable.not_not.mpr directory), ih]
  | vacant directory free =>
      rw [walk_name directory (fun refused => List.cons_ne_nil _ _ refused.2.symm), free]
      rfl
  | enter directory allowed entry notLink _ ih =>
      rw [walk_name directory allowed, entry]
      split
      · next impossible => cases impossible
      · next target link => exact absurd (Option.some.inj link) (notLink target)
      · exact ih
  | follow directory allowed entry nonempty _ ih =>
      rw [walk_name directory allowed, entry]
      dsimp only
      rw [if_neg nonempty, ih]

/-- A walk succeeds with exactly the arrivals to which its steps lead. -/
theorem walk_eq_ok_iff {files : FileSystem} {purpose : Purpose} {links : Nat} {here : Location}
    {steps : List Step} {arrival : Arrival} :
    files.walk purpose links here steps = .ok arrival ↔
      files.Leads purpose links here steps arrival :=
  ⟨leads_of_walk, walk_of_leads⟩

end FileSystem
end BuildInputs

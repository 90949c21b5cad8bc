import BuildInputs.Proofs.Package.Positions
import BuildInputs.Settings

namespace BuildInputs
namespace Package

/-!
# Detection and change

Whether an input contains a package of a type, and which packages of the type are changed, are
decided by two functions that go through the input on their own.  Both look at the same
positions.  They differ in one point: an object that has the type and a list of packages as well
is detected, but it is not changed, and neither is anything in its list unless it has the type.
So nothing that is changed goes undetected, while an input can be detected in which nothing is
changed.  The main result says exactly when the two agree.
-/

/-- A change of the packages of a type has something to be applied to: there is a change that
makes a difference. -/
def Applies (target : Text) (input : Json) : Prop :=
  exists change : Json.Fields -> Json.Fields, transform target change input ≠ input

section

variable {target : Text} {input : Json}

/-! ## What is detected -/

theorem containsType_of_object {fields : Json.Fields} (found : PackageObject input fields)
    (typed : hasType target fields = true) : containsType target input = true := by
  induction found with
  | root => rw [containsType, typed, Bool.or_true]
  | item member _ ih =>
      rw [containsType, anyContainsType_eq_any]
      exact List.any_eq_true.mpr ⟨_, member, ih typed⟩
  | listed list member _ ih =>
      rw [containsType, listContainsType_eq_match, list]
      exact Bool.or_eq_true_iff.mpr (Or.inl (List.any_eq_true.mpr ⟨_, member, ih typed⟩))

theorem object_of_containsType (detected : containsType target input = true) :
    exists fields, PackageObject input fields ∧ hasType target fields = true := by
  induction input using positionInduction with
  | array items ih =>
      rw [containsType, anyContainsType_eq_any] at detected
      rcases List.any_eq_true.mp detected with ⟨item, member, detected⟩
      rcases ih item member detected with ⟨fields, found, typed⟩
      exact ⟨fields, .item member found, typed⟩
  | object outer ih =>
      rw [containsType, listContainsType_eq_match] at detected
      rcases Bool.or_eq_true_iff.mp detected with inList | typed
      · split at inList
        · next items list =>
            rcases List.any_eq_true.mp inList with ⟨item, member, detected⟩
            rcases ih items list item member detected with ⟨fields, found, typed⟩
            exact ⟨fields, .listed list member found, typed⟩
        · cases inList
      · exact ⟨outer, .root, typed⟩
  | scalar input scalar =>
      cases input with
      | array items => exact absurd rfl (scalar.1 items)
      | object fields => exact absurd rfl (scalar.2 fields)
      | null | bool | number | string =>
          rw [containsType] at detected
          · cases detected
          all_goals exact nofun

/-- An input contains a package of a type when an object at a package position has the type,
whether or not that object has a list of packages. -/
theorem containsType_iff : containsType target input = true ↔
    exists fields, PackageObject input fields ∧ hasType target fields = true :=
  ⟨object_of_containsType, fun ⟨_, found, typed⟩ => containsType_of_object found typed⟩

/-! ## What is changed -/

theorem transform_eq_self (change : Json.Fields -> Json.Fields)
    (listed : forall fields, PackageObject input fields -> hasType target fields = true ->
      hasPackages fields = true) : transform target change input = input := by
  induction input using positionInduction with
  | array items ih =>
      have same : items.map (transform target change) = items :=
        map_eq_self_iff.mpr fun item member =>
          ih item member fun fields found => listed fields (.item member found)
      rw [transform_array, same]
  | object outer ih =>
      by_cases list : hasPackages outer = true
      · rcases hasPackages_iff.mp list with ⟨items, list⟩
        have same : items.map (transform target change) = items :=
          map_eq_self_iff.mpr fun item member =>
            ih items list item member fun fields found => listed fields (.listed list member found)
        rw [transform_listed target change list, same, Json.Fields.insert_of_get? list]
      · have untyped : ¬ hasType target outer = true := fun typed => list (listed outer .root typed)
        rw [transform_unlisted target change (Bool.eq_false_iff.mpr list), if_neg untyped]
  | scalar input scalar => exact transform_scalar target change scalar

theorem transform_ne_self {fields : Json.Fields} (found : PackageObject input fields)
    (typed : hasType target fields = true) (unlisted : hasPackages fields = false) :
    transform target (fun _ => []) input ≠ input := by
  induction found with
  | root =>
      rw [transform_unlisted _ _ unlisted, if_pos typed]
      intro same
      rw [← Json.object.inj same] at typed
      cases typed
  | item member _ ih =>
      rw [transform_array]
      intro same
      exact ih typed unlisted (map_eq_self_iff.mp (Json.array.inj same) _ member)
  | @listed outer fields items item list member _ ih =>
      rw [transform_listed _ _ list]
      intro same
      have lists := Json.Fields.get?_insert_self outer packagesKey
        (.array (items.map (transform target fun _ => [])))
      rw [Json.object.inj same, list] at lists
      have unchanged := Json.array.inj (Option.some.inj lists).symm
      exact ih typed unlisted (map_eq_self_iff.mp unchanged item member)

/-- A change is applied to the objects of the type that have no list of packages. -/
theorem applies_iff : Applies target input ↔
    exists fields, PackageObject input fields ∧ hasType target fields = true ∧
      hasPackages fields = false := by
  constructor
  · intro applied
    rcases applied with ⟨change, different⟩
    apply Classical.byContradiction
    intro noHit
    apply different
    apply transform_eq_self
    intro fields found typed
    apply Decidable.byContradiction
    intro unlisted
    exact noHit ⟨fields, found, typed, Bool.eq_false_iff.mpr unlisted⟩
  · intro hit
    rcases hit with ⟨fields, found, typed, unlisted⟩
    exact ⟨_, transform_ne_self found typed unlisted⟩

end

/-- Detection agrees with change on an input exactly if, as soon as an object at a package
position has the type, one of these objects has no list of packages.  Where the two disagree
something is detected and nothing changed, never the other way round. -/
theorem containsType_agrees_iff (target : Text) (input : Json) :
    (Applies target input -> containsType target input = true) ∧
    ((containsType target input = true ↔ Applies target input) ↔
      ((exists fields, PackageObject input fields ∧ hasType target fields = true) ->
        exists fields, PackageObject input fields ∧ hasType target fields = true ∧
          hasPackages fields = false)) := by
  rw [applies_iff, containsType_iff]
  refine ⟨fun ⟨fields, found, typed, _⟩ => ⟨fields, found, typed⟩, ?_⟩
  constructor
  · intro agree
    exact agree.mp
  · intro unlisted
    exact ⟨unlisted, fun ⟨fields, found, typed, _⟩ => ⟨fields, found, typed⟩⟩

/-- A package with a type and an empty list of packages. -/
def typedEmptyList : Json :=
  .object [(typeKey, .string Settings.rpmType), (packagesKey, .array [])]

/-- Such a package is detected by its type, and no change is applied to it. -/
theorem containsType_without_applies :
    containsType Settings.rpmType typedEmptyList = true ∧
      ¬ Applies Settings.rpmType typedEmptyList := by
  refine ⟨containsType_of_object .root (by decide), ?_⟩
  rw [applies_iff]
  intro hit
  rcases hit with ⟨fields, found, _, unlisted⟩
  cases found with
  | root => cases unlisted
  | listed list member _ =>
      cases list
      cases member

end Package
end BuildInputs

import BuildInputs.Package.Tree
import BuildInputs.Proofs.Json.Fields

namespace BuildInputs
namespace Package

/-!
# Where packages stand

Package objects stand at the root of an input, in arrays and in `packages` lists, at any depth,
and nowhere else.  `PackageObject` says so once, apart from the functions that go through an
input.  The induction that belongs to it visits just these positions, so that a statement about
every input needs no case for what is nested in other fields.
-/

/-- An object that stands at a package position of an input. -/
inductive PackageObject : Json -> Json.Fields -> Prop where
  | root {fields : Json.Fields} : PackageObject (.object fields) fields
  | item {items : List Json} {item : Json} {fields : Json.Fields} (member : item ∈ items)
      (inside : PackageObject item fields) : PackageObject (.array items) fields
  | listed {outer fields : Json.Fields} {items : List Json} {item : Json}
      (list : outer.get? packagesKey = some (.array items)) (member : item ∈ items)
      (inside : PackageObject item fields) : PackageObject (.object outer) fields

/-- An input in which no package can stand. -/
def IsScalar (input : Json) : Prop :=
  (forall items, input ≠ .array items) ∧ forall fields, input ≠ .object fields

/-- Induction along package positions. -/
theorem positionInduction {motive : Json -> Prop}
    (array : forall items, (forall item, item ∈ items -> motive item) -> motive (.array items))
    (object : forall fields : Json.Fields,
      (forall items, fields.get? packagesKey = some (.array items) ->
        forall item, item ∈ items -> motive item) -> motive (.object fields))
    (scalar : forall input, IsScalar input -> motive input) (input : Json) : motive input := by
  match input with
  | .array items =>
      exact array items fun item member => positionInduction array object scalar item
  | .object fields =>
      exact object fields fun items list item member =>
        positionInduction array object scalar item
  | .null => exact scalar _ ⟨nofun, nofun⟩
  | .bool value => exact scalar _ ⟨nofun, nofun⟩
  | .number value => exact scalar _ ⟨nofun, nofun⟩
  | .string text => exact scalar _ ⟨nofun, nofun⟩
termination_by sizeOf input
decreasing_by
  · have smaller := List.sizeOf_lt_of_mem member
    simp only [Json.array.sizeOf_spec]
    omega
  · have smaller := List.sizeOf_lt_of_mem member
    have listSmaller := Json.Fields.sizeOf_get?_lt list
    simp only [Json.array.sizeOf_spec] at listSmaller
    simp only [Json.object.sizeOf_spec]
    omega

theorem map_eq_self_iff {change : Json -> Json} {items : List Json} :
    items.map change = items ↔ forall item, item ∈ items -> change item = item := by
  have same := List.map_inj_left (l := items) (f := change) (g := id)
  rwa [List.map_id] at same

/-! ## The functions on an input, one position at a time -/

section Detection

variable (target : Text)

theorem anyContainsType_eq_any (items : List Json) :
    anyContainsType target items = items.any (containsType target) := by
  induction items with
  | nil => rw [anyContainsType, List.any_nil]
  | cons item items ih => rw [anyContainsType, List.any_cons, ih]

theorem listContainsType_eq_match (fields : Json.Fields) :
    listContainsType target fields =
      match fields.get? packagesKey with
      | some (.array items) => items.any (containsType target)
      | _ => false := by
  induction fields with
  | nil => rw [listContainsType, Json.Fields.get?_nil]
  | cons field fields ih =>
      rcases field with ⟨key, value⟩
      rw [Json.Fields.get?_cons]
      rw [listContainsType.eq_def]
      dsimp only
      by_cases same : key = packagesKey
      · rw [if_pos same, if_pos same]
        cases value with
        | array items => exact anyContainsType_eq_any target items
        | _ => rfl
      · rw [if_neg same, if_neg same, ih]

end Detection

section Change

variable (target : Text) (change : Json.Fields -> Json.Fields)

theorem transformItems_eq_map (items : List Json) :
    transformItems target change items = items.map (transform target change) := by
  induction items with
  | nil => rw [transformItems, List.map_nil]
  | cons item items ih => rw [transformItems, List.map_cons, ih]

theorem transform_array (items : List Json) :
    transform target change (.array items) = .array (items.map (transform target change)) := by
  rw [transform, transformItems_eq_map]

theorem transform_scalar {input : Json} (scalar : IsScalar input) :
    transform target change input = input := by
  cases input with
  | array items => exact absurd rfl (scalar.1 items)
  | object fields => exact absurd rfl (scalar.2 fields)
  | null | bool | number | string => rw [transform] <;> exact nofun

theorem transformList_eq_insert {fields : Json.Fields} {items : List Json}
    (list : fields.get? packagesKey = some (.array items)) :
    transformList target change fields =
      fields.insert packagesKey (.array (items.map (transform target change))) := by
  induction fields with
  | nil => cases list
  | cons field fields ih =>
      rcases field with ⟨key, value⟩
      rw [Json.Fields.get?_cons] at list
      rw [transformList.eq_def, Json.Fields.insert_cons]
      dsimp only at list ⊢
      by_cases same : key = packagesKey
      · rw [if_pos same] at list ⊢
        rw [if_pos same, Option.some.inj list, same]
        dsimp only
        rw [transformItems_eq_map]
      · rw [if_neg same] at list ⊢
        rw [if_neg same, ih list]

theorem hasPackages_iff {fields : Json.Fields} :
    hasPackages fields = true ↔
      exists items, fields.get? packagesKey = some (.array items) := by
  rw [hasPackages]
  split
  · next items list => exact ⟨fun _ => ⟨items, list⟩, fun _ => rfl⟩
  · next other =>
      constructor
      · exact nofun
      · intro list
        rcases list with ⟨items, list⟩
        exact absurd list (other items)

/-- Induction along package positions, with objects told apart by whether they list packages. -/
theorem packageInduction {motive : Json -> Prop}
    (array : forall items, (forall item, item ∈ items -> motive item) -> motive (.array items))
    (listed : forall (fields : Json.Fields) items, fields.get? packagesKey = some (.array items) ->
      (forall item, item ∈ items -> motive item) -> motive (.object fields))
    (unlisted : forall fields, hasPackages fields = false -> motive (.object fields))
    (scalar : forall input, IsScalar input -> motive input) (input : Json) : motive input := by
  induction input using positionInduction with
  | array items ih => exact array items ih
  | object fields ih =>
      by_cases lists : hasPackages fields = true
      · rcases hasPackages_iff.mp lists with ⟨items, list⟩
        exact listed fields items list (ih items list)
      · exact unlisted fields (Bool.eq_false_iff.mpr lists)
  | scalar input isScalar => exact scalar input isScalar

/-- An object with a list of packages is changed in that list only. -/
theorem transform_listed {fields : Json.Fields} {items : List Json}
    (list : fields.get? packagesKey = some (.array items)) :
    transform target change (.object fields) =
      .object (fields.insert packagesKey (.array (items.map (transform target change)))) := by
  rw [transform, if_pos (hasPackages_iff.mpr ⟨items, list⟩),
    transformList_eq_insert target change list]

/-- An object without such a list is changed as a whole, if it has the type. -/
theorem transform_unlisted {fields : Json.Fields} (unlisted : hasPackages fields = false) :
    transform target change (.object fields) =
      .object (if hasType target fields then change fields else fields) := by
  rw [transform, unlisted, if_neg Bool.false_ne_true]
  split <;> rfl

end Change

end Package
end BuildInputs

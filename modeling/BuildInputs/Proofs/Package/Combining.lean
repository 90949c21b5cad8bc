import BuildInputs.Proofs.Package.Changes

namespace BuildInputs
namespace Package

/-!
# Combining changes

Each change of an input goes through all of it and decides anew where the packages are.  As long as
the changes keep the role of every object, the second one finds what the first one would have found.
So two changes of one type are a single change, and two changes of different types reach objects that
have nothing to do with one another and can be made in either order, with no difference in the order
of keys either.

A change that moves an object into another type has neither property: the second change may find
objects that the first one made, and lose others.
-/

section

variable {first second : Json.Fields -> Json.Fields} {target other : Text}

/-- No object has two types. -/
theorem not_hasType_of_ne (different : target ≠ other) {fields : Json.Fields}
    (typed : hasType target fields = true) : hasType other fields = false := by
  rw [← Bool.not_eq_true, hasType_iff, hasType_iff.mp typed]
  intro same
  exact different (Json.string.inj (Option.some.inj same))

theorem onType_onType_of_ne (keeps : KeepsRole first) (different : target ≠ other)
    {fields : Json.Fields} (typed : hasType target fields = true) :
    onType other second (onType target first fields) = first fields := by
  have untyped := not_hasType_of_ne different ((hasType_congr (keeps.type fields) target).trans typed)
  rw [onType, onType, if_pos typed, untyped, if_neg Bool.false_ne_true]

/-- On one object at most one of two changes of different types does anything. -/
theorem onType_comm (keeps : KeepsRole first) (also : KeepsRole second) (different : target ≠ other)
    (fields : Json.Fields) :
    onType other second (onType target first fields) =
      onType target first (onType other second fields) := by
  by_cases typed : hasType target fields = true
  · have untyped := not_hasType_of_ne different typed
    rw [onType_onType_of_ne keeps different typed, onType, onType, untyped,
      if_neg Bool.false_ne_true, if_pos typed]
  · by_cases otherTyped : hasType other fields = true
    · rw [onType_onType_of_ne also different.symm otherTyped, onType, onType, if_neg typed,
        if_pos otherTyped]
    · rw [onType, onType, onType, onType, if_neg typed, if_neg otherTyped, if_neg typed]

theorem transform_comm (keeps : KeepsRole first) (also : KeepsRole second)
    (different : target ≠ other) (input : Json) :
    transform other second (transform target first input) =
      transform target first (transform other second input) := by
  induction input using packageInduction with
  | array items ih =>
      rw [transform_array, transform_array, transform_array, transform_array, List.map_map,
        List.map_map]
      exact congrArg Json.array (List.map_congr_left ih)
  | listed outer items list ih =>
      have same : items.map (transform other second ∘ transform target first) =
          items.map (transform target first ∘ transform other second) :=
        List.map_congr_left ih
      rw [transform_transform_listed list, transform_transform_listed list, same]
  | unlisted outer unlisted =>
      rw [transform_transform_unlisted keeps unlisted, transform_transform_unlisted also unlisted,
        onType_comm keeps also different]
  | scalar input scalar =>
      rw [transform_scalar _ _ scalar, transform_scalar _ _ scalar, transform_scalar _ _ scalar]

end

/-- Changes that keep the role of every object combine like functions on one object.  Two changes of
one type are the one change that makes both, and for this only the first needs to keep the roles.
Two changes of different types can be made in either order, and a change that makes no difference
the second time makes none in an input either. -/
theorem transform_combines :
    (forall (target : Text) (first second : Json.Fields -> Json.Fields),
      KeepsRole first -> forall input,
        transform target second (transform target first input) =
          transform target (fun fields => second (first fields)) input) ∧
    (forall (target other : Text) (first second : Json.Fields -> Json.Fields),
      target ≠ other -> KeepsRole first -> KeepsRole second -> forall input,
        transform other second (transform target first input) =
          transform target first (transform other second input)) ∧
    forall (target : Text) (change : Json.Fields -> Json.Fields),
      KeepsRole change -> (forall fields, change (change fields) = change fields) -> forall input,
        transform target change (transform target change input) =
          transform target change input := by
  refine ⟨?_, ?_, ?_⟩
  · intro target first second keeps input
    exact transform_transform keeps target input
  · intro target other first second different keeps also input
    exact transform_comm keeps also different input
  · intro target change keeps settles input
    exact transform_idempotent keeps settles target input

/-- An input with packages of two types, nested in one another. -/
def mixedPackages : Json :=
  .array [
    .object [(typeKey, .string "rpm".toList)],
    .object [(typeKey, .string "pip".toList), (packagesKey, .array [
      .object [(typeKey, .string "pip".toList), (summaryKey, .bool false)],
      .object [(typeKey, .string "rpm".toList), (optionsKey, .null)]])]]

/-- The same input with a summary of the packages of one type and settings for those of the other. -/
def mixedCompleted : Json :=
  .array [
    .object [(typeKey, .string "rpm".toList), (optionsKey, .object [(sslKey, .object [])])],
    .object [(typeKey, .string "pip".toList), (packagesKey, .array [
      .object [(typeKey, .string "pip".toList), (summaryKey, .bool true)],
      .object [(typeKey, .string "rpm".toList),
        (optionsKey, .object [(sslKey, .object [])])]])]]

theorem setSummary_setSummary (fields : Json.Fields) :
    setSummary (setSummary fields) = setSummary fields :=
  Json.Fields.insert_insert fields summaryKey _ _

theorem transform_combines_mixed :
    ("pip".toList ≠ "rpm".toList ∧ KeepsRole setSummary ∧ KeepsRole (setSsl []) ∧
      forall fields, setSummary (setSummary fields) = setSummary fields) ∧
    transform "rpm".toList (setSsl []) (transform "rpm".toList setSummary mixedPackages) =
      transform "rpm".toList (fun fields => setSsl [] (setSummary fields)) mixedPackages ∧
    (transform "rpm".toList (setSsl []) (transform "pip".toList setSummary mixedPackages) =
        transform "pip".toList setSummary (transform "rpm".toList (setSsl []) mixedPackages) ∧
      transform "pip".toList setSummary (transform "rpm".toList (setSsl []) mixedPackages) =
        mixedCompleted) ∧
    transform "pip".toList setSummary (transform "pip".toList setSummary mixedPackages) =
      transform "pip".toList setSummary mixedPackages := by
  have different : "pip".toList ≠ "rpm".toList := by decide
  obtain ⟨fuses, commutes, settles⟩ := transform_combines
  exact ⟨⟨different, keepsRole_setSummary, keepsRole_setSsl [], setSummary_setSummary⟩,
    fuses _ _ _ keepsRole_setSummary _,
    ⟨commutes _ _ _ _ different keepsRole_setSummary (keepsRole_setSsl []) _, rfl⟩,
    settles _ _ keepsRole_setSummary setSummary_setSummary _⟩

/-- A change that moves an object into another type. -/
def retype (fields : Json.Fields) : Json.Fields :=
  fields.insert typeKey (.string "pip".toList)

/-- A package that such a change moves. -/
def movedPackage : Json :=
  .object [(typeKey, .string "rpm".toList)]

example :
    transform "pip".toList setSummary (transform "rpm".toList retype movedPackage) =
        .object [(typeKey, .string "pip".toList), (summaryKey, .bool true)] ∧
      transform "rpm".toList retype (transform "pip".toList setSummary movedPackage) =
        .object [(typeKey, .string "pip".toList)] :=
  ⟨rfl, rfl⟩

end Package
end BuildInputs

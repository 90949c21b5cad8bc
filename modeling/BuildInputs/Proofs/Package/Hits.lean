import BuildInputs.Proofs.Json.Positions
import BuildInputs.Proofs.Package.Positions

namespace BuildInputs
namespace Package

/-!
# What a change reaches

A change of the packages of a type is meant for the objects of that type that stand at package
positions and have no list of packages of their own.  The main result says that it reaches these
objects and nothing else.  It is stated over all positions of the input and does not follow the
function that makes the change: what stands at a hit is the changed object, and everything that
is not inside of a hit stays as it is, down to the order of keys.  There is only one value of
which this is true.
-/

open Json (Position)

/-- A value that stands at a package position: the input itself, an item of an array at a package
position, or an item of the list of packages of an object at a package position. -/
inductive PackageAt : Json -> Position -> Json -> Prop where
  | root {input : Json} : PackageAt input [] input
  | item {items : List Json} {item value : Json} {index : Nat} {position : Position}
      (stands : items[index]? = some item) (inside : PackageAt item position value) :
      PackageAt (.array items) (index :: position) value
  | listed {fields : Json.Fields} {items : List Json} {item value : Json} {index : Nat}
      {position : Position} (list : fields.get? packagesKey = some (.array items))
      (stands : items[index]? = some item) (inside : PackageAt item position value) :
      PackageAt (.object fields) (fields.indexOf packagesKey :: index :: position) value

/-- An object that a change of the packages of a type is meant for, and its position. -/
structure IsHit (target : Text) (input : Json) (position : Position) (fields : Json.Fields) :
    Prop where
  stands : PackageAt input position (.object fields)
  unlisted : forall items, fields.get? packagesKey ≠ some (.array items)
  typed : fields.get? typeKey = some (.string target)

/-- No object at a position or on the way to it is meant. -/
def IsClear (target : Text) (input : Json) (position : Position) : Prop :=
  forall above fields, above <+: position -> ¬ IsHit target input above fields

/-- One value comes from another by a change of the packages of a type. -/
structure ChangedAtHits (target : Text) (change : Json.Fields -> Json.Fields)
    (input output : Json) : Prop where
  /-- At each hit stands the object there, changed once. -/
  hit : forall position fields, IsHit target input position fields ->
    output.at? position = some (.object (change fields))
  /-- Arrays that are not inside of a hit keep their length and the order of their items, objects
  keep their keys and the order of these, and other values stay the same. -/
  shell : forall position, IsClear target input position ->
    (output.at? position).map Json.shell = (input.at? position).map Json.shell
  /-- An object at a package position that is no hit keeps the value of each field but its list of
  packages, whatever is nested in there. -/
  field : forall position (fields : Json.Fields) index field, PackageAt input position (.object fields) ->
    ¬ IsHit target input position fields -> fields[index]? = some field ->
    (forall items, fields.get? packagesKey = some (.array items) ->
      index ≠ fields.indexOf packagesKey) ->
    output.at? (position ++ [index]) = some field.2

/-! ## Hits and the checks of an object -/

theorem hasType_iff {target : Text} {fields : Json.Fields} :
    hasType target fields = true ↔ fields.get? typeKey = some (.string target) := by
  rw [hasType]
  split
  · next text known =>
      rw [known, decide_eq_true_iff, Option.some.injEq, Json.string.injEq]
  · next other =>
      constructor
      · exact nofun
      · intro known
        exact absurd known (other target)

theorem hasPackages_eq_false_iff {fields : Json.Fields} :
    hasPackages fields = false ↔
      forall items, fields.get? packagesKey ≠ some (.array items) := by
  rw [← Bool.not_eq_true, hasPackages_iff, not_exists]

section

variable {target : Text} {change : Json.Fields -> Json.Fields} {input : Json}

theorem isHit_iff {position : Position} {fields : Json.Fields} :
    IsHit target input position fields ↔ PackageAt input position (.object fields) ∧
      hasPackages fields = false ∧ hasType target fields = true := by
  rw [hasPackages_eq_false_iff, hasType_iff]
  constructor
  · intro hit
    exact ⟨hit.stands, hit.unlisted, hit.typed⟩
  · rintro ⟨stands, unlisted, typed⟩
    exact ⟨stands, unlisted, typed⟩

theorem IsClear.root {fields : Json.Fields} {position : Position}
    (clear : IsClear target (.object fields) position) (unlisted : hasPackages fields = false) :
    hasType target fields = false := by
  rw [← Bool.not_eq_true]
  intro typed
  exact clear [] fields List.nil_prefix (isHit_iff.mpr ⟨.root, unlisted, typed⟩)

theorem IsClear.item {items : List Json} {item : Json} {index : Nat} {position : Position}
    (clear : IsClear target (.array items) (index :: position))
    (stands : items[index]? = some item) : IsClear target item position := by
  intro above fields ahead hit
  apply clear (index :: above) fields (List.cons_prefix_cons.mpr ⟨rfl, ahead⟩)
  exact ⟨.item stands hit.stands, hit.unlisted, hit.typed⟩

theorem IsClear.listed {outer : Json.Fields} {items : List Json} {item : Json} {index : Nat}
    {position : Position}
    (clear : IsClear target (.object outer) (outer.indexOf packagesKey :: index :: position))
    (list : outer.get? packagesKey = some (.array items))
    (stands : items[index]? = some item) : IsClear target item position := by
  intro above fields ahead hit
  apply clear (outer.indexOf packagesKey :: index :: above) fields
  · rw [List.cons_prefix_cons, List.cons_prefix_cons]
    exact ⟨rfl, rfl, ahead⟩
  · exact ⟨.listed list stands hit.stands, hit.unlisted, hit.typed⟩

/-! ## One field of a changed object -/

theorem getElem?_insert_list {fields : Json.Fields} {items others : List Json}
    (list : fields.get? packagesKey = some (.array items)) :
    (fields.insert packagesKey (.array others))[fields.indexOf packagesKey]? =
      some (packagesKey, .array others) := by
  have stood := Json.Fields.getElem?_indexOf list
  have bound : fields.indexOf packagesKey < fields.length :=
    (List.getElem?_eq_some_iff.mp stood).1
  rw [Json.Fields.insert_eq_set list, List.getElem?_set_self bound]

theorem getElem?_insert_other {fields : Json.Fields} {items : List Json} {index : Nat}
    (list : fields.get? packagesKey = some (.array items))
    (different : index ≠ fields.indexOf packagesKey) (others : List Json) :
    (fields.insert packagesKey (.array others))[index]? = fields[index]? := by
  rw [Json.Fields.insert_eq_set list, List.getElem?_set_ne different.symm]

theorem shell_insert_list {fields : Json.Fields} {items others : List Json}
    (list : fields.get? packagesKey = some (.array items)) :
    (Json.object (fields.insert packagesKey (.array others))).shell =
      (Json.object fields).shell := by
  have stood := Json.Fields.getElem?_indexOf list
  have blank : (fields.map fun field => (field.1, Json.null))[fields.indexOf packagesKey]? =
      some (packagesKey, .null) := by
    rw [List.getElem?_map, stood, Option.map_some]
  rcases List.getElem?_eq_some_iff.mp blank with ⟨_, same⟩
  rw [Json.shell, Json.shell, Json.Fields.insert_eq_set list, List.map_set]
  rw [← same, List.set_getElem_self]

/-! ## What stands at a position after the change -/

theorem at?_map {items : List Json} {item : Json} {index : Nat} {rest : Position}
    {alter : Json -> Json} (stands : items[index]? = some item) :
    (Json.array (items.map alter)).at? (index :: rest) = (alter item).at? rest := by
  have altered : (items.map alter)[index]? = some (alter item) := by
    rw [List.getElem?_map, stands, Option.map_some]
  exact Json.at?_item altered rest

/-- At package positions stand the values there, each changed for itself. -/
theorem at?_transform {position : Position} {value : Json}
    (found : PackageAt input position value) :
    (transform target change input).at? position = some (transform target change value) := by
  induction found with
  | root => rfl
  | item stands _ ih => rw [transform_array, at?_map stands, ih]
  | listed list stands _ ih =>
      rw [transform_listed _ _ list, Json.at?_field (getElem?_insert_list list), at?_map stands, ih]

theorem shell_at?_map {items : List Json} {position : Position} {alter : Json -> Json}
    (each : forall index item rest, position = index :: rest -> items[index]? = some item ->
      ((alter item).at? rest).map Json.shell = (item.at? rest).map Json.shell) :
    ((Json.array (items.map alter)).at? position).map Json.shell =
      ((Json.array items).at? position).map Json.shell := by
  cases position with
  | nil => simp only [Json.at?_nil, Option.map_some, Json.shell, List.map_map, Function.comp_def]
  | cons index rest =>
      cases stands : items[index]? with
      | none => simp [Json.at?_cons, Json.child?, stands]
      | some item =>
          rw [at?_map stands, Json.at?_item stands]
          exact each index item rest rfl stands

theorem shell_at?_transform {position : Position} (clear : IsClear target input position) :
    ((transform target change input).at? position).map Json.shell =
      (input.at? position).map Json.shell := by
  induction input using packageInduction generalizing position with
  | array items ih =>
      rw [transform_array]
      apply shell_at?_map
      rintro index item rest rfl stands
      exact ih item (List.mem_of_getElem? stands) (clear.item stands)
  | listed outer items list ih =>
      rw [transform_listed _ _ list]
      cases position with
      | nil => exact congrArg some (shell_insert_list list)
      | cons index rest =>
          by_cases place : index = outer.indexOf packagesKey
          · subst place
            rw [Json.at?_field (getElem?_insert_list list),
              Json.at?_field (Json.Fields.getElem?_indexOf list)]
            apply shell_at?_map
            rintro inner item further rfl stands
            exact ih item (List.mem_of_getElem? stands) (clear.listed list stands)
          · simp only [Json.at?_cons, Json.child?, getElem?_insert_other list place _]
  | unlisted outer unlisted =>
      rw [transform_unlisted _ _ unlisted, clear.root unlisted, if_neg Bool.false_ne_true]
  | scalar input scalar => rw [transform_scalar _ _ scalar]

theorem at?_transform_field {position : Position} {fields : Json.Fields} {index : Nat}
    {field : Text × Json} (found : PackageAt input position (.object fields))
    (other : ¬ IsHit target input position fields) (stands : fields[index]? = some field)
    (outside : forall items, fields.get? packagesKey = some (.array items) ->
      index ≠ fields.indexOf packagesKey) :
    (transform target change input).at? (position ++ [index]) = some field.2 := by
  rw [Json.at?_append, at?_transform found, Option.bind_some]
  by_cases listed : hasPackages fields = true
  · rcases hasPackages_iff.mp listed with ⟨items, list⟩
    have kept := getElem?_insert_other list (outside items list)
      (items.map (transform target change))
    rw [transform_listed _ _ list, Json.at?_field (kept.trans stands), Json.at?_nil]
  · have unlisted := Bool.eq_false_iff.mpr listed
    have untyped : ¬ hasType target fields = true := fun typed =>
      other (isHit_iff.mpr ⟨found, unlisted, typed⟩)
    rw [transform_unlisted _ _ unlisted, if_neg untyped, Json.at?_field stands, Json.at?_nil]

theorem changedAtHits_transform :
    ChangedAtHits target change input (transform target change input) where
  hit := by
    intro position fields hit
    rcases isHit_iff.mp hit with ⟨stands, unlisted, typed⟩
    rw [at?_transform stands, transform_unlisted _ _ unlisted, if_pos typed]
  shell := fun _ clear => shell_at?_transform clear
  field := fun _ _ _ _ found other stands outside =>
    at?_transform_field found other stands outside

/-- The hits and what is outside of them leave nothing open. -/
theorem ChangedAtHits.unique {first second : Json}
    (changed : ChangedAtHits target change input first)
    (also : ChangedAtHits target change input second) : first = second := by
  apply Json.eq_of_shells
  intro position
  by_cases clear : IsClear target input position
  · rw [changed.shell position clear, also.shell position clear]
  · simp only [IsClear, Classical.not_forall, Classical.not_not] at clear
    rcases clear with ⟨above, fields, ⟨rest, rfl⟩, hit⟩
    rw [Json.at?_append, Json.at?_append, changed.hit above fields hit, also.hit above fields hit]

end

/-- A change of the packages of a type gives the input with the change made at each hit, and with
nothing else changed. -/
theorem transform_eq_iff (target : Text) (change : Json.Fields -> Json.Fields)
    (input output : Json) :
    transform target change input = output ↔ ChangedAtHits target change input output := by
  constructor
  · rintro rfl
    exact changedAtHits_transform
  · intro changed
    exact changedAtHits_transform.unique changed

end Package
end BuildInputs

import BuildInputs.Json.Value

namespace BuildInputs
namespace Json

/-!
# Positions in a value

A position is the way from a value to something inside it: the numbers of the items and fields
to enter, one after another.  Counting fields instead of naming them reaches each of them, so
that nothing in a value lies outside its positions.  What stands at a position is described by
its shell, which leaves out what is further inside, and the shells at all positions determine
the value.

A property of everything in a value is stated over positions as well.  Proofs follow the value
and meet it one level at a time.
-/

/-- The numbers of the items and fields on the way to something inside a value. -/
abbrev Position := List Nat

/-- An item of an array or the value of a field of an object, by its number. -/
def child? : Json -> Nat -> Option Json
  | .array items, index => items[index]?
  | .object fields, index => fields[index]?.map Prod.snd
  | _, _ => none

/-- What stands at a position. -/
def at? (value : Json) : Position -> Option Json
  | [] => some value
  | index :: rest => (value.child? index).bind fun child => child.at? rest

/-- A value with everything inside it blanked out.  An array keeps its length, an object its keys
and their order, and any other value all that it is. -/
def shell : Json -> Json
  | .array items => .array (items.map fun _ => .null)
  | .object fields => .object (fields.map fun field => (field.1, .null))
  | value => value

/-- A property of everything in a value.  It may depend on how deep a position is. -/
def Throughout (property : Nat -> Json -> Prop) (value : Json) : Prop :=
  forall position inner, value.at? position = some inner -> property position.length inner

/-- Induction along the structure of a value. -/
@[elab_as_elim]
theorem structuralInduction {motive : Json -> Prop} (null : motive .null)
    (bool : forall value, motive (.bool value)) (number : forall value, motive (.number value))
    (string : forall text, motive (.string text))
    (array : forall items, (forall item, item ∈ items -> motive item) -> motive (.array items))
    (object : forall fields : Fields, (forall field, field ∈ fields -> motive field.2) ->
      motive (.object fields)) (value : Json) : motive value := by
  match value with
  | .null => exact null
  | .bool value => exact bool value
  | .number value => exact number value
  | .string text => exact string text
  | .array items =>
      exact array items fun item member =>
        structuralInduction null bool number string array object item
  | .object fields =>
      exact object fields fun field member =>
        structuralInduction null bool number string array object field.2
termination_by sizeOf value
decreasing_by
  · have smaller := List.sizeOf_lt_of_mem member
    simp only [Json.array.sizeOf_spec]
    omega
  · have smaller := List.sizeOf_lt_of_mem member
    rcases field with ⟨key, value⟩
    simp only [Prod.mk.sizeOf_spec] at smaller
    simp only [Json.object.sizeOf_spec]
    omega

/-! ## Following a position -/

@[simp] theorem at?_nil (value : Json) : value.at? [] = some value :=
  rfl

theorem at?_cons (value : Json) (index : Nat) (rest : Position) :
    value.at? (index :: rest) = (value.child? index).bind fun child => child.at? rest :=
  rfl

theorem at?_item {items : List Json} {item : Json} {index : Nat}
    (stands : items[index]? = some item) (rest : Position) :
    (Json.array items).at? (index :: rest) = item.at? rest := by
  rw [at?_cons, child?, stands, Option.bind_some]

theorem at?_field {fields : Fields} {field : Text × Json} {index : Nat}
    (stands : fields[index]? = some field) (rest : Position) :
    (Json.object fields).at? (index :: rest) = field.2.at? rest := by
  rw [at?_cons, child?, stands, Option.map_some, Option.bind_some]

theorem at?_append (value : Json) (front back : Position) :
    value.at? (front ++ back) = (value.at? front).bind fun inner => inner.at? back := by
  induction front generalizing value with
  | nil => rfl
  | cons index front ih =>
      rw [List.cons_append, at?_cons, at?_cons]
      cases value.child? index with
      | none => rfl
      | some child => exact ih child

/-! ## Values with the same shells -/

theorem eq_null_of_shell {value : Json} (same : value.shell = .null) : value = .null := by
  cases value with
  | null => rfl
  | bool | number | string | array | object => cases same

theorem shell_eq_array {value : Json} {items : List Json}
    (same : value.shell = (Json.array items).shell) :
    exists others, value = .array others ∧ others.length = items.length := by
  cases value with
  | array others =>
      refine ⟨others, rfl, ?_⟩
      have lengths := congrArg List.length (Json.array.inj same)
      rwa [List.length_map, List.length_map] at lengths
  | null | bool | number | string | object => cases same

theorem shell_eq_object {value : Json} {fields : Fields}
    (same : value.shell = (Json.object fields).shell) :
    exists others : Fields, value = .object others ∧
      others.map Prod.fst = fields.map Prod.fst := by
  cases value with
  | object others =>
      refine ⟨others, rfl, ?_⟩
      have keys := congrArg (List.map Prod.fst) (Json.object.inj same)
      rwa [List.map_map, List.map_map] at keys
  | null | bool | number | string | array => cases same

/-- A value is determined by the shells at its positions. -/
theorem eq_of_shells {first second : Json}
    (same : forall position,
      (first.at? position).map shell = (second.at? position).map shell) : first = second := by
  have outer : second.shell = first.shell := (Option.some.inj (same [])).symm
  induction first using structuralInduction generalizing second with
  | null => exact (eq_null_of_shell outer).symm
  | bool value | number value | string value =>
      cases second with
      | null | bool | number | string | array | object => cases outer <;> rfl
  | array items ih =>
      rcases shell_eq_array outer with ⟨others, rfl, lengths⟩
      congr 1
      apply List.ext_getElem lengths.symm
      intro index bound otherBound
      have inside : forall rest, (items[index].at? rest).map shell =
          (others[index].at? rest).map shell := by
        intro rest
        have here := same (index :: rest)
        rwa [at?_item (List.getElem?_eq_getElem bound),
          at?_item (List.getElem?_eq_getElem otherBound)] at here
      exact ih _ (List.getElem_mem bound) inside (Option.some.inj (inside [])).symm
  | object fields ih =>
      rcases shell_eq_object outer with ⟨others, rfl, keys⟩
      congr 1
      have lengths : fields.length = others.length := by
        have both := congrArg List.length keys
        rwa [List.length_map, List.length_map, eq_comm] at both
      apply List.ext_getElem lengths
      intro index bound otherBound
      have inside : forall rest, (fields[index].2.at? rest).map shell =
          (others[index].2.at? rest).map shell := by
        intro rest
        have here := same (index :: rest)
        rwa [at?_field (List.getElem?_eq_getElem bound),
          at?_field (List.getElem?_eq_getElem otherBound)] at here
      have key : others[index].1 = fields[index].1 := by
        have named := congrArg (fun names : List Text => names[index]?) keys
        simpa [bound, otherBound] using named
      exact Prod.ext key.symm
        (ih _ (List.getElem_mem bound) inside (Option.some.inj (inside [])).symm)

/-! ## Properties of everything in a value -/

section

variable {property : Nat -> Json -> Prop}

theorem throughout_leaf {value : Json} (leaf : forall index, value.child? index = none) :
    Throughout property value ↔ property 0 value := by
  constructor
  · intro all
    exact all [] value rfl
  · intro here position inner stands
    cases position with
    | nil => exact Option.some.inj stands ▸ here
    | cons index rest =>
        rw [at?_cons, leaf index] at stands
        cases stands

theorem throughout_array {items : List Json} : Throughout property (.array items) ↔
    property 0 (.array items) ∧
      forall item, item ∈ items -> Throughout (fun depth => property (depth + 1)) item := by
  constructor
  · intro all
    refine ⟨all [] _ rfl, ?_⟩
    intro item member position inner stands
    rcases List.getElem?_of_mem member with ⟨index, here⟩
    exact all (index :: position) inner ((at?_item here position).trans stands)
  · rintro ⟨here, inside⟩ position inner stands
    cases position with
    | nil => exact Option.some.inj stands ▸ here
    | cons index rest =>
        rcases Option.bind_eq_some_iff.mp stands with ⟨item, found, further⟩
        exact inside item (List.mem_of_getElem? found) rest inner further

theorem throughout_object {fields : Fields} : Throughout property (.object fields) ↔
    property 0 (.object fields) ∧
      forall field, field ∈ fields -> Throughout (fun depth => property (depth + 1)) field.2 := by
  constructor
  · intro all
    refine ⟨all [] _ rfl, ?_⟩
    intro field member position inner stands
    rcases List.getElem?_of_mem member with ⟨index, here⟩
    exact all (index :: position) inner ((at?_field here position).trans stands)
  · rintro ⟨here, inside⟩ position inner stands
    cases position with
    | nil => exact Option.some.inj stands ▸ here
    | cons index rest =>
        rcases Option.bind_eq_some_iff.mp stands with ⟨value, found, further⟩
        rcases Option.map_eq_some_iff.mp found with ⟨field, member, rfl⟩
        exact inside field (List.mem_of_getElem? member) rest inner further

end

end Json
end BuildInputs

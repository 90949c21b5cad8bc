import BuildInputs.Json.Writer
import BuildInputs.Proofs.Json.Sameness

namespace BuildInputs
namespace Json

/-!
# Sorting the keys

Sorting puts the fields of every object into the order of their keys and does nothing else.  What
stands in a value before stands in it afterwards, as deep as before, and the sorted value is the
same as the other but for that order.
-/

theorem sortedItems_eq_map (items : List Json) : sortedItems items = items.map sorted := by
  induction items with
  | nil => rfl
  | cons item items ih => rw [sortedItems, List.map_cons, ih]

theorem insertSorted_perm (field : Text × Json) (fields : Fields) :
    (insertSorted field fields).Perm (field :: fields) := by
  induction fields with
  | nil => exact List.Perm.refl _
  | cons head fields ih =>
      rw [insertSorted]
      split
      · exact List.Perm.refl _
      · exact (ih.cons head).trans (List.Perm.swap field head fields)

theorem sortedFields_perm (fields : Fields) :
    (sortedFields fields).Perm (fields.map fun field => (field.1, sorted field.2)) := by
  induction fields with
  | nil => exact List.Perm.refl _
  | cons field fields ih =>
      rcases field with ⟨key, value⟩
      rw [sortedFields, List.map_cons]
      exact (insertSorted_perm _ _).trans (ih.cons _)

theorem exists_of_mem_sortedFields {fields : Fields} {field : Text × Json}
    (member : field ∈ sortedFields fields) :
    exists old, old ∈ fields ∧ (old.1, sorted old.2) = field :=
  List.mem_map.mp ((sortedFields_perm fields).mem_iff.mp member)

theorem sorted_array (items : List Json) : sorted (.array items) = .array (items.map sorted) := by
  rw [sorted, sortedItems_eq_map]

theorem sorted_object (fields : Fields) : sorted (.object fields) = .object (sortedFields fields) := by
  rw [sorted]

theorem keys_sortedFields_perm (fields : Fields) :
    ((sortedFields fields).map Prod.fst).Perm (fields.map Prod.fst) := by
  have keys := (sortedFields_perm fields).map Prod.fst
  rwa [List.map_map] at keys

/-- What holds throughout a value holds throughout the sorted value, if sorting the fields of one
object does not put an end to it. -/
theorem Throughout.sorted {property : Nat -> Json -> Prop} {value : Json}
    (all : Throughout property value)
    (stable : forall depth inner, property depth inner -> property depth inner.sorted) :
    Throughout property value.sorted := by
  induction value using structuralInduction generalizing property with
  | null | bool value | number value | string value =>
      exact all
  | array items ih =>
      rcases throughout_array.mp all with ⟨here, inside⟩
      have sortedHere := stable 0 _ here
      rw [sorted_array] at sortedHere ⊢
      refine throughout_array.mpr ⟨sortedHere, ?_⟩
      intro item member
      rcases List.mem_map.mp member with ⟨old, known, rfl⟩
      exact ih old known (inside old known) fun depth => stable (depth + 1)
  | object fields ih =>
      rcases throughout_object.mp all with ⟨here, inside⟩
      have sortedHere := stable 0 _ here
      rw [sorted_object] at sortedHere ⊢
      refine throughout_object.mpr ⟨sortedHere, ?_⟩
      intro field member
      rcases exists_of_mem_sortedFields member with ⟨old, known, rfl⟩
      exact ih old known (inside old known) fun depth => stable (depth + 1)

theorem HasDistinctKeys.sorted {value : Json} (distinct : value.HasDistinctKeys) :
    value.sorted.HasDistinctKeys := by
  cases value with
  | object fields =>
      rw [sorted_object]
      exact (keys_sortedFields_perm fields).nodup_iff.mpr distinct
  | array items =>
      rw [sorted_array]
      exact trivial
  | null | bool | number | string =>
      exact trivial

theorem KeysDistinct.sorted {value : Json} (distinct : value.KeysDistinct) :
    value.sorted.KeysDistinct :=
  Throughout.sorted distinct fun _ _ here => here.sorted

/-- A sorted value is the same as before but for the order of keys. -/
theorem same_sorted {value : Json} (distinct : value.KeysDistinct) :
    same value.sorted value = true := by
  induction value using structuralInduction with
  | null | bool value | number value | string value =>
      exact same_self distinct
  | array items ih =>
      have each := same_array_map Json.sorted id fun item member =>
        ih item member (keysDistinct_array.mp distinct item member)
      rwa [List.map_id, ← sorted_array] at each
  | object fields ih =>
      rcases keysDistinct_object.mp distinct with ⟨keys, inside⟩
      rw [sorted_object]
      apply same_object
      · rw [(sortedFields_perm fields).length_eq, List.length_map]
      · intro field member
        rcases exists_of_mem_sortedFields member with ⟨old, known, rfl⟩
        exact ⟨old.2, Fields.get?_of_mem keys known, ih old known (inside old known)⟩

end Json
end BuildInputs

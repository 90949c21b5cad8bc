import BuildInputs.Proofs.Json.Fields
import BuildInputs.Proofs.Json.Positions

namespace BuildInputs
namespace Json

/-!
# Setting keys and what holds throughout

Properties of everything in a value are carried over to what is made of it by setting keys.  A
property has to meet two conditions for this.  It is about the shells in the value, so that it does
not notice when something deeper inside is replaced, and no object loses it when a key is set.
-/

/-- A property of the shells in a value that objects keep when a key is set. -/
structure Lasting (property : Nat -> Json -> Prop) : Prop where
  shell : forall depth value, property depth value.shell ↔ property depth value
  insert : forall depth (fields : Fields) key value, property depth (.object fields) ->
    property depth (.object (fields.insert key value))

section

variable {property : Nat -> Json -> Prop} {fields : Fields}

theorem Lasting.deeper (lasting : Lasting property) (levels : Nat) :
    Lasting fun depth => property (depth + levels) where
  shell := fun depth => lasting.shell (depth + levels)
  insert := fun depth => lasting.insert (depth + levels)

/-- What holds throughout a value holds throughout each part of it, so much deeper. -/
theorem Throughout.at? {value inner : Json} {position : Position}
    (all : Throughout property value) (stands : value.at? position = some inner) :
    Throughout (fun depth => property (position.length + depth)) inner := by
  intro rest deep found
  rw [← List.length_append]
  apply all
  rw [at?_append, stands, Option.bind_some, found]

theorem Throughout.get? {key : Text} {value : Json} (all : Throughout property (.object fields))
    (known : fields.get? key = some value) :
    Throughout (fun depth => property (depth + 1)) value :=
  (throughout_object.mp all).2 _ (Fields.mem_of_get? known)

theorem Throughout.insert {value : Json} (lasting : Lasting property)
    (all : Throughout property (.object fields)) (key : Text)
    (new : Throughout (fun depth => property (depth + 1)) value) :
    Throughout property (.object (fields.insert key value)) := by
  rcases throughout_object.mp all with ⟨here, inside⟩
  refine throughout_object.mpr ⟨lasting.insert 0 fields key value here, ?_⟩
  intro field member
  rcases Fields.mem_insert member with rfl | known
  · exact new
  · exact inside field known

theorem Throughout.insertAll {additions : Fields} (lasting : Lasting property)
    (all : Throughout property (.object fields))
    (new : forall field, field ∈ additions ->
      Throughout (fun depth => property (depth + 1)) field.2) :
    Throughout property (.object (fields.insertAll additions)) := by
  induction additions generalizing fields with
  | nil => exact all
  | cons field additions ih =>
      rw [List.forall_mem_cons] at new
      rw [Fields.insertAll_cons]
      exact ih (all.insert lasting field.1 new.1) new.2

end

end Json
end BuildInputs

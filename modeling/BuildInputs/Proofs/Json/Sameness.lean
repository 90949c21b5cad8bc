import BuildInputs.Proofs.Json.Setting

namespace BuildInputs
namespace Json

/-!
# Values that are the same but for the order of keys

Objects are compared by looking each key of the first up in the second.  That is a comparison of
values only where no key comes twice in an object, as in everything that was read or put together
by setting keys.  On such values it has the laws that are expected of it.
-/

/-- No key comes twice in the value, if it is an object. -/
def HasDistinctKeys : Json -> Prop
  | .object fields => (fields.map Prod.fst).Nodup
  | _ => True

/-- No key comes twice in any object of the value. -/
def KeysDistinct (value : Json) : Prop :=
  value.Throughout fun _ inner => inner.HasDistinctKeys

/-! ## Distinct keys -/

theorem keysDistinct_array {items : List Json} :
    KeysDistinct (.array items) ↔ forall item, item ∈ items -> KeysDistinct item := by
  rw [KeysDistinct, throughout_array]
  exact ⟨fun both => both.2, fun inside => ⟨trivial, inside⟩⟩

theorem keysDistinct_object {fields : Fields} : KeysDistinct (.object fields) ↔
    (fields.map Prod.fst).Nodup ∧ forall field, field ∈ fields -> KeysDistinct field.2 := by
  rw [KeysDistinct, throughout_object]
  exact Iff.rfl

@[simp] theorem keysDistinct_null : KeysDistinct .null :=
  (throughout_leaf fun _ => rfl).mpr trivial

@[simp] theorem keysDistinct_bool (value : Bool) : KeysDistinct (.bool value) :=
  (throughout_leaf fun _ => rfl).mpr trivial

@[simp] theorem keysDistinct_number (value : Number) : KeysDistinct (.number value) :=
  (throughout_leaf fun _ => rfl).mpr trivial

@[simp] theorem keysDistinct_string (text : Text) : KeysDistinct (.string text) :=
  (throughout_leaf fun _ => rfl).mpr trivial

theorem lasting_keysDistinct : Lasting fun _ inner => inner.HasDistinctKeys where
  shell := by
    intro _ value
    cases value with
    | object fields =>
        rw [shell, HasDistinctKeys, HasDistinctKeys, List.map_map]
        rfl
    | null | bool | number | string | array => exact Iff.rfl
  insert := fun _ _ key value distinct => Fields.nodup_insert distinct key value

theorem KeysDistinct.get? {fields : Fields} {key : Text} {value : Json}
    (distinct : KeysDistinct (.object fields)) (known : fields.get? key = some value) :
    KeysDistinct value :=
  Throughout.get? distinct known

theorem KeysDistinct.insert {fields : Fields} {value : Json}
    (distinct : KeysDistinct (.object fields)) (key : Text) (new : KeysDistinct value) :
    KeysDistinct (.object (fields.insert key value)) :=
  Throughout.insert lasting_keysDistinct distinct key new

/-! ## The comparison, one level at a time -/

theorem sameFields_iff {first second : Fields} : sameFields first second = true ↔
    forall field, field ∈ first -> exists other,
      second.get? field.1 = some other ∧ same field.2 other = true := by
  induction first with
  | nil => simp [sameFields]
  | cons field first ih =>
      rcases field with ⟨key, value⟩
      rw [sameFields, Bool.and_eq_true, ih, List.forall_mem_cons]
      cases second.get? key with
      | none => simp
      | some other => simp

theorem same_object {first second : Fields} (lengths : first.length = second.length)
    (each : forall field, field ∈ first -> exists other,
      second.get? field.1 = some other ∧ same field.2 other = true) :
    same (.object first) (.object second) = true := by
  rw [same, Bool.and_eq_true, decide_eq_true_iff]
  exact ⟨lengths, sameFields_iff.mpr each⟩

theorem sameItems_map {items : List Json} {first second : Json -> Json}
    (each : forall item, item ∈ items -> same (first item) (second item) = true) :
    sameItems (items.map first) (items.map second) = true := by
  induction items with
  | nil => rfl
  | cons item items ih =>
      rw [List.forall_mem_cons] at each
      rw [List.map_cons, List.map_cons, sameItems, each.1, ih each.2, Bool.and_self]

theorem same_array_map {items : List Json} (first second : Json -> Json)
    (each : forall item, item ∈ items -> same (first item) (second item) = true) :
    same (.array (items.map first)) (.array (items.map second)) = true := by
  rw [same]
  exact sameItems_map each

theorem Number.same_self (number : Number) : number.same number = true := by
  cases number with
  | integer value => exact decide_eq_true rfl
  | double value => simp [Number.same, Double.sameNumber]

/-- A value is the same as itself. -/
theorem same_self {value : Json} (distinct : KeysDistinct value) : same value value = true := by
  induction value using structuralInduction with
  | null => rfl
  | bool value => simp [same]
  | number value => rw [same, Number.same_self]
  | string text => simp [same]
  | array items ih =>
      have each := same_array_map id id fun item member =>
        ih item member (keysDistinct_array.mp distinct item member)
      rwa [List.map_id] at each
  | object fields ih =>
      rcases keysDistinct_object.mp distinct with ⟨keys, inside⟩
      apply same_object rfl
      intro field member
      exact ⟨field.2, Fields.get?_of_mem keys member, ih field member (inside field member)⟩

/-- Objects with the same values for all keys are the same. -/
theorem same_of_get? {first second : Fields} (distinct : KeysDistinct (.object first))
    (lengths : first.length = second.length)
    (values : forall key, first.get? key = second.get? key) :
    same (.object first) (.object second) = true := by
  rcases keysDistinct_object.mp distinct with ⟨keys, inside⟩
  apply same_object lengths
  intro field member
  refine ⟨field.2, ?_, same_self (inside field member)⟩
  rw [← values, Fields.get?_of_mem keys member]

theorem same_insert {fields : Fields} {value other : Json} (distinct : KeysDistinct (.object fields))
    (key : Text) (alike : same value other = true) :
    same (.object (fields.insert key value)) (.object (fields.insert key other)) = true := by
  rcases keysDistinct_object.mp distinct with ⟨keys, inside⟩
  apply same_object
  · rw [Fields.length_insert, Fields.length_insert]
  · intro field member
    by_cases asked : key = field.1
    · have known := Fields.get?_of_mem (Fields.nodup_insert keys key value) member
      rw [← asked, Fields.get?_insert_self] at known
      refine ⟨other, by rw [← asked, Fields.get?_insert_self], ?_⟩
      rwa [← Option.some.inj known]
    · rcases Fields.mem_insert member with rfl | member
      · exact absurd rfl asked
      · refine ⟨field.2, ?_, same_self (inside field member)⟩
        rw [Fields.get?_insert_of_ne asked, Fields.get?_of_mem keys member]

/-- The order in which two keys are set does not count. -/
theorem same_insert_insert {fields : Fields} {key other : Text} {value more : Json}
    (distinct : KeysDistinct (.object fields)) (different : key ≠ other)
    (valueDistinct : KeysDistinct value) (moreDistinct : KeysDistinct more) :
    same (.object ((fields.insert key value).insert other more))
      (.object ((fields.insert other more).insert key value)) = true := by
  apply same_of_get? ((distinct.insert key valueDistinct).insert other moreDistinct)
  · simp only [Fields.length_insert, Fields.mem_map_fst_insert, different, different.symm,
      false_or]
    split <;> split <;> rfl
  · intro asked
    by_cases first : key = asked
    · subst asked
      rw [Fields.get?_insert_of_ne different.symm, Fields.get?_insert_self,
        Fields.get?_insert_self]
    · rw [Fields.get?_insert_of_ne first]
      by_cases second : other = asked
      · subst asked
        rw [Fields.get?_insert_self, Fields.get?_insert_self]
      · rw [Fields.get?_insert_of_ne second, Fields.get?_insert_of_ne second,
          Fields.get?_insert_of_ne first]

end Json
end BuildInputs

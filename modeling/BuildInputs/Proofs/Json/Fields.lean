import BuildInputs.Json.Value

namespace BuildInputs
namespace Json
namespace Fields

/-!
# The fields of an object

Looking a key up in the fields of an object goes from the left, and the first field with that
key answers.  Setting a key changes the value of that field and of no other, and adds a field at
the end only if there was none.
-/

theorem get?_nil (key : Text) : get? [] key = none :=
  rfl

theorem get?_cons (field : Text × Json) (fields : Fields) (key : Text) :
    get? (field :: fields) key = if field.1 = key then some field.2 else get? fields key := by
  rw [get?, List.find?_cons]
  by_cases same : field.1 = key
  · rw [if_pos same, decide_eq_true same]
    rfl
  · rw [if_neg same, decide_eq_false same]
    rfl

theorem sizeOf_get?_lt {fields : Fields} {key : Text} {value : Json}
    (found : get? fields key = some value) : sizeOf value < sizeOf fields := by
  induction fields with
  | nil => cases found
  | cons field fields ih =>
      rcases field with ⟨name, known⟩
      rw [get?_cons] at found
      simp only [List.cons.sizeOf_spec, Prod.mk.sizeOf_spec]
      split at found
      · have same : known = value := Option.some.inj found
        rw [same]
        omega
      · have smaller := ih found
        omega

theorem insert_cons (field : Text × Json) (fields : Fields) (key : Text) (value : Json) :
    insert (field :: fields) key value =
      if field.1 = key then (key, value) :: fields else field :: insert fields key value :=
  rfl

@[simp] theorem get?_insert_self (fields : Fields) (key : Text) (value : Json) :
    get? (insert fields key value) key = some value := by
  induction fields with
  | nil => exact get?_cons (key, value) [] key ▸ if_pos rfl
  | cons field fields ih =>
      rw [insert_cons]
      by_cases same : field.1 = key
      · rw [if_pos same, get?_cons, if_pos rfl]
      · rw [if_neg same, get?_cons, if_neg same, ih]

theorem get?_insert_of_ne {key other : Text} (different : key ≠ other) (fields : Fields)
    (value : Json) : get? (insert fields key value) other = get? fields other := by
  induction fields with
  | nil => rw [insert, get?_cons, if_neg different]
  | cons field fields ih =>
      rw [insert_cons, get?_cons field]
      by_cases same : field.1 = key
      · rw [if_pos same, get?_cons, if_neg different, if_neg (same ▸ different)]
      · rw [if_neg same, get?_cons, ih]

/-- Of two values for a key the later one counts. -/
theorem insert_insert (fields : Fields) (key : Text) (first second : Json) :
    insert (insert fields key first) key second = insert fields key second := by
  induction fields with
  | nil => rw [insert, insert_cons, if_pos rfl, insert]
  | cons field fields ih =>
      rw [insert_cons, insert_cons]
      by_cases same : field.1 = key
      · rw [if_pos same, if_pos same, insert_cons, if_pos rfl]
      · rw [if_neg same, if_neg same, insert_cons, if_neg same, ih]

/-- Setting a key to the value it has changes nothing, not even the order. -/
theorem insert_of_get? {fields : Fields} {key : Text} {value : Json}
    (known : get? fields key = some value) : insert fields key value = fields := by
  induction fields with
  | nil => cases known
  | cons field fields ih =>
      rw [get?_cons] at known
      rw [insert_cons]
      by_cases same : field.1 = key
      · rw [if_pos same] at known ⊢
        rw [← same, ← Option.some.inj known]
      · rw [if_neg same] at known ⊢
        rw [ih known]

/-! ## The place of a key -/

/-- The number of the first field with a key. -/
def indexOf (fields : Fields) (key : Text) : Nat :=
  fields.findIdx fun field => field.1 = key

theorem getElem?_indexOf {fields : Fields} {key : Text} {value : Json}
    (known : get? fields key = some value) :
    fields[indexOf fields key]? = some (key, value) := by
  induction fields with
  | nil => cases known
  | cons field fields ih =>
      rw [get?_cons] at known
      rw [indexOf, List.findIdx_cons]
      by_cases same : field.1 = key
      · rw [if_pos same] at known
        rw [decide_eq_true same, cond_true, List.getElem?_cons_zero, ← same,
          ← Option.some.inj known]
      · rw [if_neg same] at known
        rw [decide_eq_false same, cond_false, List.getElem?_cons_succ]
        exact ih known

/-- Setting a key that is there replaces its field and leaves all others in their places. -/
theorem insert_eq_set {fields : Fields} {key : Text} {old : Json}
    (known : get? fields key = some old) (value : Json) :
    insert fields key value = fields.set (indexOf fields key) (key, value) := by
  induction fields with
  | nil => cases known
  | cons field fields ih =>
      rw [get?_cons] at known
      rw [insert_cons, indexOf, List.findIdx_cons]
      by_cases same : field.1 = key
      · rw [if_pos same, decide_eq_true same, cond_true, List.set_cons_zero]
      · rw [if_neg same] at known
        rw [if_neg same, decide_eq_false same, cond_false, List.set_cons_succ, ih known]
        rfl

/-! ## The keys of an object -/

theorem mem_of_get? {fields : Fields} {key : Text} {value : Json}
    (known : get? fields key = some value) : (key, value) ∈ fields :=
  List.mem_of_getElem? (getElem?_indexOf known)

theorem get?_eq_none_iff {fields : Fields} {key : Text} :
    get? fields key = none ↔ key ∉ fields.map Prod.fst := by
  induction fields with
  | nil => simp [get?_nil]
  | cons field fields ih =>
      rw [get?_cons, List.map_cons, List.mem_cons, not_or, ← ih, @eq_comm _ key]
      by_cases same : field.1 = key <;> simp [same]

/-- Where no key comes twice, each field answers for its key. -/
theorem get?_of_mem {fields : Fields} (distinct : (fields.map Prod.fst).Nodup)
    {field : Text × Json} (member : field ∈ fields) :
    get? fields field.1 = some field.2 := by
  induction fields with
  | nil => cases member
  | cons head fields ih =>
      rw [List.map_cons, List.nodup_cons] at distinct
      rw [get?_cons]
      rcases List.mem_cons.mp member with rfl | member
      · rw [if_pos rfl]
      · have different : head.1 ≠ field.1 := by
          intro same
          exact distinct.1 (same ▸ List.mem_map_of_mem member)
        rw [if_neg different]
        exact ih distinct.2 member

theorem mem_insert {fields : Fields} {key : Text} {value : Json} {field : Text × Json}
    (member : field ∈ insert fields key value) : field = (key, value) ∨ field ∈ fields := by
  induction fields with
  | nil => exact Or.inl (List.mem_singleton.mp member)
  | cons head fields ih =>
      rw [insert_cons] at member
      split at member
      · rcases List.mem_cons.mp member with same | member
        · exact Or.inl same
        · exact Or.inr (List.mem_cons_of_mem _ member)
      · rcases List.mem_cons.mp member with rfl | member
        · exact Or.inr List.mem_cons_self
        · exact (ih member).imp_right (List.mem_cons_of_mem _)

/-- A key that is new comes last. -/
theorem insert_of_not_mem {fields : Fields} {key : Text} (fresh : key ∉ fields.map Prod.fst)
    (value : Json) : insert fields key value = fields ++ [(key, value)] := by
  induction fields with
  | nil => rfl
  | cons field fields ih =>
      rw [List.map_cons, List.mem_cons, not_or] at fresh
      rw [insert_cons, if_neg (Ne.symm fresh.1), ih fresh.2, List.cons_append]

/-- The keys are those from before, and the new one behind them unless it was there. -/
theorem map_fst_insert (fields : Fields) (key : Text) (value : Json) :
    (insert fields key value).map Prod.fst =
      if key ∈ fields.map Prod.fst then fields.map Prod.fst else fields.map Prod.fst ++ [key] := by
  split
  · next known =>
      have found : get? fields key ≠ none := fun none => get?_eq_none_iff.mp none known
      rcases Option.ne_none_iff_exists'.mp found with ⟨old, found⟩
      have stood : (fields.map Prod.fst)[indexOf fields key]? = some key := by
        rw [List.getElem?_map, getElem?_indexOf found, Option.map_some]
      rcases List.getElem?_eq_some_iff.mp stood with ⟨bound, same⟩
      rw [insert_eq_set found, List.map_set]
      calc (fields.map Prod.fst).set (indexOf fields key) key
          = (fields.map Prod.fst).set (indexOf fields key)
              (fields.map Prod.fst)[indexOf fields key] := by rw [same]
        _ = fields.map Prod.fst := List.set_getElem_self bound
  · next fresh => rw [insert_of_not_mem fresh, List.map_append, List.map_singleton]

theorem length_insert (fields : Fields) (key : Text) (value : Json) :
    (insert fields key value).length =
      if key ∈ fields.map Prod.fst then fields.length else fields.length + 1 := by
  have keys := congrArg List.length (map_fst_insert fields key value)
  rw [List.length_map] at keys
  rw [keys]
  split <;> simp

theorem mem_map_fst_insert {fields : Fields} {key other : Text} {value : Json} :
    other ∈ (insert fields key value).map Prod.fst ↔
      other = key ∨ other ∈ fields.map Prod.fst := by
  rw [map_fst_insert]
  split
  · next known =>
      constructor
      · exact Or.inr
      · rintro (rfl | member)
        · exact known
        · exact member
  · rw [List.mem_append, List.mem_singleton, or_comm]

theorem nodup_insert {fields : Fields} (distinct : (fields.map Prod.fst).Nodup) (key : Text)
    (value : Json) : ((insert fields key value).map Prod.fst).Nodup := by
  rw [map_fst_insert]
  split
  · exact distinct
  · next fresh =>
      rw [List.nodup_append]
      refine ⟨distinct, List.nodup_cons.mpr ⟨List.not_mem_nil, List.nodup_nil⟩, ?_⟩
      rintro known member other last rfl
      exact fresh (List.mem_singleton.mp last ▸ member)

/-! ## Setting several keys -/

theorem insertAll_cons (fields : Fields) (field : Text × Json) (additions : Fields) :
    insertAll fields (field :: additions) = insertAll (insert fields field.1 field.2) additions :=
  rfl

theorem get?_insertAll_of_not_mem {additions : Fields} {key : Text}
    (other : key ∉ additions.map Prod.fst) (fields : Fields) :
    get? (insertAll fields additions) key = get? fields key := by
  induction additions generalizing fields with
  | nil => rfl
  | cons field additions ih =>
      rw [List.map_cons, List.mem_cons, not_or] at other
      rw [insertAll_cons, ih other.2, get?_insert_of_ne (Ne.symm other.1)]

theorem get?_insertAll_of_mem {additions : Fields} (distinct : (additions.map Prod.fst).Nodup)
    {field : Text × Json} (member : field ∈ additions) (fields : Fields) :
    get? (insertAll fields additions) field.1 = some field.2 := by
  induction additions generalizing fields with
  | nil => cases member
  | cons head additions ih =>
      rw [List.map_cons, List.nodup_cons] at distinct
      rw [insertAll_cons]
      rcases List.mem_cons.mp member with rfl | member
      · rw [get?_insertAll_of_not_mem distinct.1, get?_insert_self]
      · exact ih distinct.2 member _

/-- Setting keys to the values they have changes nothing. -/
theorem insertAll_of_get? {fields additions : Fields}
    (known : forall field, field ∈ additions -> get? fields field.1 = some field.2) :
    insertAll fields additions = fields := by
  induction additions with
  | nil => rfl
  | cons field additions ih =>
      rw [insertAll_cons, insert_of_get? (known field List.mem_cons_self)]
      exact ih fun other member => known other (List.mem_cons_of_mem _ member)

end Fields
end Json
end BuildInputs

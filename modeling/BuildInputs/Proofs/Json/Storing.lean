import Mathlib.Algebra.Group.Int.Defs
import BuildInputs.Proofs.Json.RoundTrip
import BuildInputs.Proofs.Json.Sorting

namespace BuildInputs
namespace Json

/-!
# Values that are stored as text

A value can be stored if it does not nest deeper than the reader goes, no key comes twice in an
object, and its numbers are integers that fit 64 bits.  Such a value is read back from its text
as it was, with the order of keys.  Everything that was read satisfies the first two conditions,
since the reader counts the levels and sets keys one by one, so that only the numbers are left to
ask about.
-/

/-- The number is an integer that fits 64 bits, with or without a sign. -/
def HasExactNumber : Json -> Prop
  | .number (.integer value) => -2 ^ 63 ≤ value ∧ value ≤ 2 ^ 64 - 1
  | .number (.double _) => False
  | _ => True

/-- All numbers in the value are integers that fit 64 bits, with or without a sign. -/
def IsExact (value : Json) : Prop :=
  value.Throughout fun _ inner => inner.HasExactNumber

/-- A value that has others in it. -/
def IsContainer : Json -> Prop
  | .array _ | .object _ => True
  | _ => False

/-- Arrays and objects are not nested deeper than to a limit. -/
def NestsWithin (limit : Nat) (value : Json) : Prop :=
  value.Throughout fun depth inner => inner.IsContainer -> depth < limit

section

variable {limit : Nat}

theorem isExact_array {items : List Json} :
    IsExact (.array items) ↔ forall item, item ∈ items -> IsExact item := by
  rw [IsExact, throughout_array]
  exact ⟨fun both => both.2, fun inside => ⟨trivial, inside⟩⟩

theorem isExact_object {fields : Fields} :
    IsExact (.object fields) ↔ forall field, field ∈ fields -> IsExact field.2 := by
  rw [IsExact, throughout_object]
  exact ⟨fun both => both.2, fun inside => ⟨trivial, inside⟩⟩

theorem isExact_string (text : Text) : IsExact (.string text) :=
  (throughout_leaf fun _ => rfl).mpr trivial

theorem isExact_number {number : Number} :
    IsExact (.number number) ↔ HasExactNumber (.number number) :=
  throughout_leaf fun _ => rfl

theorem nestsWithin_leaf {value : Json} (leaf : forall index, value.child? index = none)
    (flat : ¬ value.IsContainer) : NestsWithin limit value :=
  (throughout_leaf leaf).mpr fun container => absurd container flat

/-- There is room for one level more, and then for what is inside of it. -/
theorem room_iff (inside : Nat -> Prop) :
    0 < limit ∧ inside limit ↔ exists fewer, limit = fewer + 1 ∧ inside (fewer + 1) := by
  cases limit with
  | zero => simp
  | succ fewer => simp

theorem nestsWithin_array {items : List Json} : NestsWithin limit (.array items) ↔
    exists fewer, limit = fewer + 1 ∧ forall item, item ∈ items -> NestsWithin fewer item := by
  have room := @room_iff limit fun limit => forall item, item ∈ items ->
    item.Throughout fun depth inner => inner.IsContainer -> depth + 1 < limit
  simpa only [NestsWithin, throughout_array, IsContainer, forall_const,
    Nat.add_lt_add_iff_right] using room

theorem nestsWithin_object {fields : Fields} : NestsWithin limit (.object fields) ↔
    exists fewer, limit = fewer + 1 ∧
      forall field, field ∈ fields -> NestsWithin fewer field.2 := by
  have room := @room_iff limit fun limit => forall field, field ∈ fields ->
    field.2.Throughout fun depth inner => inner.IsContainer -> depth + 1 < limit
  simpa only [NestsWithin, throughout_object, IsContainer, forall_const,
    Nat.add_lt_add_iff_right] using room

theorem IsExact.sorted {value : Json} (exact : value.IsExact) : value.sorted.IsExact := by
  apply Throughout.sorted exact
  intro _ inner here
  cases inner with
  | array items =>
      rw [sorted_array]
      exact trivial
  | object fields =>
      rw [sorted_object]
      exact trivial
  | null | bool | number | string =>
      exact here

theorem NestsWithin.sorted {value : Json} (nests : value.NestsWithin limit) :
    value.sorted.NestsWithin limit := by
  apply Throughout.sorted nests
  intro _ inner here
  cases inner with
  | array items | object fields => exact fun _ => here trivial
  | null | bool | number | string =>
      exact here

end

/-! ## What a written value means -/

theorem digitsValue_ofNat (number : Nat) : Text.digitsValue (Text.ofNat number) = number :=
  Nat.ofDigitChars_ten_toDigits

theorem numberOf_spellInteger {value : Int} (low : -2 ^ 63 ≤ value) (high : value ≤ 2 ^ 64 - 1) :
    numberOf (spellInteger value) = some (.integer value) := by
  have greatest : greatestInteger = 2 ^ 64 - 1 := rfl
  have negative : greatestNegative = 2 ^ 63 := rfl
  rw [numberOf, spellInteger, digitsValue_ofNat]
  by_cases below : value < 0
  · have fits : (decide (0 < value.natAbs) && decide (value.natAbs ≤ greatestNegative)) = true := by
      rw [Bool.and_eq_true, decide_eq_true_iff, decide_eq_true_iff]
      omega
    have back : -(value.natAbs : Int) = value := by omega
    simp only [Option.isSome_none, Bool.or_self, Bool.false_eq_true, if_false, decide_eq_true below,
      if_true, fits, back]
  · have fits : value.natAbs ≤ greatestInteger := by omega
    have back : (value.natAbs : Int) = value := by omega
    simp only [Option.isSome_none, Bool.or_self, Bool.false_eq_true, if_false,
      decide_eq_false below, if_pos fits, back]

theorem exists_spelled_items {limit : Nat} {items : List Json}
    (each : forall item, item ∈ items -> exists document,
      spell item = some document ∧ document.depth ≤ limit ∧ ofSpelled document = some item) :
    exists documents, spellItems items = some documents ∧
      Spelled.itemsDepth documents ≤ limit ∧ ofItems documents = some items := by
  induction items with
  | nil => exact ⟨[], rfl, Nat.zero_le _, rfl⟩
  | cons item items ih =>
      rw [List.forall_mem_cons] at each
      rcases each.1 with ⟨document, spelled, shallow, meant⟩
      rcases ih each.2 with ⟨documents, othersSpelled, othersShallow, othersMeant⟩
      refine ⟨document :: documents, ?_, Nat.max_le.mpr ⟨shallow, othersShallow⟩, ?_⟩
      · simp only [spellItems, spelled, othersSpelled, Option.bind_some, Option.map_some]
      · simp only [ofItems, meant, othersMeant, Option.bind_some, Option.map_some]

/-- The fields of a written object are put behind those that are known already. -/
theorem exists_spelled_fields {limit : Nat} {fields : Fields}
    (each : forall field, field ∈ fields -> exists document,
      spell field.2 = some document ∧ document.depth ≤ limit ∧
        ofSpelled document = some field.2) :
    exists documents, spellFields fields = some documents ∧
      Spelled.fieldsDepth documents ≤ limit ∧
      forall known : Fields, ((known ++ fields).map Prod.fst).Nodup ->
        ofFields known documents = some (known ++ fields) := by
  induction fields with
  | nil =>
      refine ⟨[], rfl, Nat.zero_le _, ?_⟩
      intro known _
      rw [List.append_nil]
      rfl
  | cons field fields ih =>
      rcases field with ⟨key, value⟩
      rw [List.forall_mem_cons] at each
      rcases each.1 with ⟨document, spelled, shallow, meant⟩
      rcases ih each.2 with ⟨documents, othersSpelled, othersShallow, othersMeant⟩
      refine ⟨(spellText key, document) :: documents, ?_,
        Nat.max_le.mpr ⟨shallow, othersShallow⟩, ?_⟩
      · simp only [spellFields, spelled, othersSpelled, Option.bind_some, Option.map_some]
      · intro known distinct
        have moved : known ++ (key, value) :: fields = known ++ [(key, value)] ++ fields := by
          rw [List.append_assoc, List.singleton_append]
        have fresh : key ∉ known.map Prod.fst := by
          rw [List.map_append, List.map_cons, List.nodup_append] at distinct
          intro member
          exact distinct.2.2 key member key List.mem_cons_self rfl
        rw [moved] at distinct ⊢
        simp only [ofFields, decodeLetters_spellText, meant, Option.bind_some,
          Fields.insert_of_not_mem fresh]
        exact othersMeant _ distinct

/-- A value that can be stored has a spelling, which is no deeper and stands for the value. -/
theorem exists_spelled {value : Json} {limit : Nat} (distinct : value.KeysDistinct)
    (exact : value.IsExact) (nests : value.NestsWithin limit) :
    exists document, spell value = some document ∧ document.depth ≤ limit ∧
      ofSpelled document = some value := by
  induction value using structuralInduction generalizing limit with
  | null => exact ⟨.null, rfl, Nat.zero_le _, rfl⟩
  | bool value => exact ⟨.bool value, rfl, Nat.zero_le _, rfl⟩
  | number value =>
      cases value with
      | integer value =>
          rcases isExact_number.mp exact with ⟨low, high⟩
          refine ⟨.number (spellInteger value), rfl, Nat.zero_le _, ?_⟩
          rw [ofSpelled, numberOf_spellInteger low high]
          rfl
      | double value => exact (isExact_number.mp exact).elim
  | string text =>
      refine ⟨.string (spellText text), rfl, Nat.zero_le _, ?_⟩
      rw [ofSpelled, decodeLetters_spellText]
      rfl
  | array items ih =>
      rcases nestsWithin_array.mp nests with ⟨fewer, rfl, inside⟩
      have each := exists_spelled_items fun item member =>
        ih item member (keysDistinct_array.mp distinct item member)
          (isExact_array.mp exact item member) (inside item member)
      rcases each with ⟨documents, spelled, shallow, meant⟩
      refine ⟨.array documents, ?_, Nat.succ_le_succ shallow, ?_⟩
      · rw [spell, spelled, Option.map_some]
      · rw [ofSpelled, meant, Option.map_some]
  | object fields ih =>
      rcases nestsWithin_object.mp nests with ⟨fewer, rfl, inside⟩
      rcases keysDistinct_object.mp distinct with ⟨keys, distinctInside⟩
      have each := exists_spelled_fields fun field member =>
        ih field member (distinctInside field member)
          (isExact_object.mp exact field member) (inside field member)
      rcases each with ⟨documents, spelled, shallow, meant⟩
      refine ⟨.object documents, ?_, Nat.succ_le_succ shallow, ?_⟩
      · rw [spell, spelled, Option.map_some]
      · rw [ofSpelled, meant [] keys, Option.map_some, List.nil_append]

/-- A value that can be stored is read back from its text. -/
theorem parse_write {value : Json} (distinct : value.KeysDistinct) (exact : value.IsExact)
    (nests : value.NestsWithin depthLimit) : parse value.write = some value := by
  rcases exists_spelled distinct exact nests with ⟨document, spelled, shallow, meant⟩
  rw [parse, read_write spelled, Option.bind_some, if_pos shallow, meant]

/-! ## What was read -/

mutual

/-- A document stands for a value without repeated keys that is no deeper. -/
theorem ofSpelled_storable (document : Spelled) {value : Json} {limit : Nat}
    (shallow : document.depth ≤ limit) (meant : ofSpelled document = some value) :
    value.KeysDistinct ∧ value.NestsWithin limit := by
  match document with
  | .null =>
      cases meant
      exact ⟨keysDistinct_null, nestsWithin_leaf (fun _ => rfl) id⟩
  | .bool value =>
      cases meant
      exact ⟨keysDistinct_bool value, nestsWithin_leaf (fun _ => rfl) id⟩
  | .number spelling =>
      rcases Option.map_eq_some_iff.mp meant with ⟨number, _, rfl⟩
      exact ⟨keysDistinct_number number, nestsWithin_leaf (fun _ => rfl) id⟩
  | .string letters =>
      rcases Option.map_eq_some_iff.mp meant with ⟨text, _, rfl⟩
      exact ⟨keysDistinct_string text, nestsWithin_leaf (fun _ => rfl) id⟩
  | .array documents =>
      rcases Option.map_eq_some_iff.mp meant with ⟨items, itemsMeant, rfl⟩
      rw [Spelled.depth] at shallow
      cases limit with
      | zero => exact absurd shallow (Nat.not_succ_le_zero _)
      | succ fewer =>
          have inside := ofItems_storable documents (Nat.le_of_succ_le_succ shallow) itemsMeant
          refine ⟨keysDistinct_array.mpr fun item member => (inside item member).1, ?_⟩
          exact nestsWithin_array.mpr ⟨fewer, rfl, fun item member => (inside item member).2⟩
  | .object documents =>
      rcases Option.map_eq_some_iff.mp meant with ⟨fields, fieldsMeant, rfl⟩
      rw [Spelled.depth] at shallow
      cases limit with
      | zero => exact absurd shallow (Nat.not_succ_le_zero _)
      | succ fewer =>
          have empty : (([] : Fields).map Prod.fst).Nodup := List.nodup_nil
          rcases ofFields_storable documents (Nat.le_of_succ_le_succ shallow) empty
            (fun _ none => absurd none List.not_mem_nil) fieldsMeant with ⟨keys, inside⟩
          refine ⟨keysDistinct_object.mpr ⟨keys, fun field member => (inside field member).1⟩, ?_⟩
          exact nestsWithin_object.mpr ⟨fewer, rfl, fun field member => (inside field member).2⟩

theorem ofItems_storable (documents : List Spelled) {items : List Json} {limit : Nat}
    (shallow : Spelled.itemsDepth documents ≤ limit) (meant : ofItems documents = some items) :
    forall item, item ∈ items -> item.KeysDistinct ∧ item.NestsWithin limit := by
  match documents with
  | [] =>
      cases meant
      exact fun _ none => absurd none List.not_mem_nil
  | document :: documents =>
      rcases Option.bind_eq_some_iff.mp meant with ⟨item, itemMeant, further⟩
      rcases Option.map_eq_some_iff.mp further with ⟨others, othersMeant, rfl⟩
      rcases Nat.max_le.mp shallow with ⟨itemShallow, othersShallow⟩
      rw [List.forall_mem_cons]
      exact ⟨ofSpelled_storable document itemShallow itemMeant,
        ofItems_storable documents othersShallow othersMeant⟩

/-- Setting the fields of a document one after another keeps the keys distinct. -/
theorem ofFields_storable (documents : List (List Letter × Spelled)) {known fields : Fields}
    {limit : Nat} (shallow : Spelled.fieldsDepth documents ≤ limit)
    (distinct : (known.map Prod.fst).Nodup)
    (before : forall field, field ∈ known -> field.2.KeysDistinct ∧ field.2.NestsWithin limit)
    (meant : ofFields known documents = some fields) :
    (fields.map Prod.fst).Nodup ∧
      forall field, field ∈ fields -> field.2.KeysDistinct ∧ field.2.NestsWithin limit := by
  match documents with
  | [] =>
      cases meant
      exact ⟨distinct, before⟩
  | (letters, document) :: documents =>
      rcases Option.bind_eq_some_iff.mp meant with ⟨key, _, further⟩
      rcases Option.bind_eq_some_iff.mp further with ⟨value, valueMeant, othersMeant⟩
      rcases Nat.max_le.mp shallow with ⟨valueShallow, othersShallow⟩
      have new := ofSpelled_storable document valueShallow valueMeant
      apply ofFields_storable documents othersShallow (Fields.nodup_insert distinct key value)
      · intro field member
        rcases Fields.mem_insert member with rfl | old
        · exact new
        · exact before field old
      · exact othersMeant

end

theorem storable_of_parse {text : Text} {value : Json} (parsed : parse text = some value) :
    value.KeysDistinct ∧ value.NestsWithin depthLimit := by
  rcases Option.bind_eq_some_iff.mp parsed with ⟨document, _, meant⟩
  split at meant
  · next shallow => exact ofSpelled_storable document shallow meant
  · cases meant

end Json
end BuildInputs

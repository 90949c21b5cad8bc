import BuildInputs.Proofs.Json.Storing

namespace BuildInputs
namespace Json

/-!
# Values that nest deeper than the reader goes

The writer has no limit, and the reader has one.  A value without doubles is spelled as it is
however deep it nests, and its text is refused exactly if it nests deeper than the limit.
-/

/-! ## Numbers and levels are seen from outside -/

theorem lasting_isExact : Lasting fun _ inner => inner.HasExactNumber where
  shell := by
    intro _ value
    cases value <;> exact Iff.rfl
  insert := fun _ _ _ _ _ => trivial

theorem lasting_nestsWithin (limit : Nat) :
    Lasting fun depth inner => inner.IsContainer -> depth < limit where
  shell := by
    intro _ value
    cases value <;> exact Iff.rfl
  insert := fun _ _ _ _ shallow _ => shallow trivial

/-! ## Values have a depth -/

theorem NestsWithin.mono {value : Json} {limit other : Nat} (nests : value.NestsWithin limit)
    (more : limit ≤ other) : value.NestsWithin other :=
  fun position inner stands container =>
    Nat.lt_of_lt_of_le (nests position inner stands container) more

/-- Within a limit that is lowered by the levels above a value. -/
theorem nestsWithin_sub_iff {value : Json} {limit levels : Nat} :
    value.NestsWithin (limit - levels) ↔
      value.Throughout fun depth inner => inner.IsContainer -> levels + depth < limit := by
  simp only [NestsWithin, Nat.lt_sub_iff_add_lt']

/-- No value nests without end. -/
theorem exists_nestsWithin (value : Json) : exists limit, value.NestsWithin limit := by
  refine ⟨sizeOf value, ?_⟩
  induction value using structuralInduction with
  | null | bool value | number value | string text => exact nestsWithin_leaf (fun _ => rfl) id
  | array items ih =>
      refine nestsWithin_array.mpr ⟨sizeOf items, (array.sizeOf_spec items).trans (Nat.add_comm _ _), ?_⟩
      intro item member
      exact (ih item member).mono (Nat.le_of_lt (List.sizeOf_lt_of_mem member))
  | object fields ih =>
      refine nestsWithin_object.mpr ⟨sizeOf fields, (object.sizeOf_spec fields).trans (Nat.add_comm _ _), ?_⟩
      intro field member
      have smaller := List.sizeOf_lt_of_mem member
      have part : sizeOf field.2 ≤ sizeOf field := by
        rcases field with ⟨key, value⟩
        simp only [Prod.mk.sizeOf_spec]
        omega
      exact (ih field member).mono (Nat.le_of_lt (Nat.lt_of_le_of_lt part smaller))

/-! ## What is refused -/

/-- Nothing but its depth keeps a written value from being read. -/
theorem parse_write_eq_none {value : Json} (distinct : value.KeysDistinct)
    (exact : value.IsExact) (deep : ¬ value.NestsWithin depthLimit) :
    parse value.write = none := by
  rcases exists_nestsWithin value with ⟨limit, nests⟩
  rcases exists_spelled distinct exact nests with ⟨document, spelled, -, meant⟩
  have deepDocument : ¬ document.depth ≤ depthLimit := fun shallow =>
    deep (ofSpelled_storable document shallow meant).2
  rw [parse, read_write spelled, Option.bind_some, if_neg deepDocument]

theorem length_le_writeString (text : Text) : text.length ≤ (writeString text).length := by
  have each : forall letter, 1 ≤ (writeLetter letter).length := by
    intro letter
    rw [writeLetter.eq_def]
    split <;> try exact Nat.le_add_left 1 _
    split <;> exact Nat.le_add_left 1 _
  induction text with
  | nil => exact Nat.zero_le _
  | cons letter text ih =>
      have first := each letter
      simp only [writeString, List.flatMap_cons, List.length_append, List.length_cons] at ih ⊢
      omega

/-! ## A value with arrays around it -/

/-- A value as the only item of an array, which is the only item of an array, and so on. -/
def nested (value : Json) : Nat -> Json
  | 0 => value
  | levels + 1 => .array [nested value levels]

section

variable {value : Json}

theorem write_nested (value : Json) (levels : Nat) : (nested value levels).write =
    List.replicate levels '[' ++ value.write ++ List.replicate levels ']' := by
  induction levels with
  | zero => rw [nested, List.replicate_zero, List.replicate_zero, List.nil_append, List.append_nil]
  | succ levels ih =>
      rw [nested, write, writeItems, ih, List.replicate_succ, List.replicate_succ']
      simp only [List.cons_append, List.append_assoc]

theorem KeysDistinct.nested (distinct : value.KeysDistinct) (levels : Nat) :
    (nested value levels).KeysDistinct := by
  induction levels with
  | zero => exact distinct
  | succ levels ih => exact keysDistinct_array.mpr (List.forall_mem_singleton.mpr ih)

theorem IsExact.nested (exact : value.IsExact) (levels : Nat) : (nested value levels).IsExact := by
  induction levels with
  | zero => exact exact
  | succ levels ih => exact isExact_array.mpr (List.forall_mem_singleton.mpr ih)

theorem NestsWithin.nested {limit : Nat} (nests : value.NestsWithin limit) (levels : Nat) :
    (nested value levels).NestsWithin (limit + levels) := by
  induction levels with
  | zero => exact nests
  | succ levels ih => exact nestsWithin_array.mpr ⟨_, rfl, List.forall_mem_singleton.mpr ih⟩

end

end Json
end BuildInputs

import BuildInputs.Proofs.Json.Fields

namespace BuildInputs
namespace Json
namespace Fields

/-!
# Fields before and after an update

Setting several keys is best described by what it leaves alone.  `IsUpdate` says where each key
stands afterwards, which values the keys that were set have, and that every other field is there
with its value and in the old order.  It does not mention how the keys are set, and where no key
comes twice it leaves nothing open.
-/

/-- Fields in which some keys were set. -/
structure IsUpdate (fields additions updated : Fields) : Prop where
  /-- Keys that were there keep their places.  New ones follow all others, in the order in which
  they are set. -/
  keys : updated.map Prod.fst =
    fields.map Prod.fst ++ (additions.map Prod.fst).filter fun key => key ∉ fields.map Prod.fst
  /-- Keys that were set have their new values. -/
  set : forall field, field ∈ additions -> updated.get? field.1 = some field.2
  /-- All other fields are the same, one after another. -/
  kept : updated.filter (fun field => field.1 ∉ additions.map Prod.fst) =
    fields.filter fun field => field.1 ∉ additions.map Prod.fst

theorem filter_insert (fields : Fields) (key : Text) (value : Json) :
    (insert fields key value).filter (fun field => field.1 ≠ key) =
      fields.filter fun field => field.1 ≠ key := by
  induction fields with
  | nil => simp [insert]
  | cons field fields ih =>
      rw [insert_cons]
      by_cases same : field.1 = key
      · simp [same]
      · rw [if_neg same, List.filter_cons, List.filter_cons, ih]

/-- What is left without some keys can be left in two steps. -/
theorem filter_not_mem_cons (fields : Fields) (key : Text) (keys : List Text) :
    fields.filter (fun field => field.1 ∉ key :: keys) =
      (fields.filter fun field => field.1 ∉ keys).filter fun field => field.1 ≠ key := by
  rw [List.filter_filter]
  congr 1
  funext field
  rw [← Bool.decide_and, decide_eq_decide, List.mem_cons, not_or]

theorem filter_ne_not_mem (fields : Fields) (key : Text) (keys : List Text) :
    (fields.filter fun field => field.1 ∉ keys).filter (fun field => field.1 ≠ key) =
      (fields.filter fun field => field.1 ≠ key).filter fun field => field.1 ∉ keys := by
  rw [List.filter_filter, List.filter_filter]
  exact List.filter_congr fun field _ => Bool.and_comm _ _

theorem filter_not_mem_insertAll (fields additions : Fields) :
    (insertAll fields additions).filter (fun field => field.1 ∉ additions.map Prod.fst) =
      fields.filter fun field => field.1 ∉ additions.map Prod.fst := by
  induction additions generalizing fields with
  | nil => rfl
  | cons field additions ih =>
      rw [insertAll_cons, List.map_cons, filter_not_mem_cons, filter_not_mem_cons, ih,
        filter_ne_not_mem, filter_insert, filter_ne_not_mem]

theorem map_fst_insertAll {additions : Fields} (distinct : (additions.map Prod.fst).Nodup)
    (fields : Fields) :
    (insertAll fields additions).map Prod.fst =
      fields.map Prod.fst ++
        (additions.map Prod.fst).filter fun key => key ∉ fields.map Prod.fst := by
  induction additions generalizing fields with
  | nil => exact (List.append_nil _).symm
  | cons field additions ih =>
      rw [List.map_cons, List.nodup_cons] at distinct
      -- To the keys that follow, the one that was just set is none of theirs.
      have others : (additions.map Prod.fst).filter
            (fun key => key ∉ (insert fields field.1 field.2).map Prod.fst) =
          (additions.map Prod.fst).filter fun key => key ∉ fields.map Prod.fst := by
        apply List.filter_congr
        intro key member
        have different : key ≠ field.1 := fun same => distinct.1 (same ▸ member)
        rw [decide_eq_decide, mem_map_fst_insert, not_or, and_iff_right different]
      rw [insertAll_cons, ih distinct.2, others, map_fst_insert, List.map_cons, List.filter_cons]
      by_cases known : field.1 ∈ fields.map Prod.fst
      · simp [known]
      · simp [known]

/-- Setting keys of which none comes twice is an update. -/
theorem isUpdate_insertAll {additions : Fields} (distinct : (additions.map Prod.fst).Nodup)
    (fields : Fields) : IsUpdate fields additions (insertAll fields additions) where
  keys := map_fst_insertAll distinct fields
  set := fun _ member => get?_insertAll_of_mem distinct member fields
  kept := filter_not_mem_insertAll fields additions

end Fields
end Json
end BuildInputs

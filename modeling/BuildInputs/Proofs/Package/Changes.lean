import BuildInputs.Proofs.Json.Sameness
import BuildInputs.Proofs.Package.Hits

namespace BuildInputs
namespace Package

/-!
# Changes that leave packages in their role

What an object counts as is decided by its type and its list of packages alone.  A change that
touches neither of the two moves no package and turns none into a package of another type.  Two
such changes in a row find the same objects, so they are one change, and what an input contains
is the same before and after.  Asking for a summary and putting connection settings into the
options are changes of this kind.
-/

/-- A change that leaves the type and the list of packages of every object as they are. -/
structure KeepsRole (change : Json.Fields -> Json.Fields) : Prop where
  type : forall fields, (change fields).get? typeKey = fields.get? typeKey
  packages : forall fields, (change fields).get? packagesKey = fields.get? packagesKey

section

variable {first second change : Json.Fields -> Json.Fields}

theorem KeepsRole.comp (keeps : KeepsRole first) (also : KeepsRole second) :
    KeepsRole fun fields => second (first fields) where
  type := fun fields => (also.type _).trans (keeps.type fields)
  packages := fun fields => (also.packages _).trans (keeps.packages fields)

theorem KeepsRole.insert {key : Text} (value : Json.Fields -> Json) (type : key ≠ typeKey)
    (packages : key ≠ packagesKey) : KeepsRole fun fields => fields.insert key (value fields) where
  type := fun fields => Json.Fields.get?_insert_of_ne type fields _
  packages := fun fields => Json.Fields.get?_insert_of_ne packages fields _

theorem hasType_congr {fields others : Json.Fields}
    (same : fields.get? typeKey = others.get? typeKey) (target : Text) :
    hasType target fields = hasType target others := by
  rw [hasType, hasType, same]

theorem hasPackages_congr {fields others : Json.Fields}
    (same : fields.get? packagesKey = others.get? packagesKey) :
    hasPackages fields = hasPackages others := by
  rw [hasPackages, hasPackages, same]

/-! ## One change after another -/

/-- What a change of the packages of a type does to one object. -/
def onType (target : Text) (change : Json.Fields -> Json.Fields) (fields : Json.Fields) :
    Json.Fields :=
  if hasType target fields then change fields else fields

theorem KeepsRole.onType (keeps : KeepsRole change) (target : Text) :
    KeepsRole (onType target change) where
  type := fun fields => by
    rw [Package.onType]
    split
    · exact keeps.type fields
    · rfl
  packages := fun fields => by
    rw [Package.onType]
    split
    · exact keeps.packages fields
    · rfl

/-- Two changes of one type come to one. -/
theorem onType_onType (keeps : KeepsRole first) (target : Text) (fields : Json.Fields) :
    onType target second (onType target first fields) =
      onType target (fun fields => second (first fields)) fields := by
  by_cases typed : hasType target fields = true
  · have again := (hasType_congr (keeps.type fields) target).trans typed
    rw [onType, onType, onType, if_pos typed, if_pos typed, if_pos again]
  · rw [onType, onType, onType, if_neg typed, if_neg typed, if_neg typed]

theorem transform_transform_listed {fields : Json.Fields} {items : List Json}
    (list : fields.get? packagesKey = some (.array items)) (target other : Text) :
    transform other second (transform target first (.object fields)) =
      .object (fields.insert packagesKey
        (.array (items.map (transform other second ∘ transform target first)))) := by
  rw [transform_listed _ _ list, transform_listed _ _ (Json.Fields.get?_insert_self _ _ _),
    Json.Fields.insert_insert, List.map_map]

theorem transform_transform_unlisted {fields : Json.Fields} (keeps : KeepsRole first)
    (unlisted : hasPackages fields = false) (target other : Text) :
    transform other second (transform target first (.object fields)) =
      .object (onType other second (onType target first fields)) := by
  have still := (hasPackages_congr ((keeps.onType target).packages fields)).trans unlisted
  rw [transform_unlisted _ _ unlisted, ← onType, transform_unlisted _ _ still, ← onType]

theorem transform_transform (keeps : KeepsRole first) (target : Text) (input : Json) :
    transform target second (transform target first input) =
      transform target (fun fields => second (first fields)) input := by
  induction input using packageInduction with
  | array items ih =>
      rw [transform_array, transform_array, transform_array, List.map_map]
      exact congrArg Json.array (List.map_congr_left ih)
  | listed outer items list ih =>
      have same : items.map (transform target second ∘ transform target first) =
          items.map (transform target fun fields => second (first fields)) :=
        List.map_congr_left ih
      rw [transform_transform_listed list, transform_listed _ _ list, same]
  | unlisted outer unlisted =>
      rw [transform_transform_unlisted keeps unlisted, transform_unlisted _ _ unlisted,
        onType_onType keeps, onType]
  | scalar input scalar =>
      rw [transform_scalar _ _ scalar, transform_scalar _ _ scalar, transform_scalar _ _ scalar]

/-- A change that makes no difference the second time makes none in an input either. -/
theorem transform_idempotent (keeps : KeepsRole change)
    (settles : forall fields, change (change fields) = change fields) (target : Text)
    (input : Json) :
    transform target change (transform target change input) = transform target change input := by
  rw [transform_transform keeps, funext settles]

/-! ## What is contained -/

theorem containsType_array (target : Text) (items : List Json) :
    containsType target (.array items) = items.any (containsType target) := by
  rw [containsType, anyContainsType_eq_any]

theorem containsType_listed (target : Text) {fields : Json.Fields} {items : List Json}
    (list : fields.get? packagesKey = some (.array items)) :
    containsType target (.object fields) =
      (items.any (containsType target) || hasType target fields) := by
  rw [containsType, listContainsType_eq_match, list]

theorem containsType_unlisted (target : Text) {fields : Json.Fields}
    (unlisted : hasPackages fields = false) :
    containsType target (.object fields) = hasType target fields := by
  rw [containsType, listContainsType_eq_match]
  split
  · next items list => exact absurd list (hasPackages_eq_false_iff.mp unlisted items)
  · exact Bool.false_or _

theorem any_map_congr {items : List Json} {alter : Json -> Json} {test : Json -> Bool}
    (each : forall item, item ∈ items -> test (alter item) = test item) :
    (items.map alter).any test = items.any test := by
  induction items with
  | nil => rfl
  | cons item items ih =>
      rw [List.forall_mem_cons] at each
      rw [List.map_cons, List.any_cons, List.any_cons, each.1, ih each.2]

theorem containsType_transform (keeps : KeepsRole change) (target wanted : Text) (input : Json) :
    containsType wanted (transform target change input) = containsType wanted input := by
  induction input using packageInduction with
  | array items ih =>
      rw [transform_array, containsType_array, containsType_array, any_map_congr ih]
  | listed outer items list ih =>
      have type : hasType wanted (outer.insert packagesKey
          (.array (items.map (transform target change)))) = hasType wanted outer :=
        hasType_congr (Json.Fields.get?_insert_of_ne (by decide) _ _) wanted
      rw [transform_listed _ _ list, containsType_listed _ (Json.Fields.get?_insert_self _ _ _),
        containsType_listed _ list, type, any_map_congr ih]
  | unlisted outer unlisted =>
      have still := (hasPackages_congr (keeps.packages outer)).trans unlisted
      rw [transform_unlisted _ _ unlisted]
      split
      · rw [containsType_unlisted _ still, containsType_unlisted _ unlisted,
          hasType_congr (keeps.type outer)]
      · rfl
  | scalar input scalar => rw [transform_scalar _ _ scalar]

/-! ## Changes with the same result -/

/-- Two changes that agree on each object but for the order of keys agree on an input. -/
theorem same_transform {target : Text} {input : Json} (distinct : input.KeysDistinct)
    (agree : forall fields, (Json.object fields).KeysDistinct ->
      Json.same (.object (first fields)) (.object (second fields)) = true) :
    Json.same (transform target first input) (transform target second input) = true := by
  induction input using packageInduction with
  | array items ih =>
      rw [transform_array, transform_array]
      exact Json.same_array_map _ _ fun item member =>
        ih item member (Json.keysDistinct_array.mp distinct item member)
  | listed outer items list ih =>
      have inside := Json.keysDistinct_array.mp (distinct.get? list)
      have itemsSame := Json.same_array_map _ _ fun item member =>
        ih item member (inside item member)
      rw [transform_listed _ _ list, transform_listed _ _ list]
      exact Json.same_insert distinct packagesKey itemsSame
  | unlisted outer unlisted =>
      rw [transform_unlisted _ _ unlisted, transform_unlisted _ _ unlisted]
      split
      · exact agree outer distinct
      · exact Json.same_self distinct
  | scalar input scalar =>
      rw [transform_scalar _ _ scalar, transform_scalar _ _ scalar]
      exact Json.same_self distinct

end

/-! ## Asking for a summary -/

theorem keepsRole_setSummary : KeepsRole setSummary :=
  KeepsRole.insert (fun _ => .bool true) (by decide) (by decide)

/-! ## Connection settings -/

/-- Options with connection settings in them, given the options that there were. -/
def mergedOptions (ssl : Json.Fields) : Option Json -> Json.Fields
  | some (.object options) =>
      match Json.Fields.get? options sslKey with
      | some (.object known) =>
          Json.Fields.insert options sslKey (.object (Json.Fields.insertAll known ssl))
      | _ => [(sslKey, .object ssl)]
  | _ => [(sslKey, .object ssl)]

theorem setSsl_eq_insert (ssl fields : Json.Fields) :
    setSsl ssl fields =
      fields.insert optionsKey (.object (mergedOptions ssl (fields.get? optionsKey))) := by
  rw [setSsl, mergedOptions.eq_def]
  cases fields.get? optionsKey with
  | none => rfl
  | some options =>
      cases options with
      | object options =>
          dsimp only
          cases Json.Fields.get? options sslKey with
          | none => rfl
          | some known => cases known <;> rfl
      | null | bool | number | string | array => rfl

theorem keepsRole_setSsl (ssl : Json.Fields) : KeepsRole (setSsl ssl) := by
  have same : setSsl ssl = fun fields =>
      fields.insert optionsKey (.object (mergedOptions ssl (fields.get? optionsKey))) :=
    funext (setSsl_eq_insert ssl)
  rw [same]
  exact KeepsRole.insert _ (by decide) (by decide)

/-- The merged options have connection settings, and these have all that was to be put in. -/
theorem exists_settings {ssl : Json.Fields} (distinct : (ssl.map Prod.fst).Nodup)
    (options : Option Json) :
    exists settings : Json.Fields,
      (mergedOptions ssl options).get? sslKey = some (.object settings) ∧
        forall field, field ∈ ssl -> settings.get? field.1 = some field.2 := by
  have replaced : exists settings : Json.Fields,
      Json.Fields.get? [(sslKey, .object ssl)] sslKey = some (.object settings) ∧
        forall field, field ∈ ssl -> settings.get? field.1 = some field.2 :=
    ⟨ssl, rfl, fun field member => Json.Fields.get?_of_mem distinct member⟩
  rw [mergedOptions.eq_def]
  split
  · split
    · next known _ =>
        refine ⟨Json.Fields.insertAll known ssl, Json.Fields.get?_insert_self _ _ _, ?_⟩
        intro field member
        exact Json.Fields.get?_insertAll_of_mem distinct member known
    · exact replaced
  · exact replaced

/-- Options that were merged once are not changed by being merged again. -/
theorem mergedOptions_again {ssl : Json.Fields} (distinct : (ssl.map Prod.fst).Nodup)
    (options : Option Json) :
    mergedOptions ssl (some (.object (mergedOptions ssl options))) = mergedOptions ssl options := by
  rcases exists_settings distinct options with ⟨settings, found, complete⟩
  generalize mergedOptions ssl options = merged at found
  rw [mergedOptions, found]
  dsimp only
  rw [Json.Fields.insertAll_of_get? complete, Json.Fields.insert_of_get? found]

theorem setSsl_setSsl {ssl : Json.Fields} (distinct : (ssl.map Prod.fst).Nodup)
    (fields : Json.Fields) : setSsl ssl (setSsl ssl fields) = setSsl ssl fields := by
  rw [setSsl_eq_insert ssl fields, setSsl_eq_insert, Json.Fields.get?_insert_self,
    mergedOptions_again distinct, Json.Fields.insert_insert]

/-- What holds throughout the old options and the settings holds throughout the merged options, if
it holds of an empty object, since the options may have to be made. -/
theorem throughout_mergedOptions {property : Nat -> Json -> Prop} (lasting : Json.Lasting property)
    (empty : property 0 (.object [])) {ssl : Json.Fields}
    (new : (Json.object ssl).Throughout fun depth => property (depth + 1)) {options : Option Json}
    (known : forall value, options = some value -> value.Throughout property) :
    (Json.object (mergedOptions ssl options)).Throughout property := by
  have made : (Json.object []).Throughout property := Json.throughout_object.mpr ⟨empty, nofun⟩
  have replaced : (Json.object [(sslKey, .object ssl)]).Throughout property :=
    made.insert lasting sslKey new
  rw [mergedOptions.eq_def]
  split
  · next options =>
      have outer := known _ rfl
      split
      · next settings found =>
          have merged := (outer.get? found).insertAll (lasting.deeper 1)
            (Json.throughout_object.mp new).2
          exact outer.insert lasting sslKey merged
      · exact replaced
  · exact replaced

/-- Whether the summary is asked for before or after the settings are put in makes no difference
but in the order of keys. -/
theorem same_setSummary_setSsl {ssl fields : Json.Fields}
    (sslDistinct : (Json.object ssl).KeysDistinct) (distinct : (Json.object fields).KeysDistinct) :
    Json.same (.object (setSummary (setSsl ssl fields)))
      (.object (setSsl ssl (setSummary fields))) = true := by
  have kept : (setSummary fields).get? optionsKey = fields.get? optionsKey :=
    Json.Fields.get?_insert_of_ne (by decide) fields _
  rw [setSsl_eq_insert, setSsl_eq_insert, kept, setSummary, setSummary]
  apply Json.same_insert_insert distinct (by decide)
  · exact throughout_mergedOptions Json.lasting_keysDistinct List.nodup_nil sslDistinct
      fun value found => distinct.get? found
  · exact Json.keysDistinct_bool true

end Package
end BuildInputs

import BuildInputs.Proofs.Json.Nesting
import BuildInputs.Proofs.Package.Detection
import BuildInputs.Proofs.Package.Preparation

namespace BuildInputs
namespace Package

/-!
# How deep a prepared input nests

Connection settings stand two levels inside a package, in its options.  A package that stood just
within the reader's limit may thus be too deep once it has them.  A summary adds no level, and
neither of the two changes adds a repeated key or a double.

What holds throughout a changed input can be told from the changed objects alone, because the
change leaves the shells of everything else as they are.
-/

open Json (Position)

section

variable {target : Text} {change : Json.Fields -> Json.Fields} {input output : Json}
  {property : Nat -> Json -> Prop}

/-- What holds throughout an input holds throughout the changed one exactly if it does so in each
object that was changed, as deep as that stands. -/
theorem ChangedAtHits.throughout_iff (changed : ChangedAtHits target change input output)
    (seen : forall depth value, property depth value.shell ↔ property depth value)
    (all : input.Throughout property) :
    output.Throughout property ↔ forall position fields, IsHit target input position fields ->
      (Json.object (change fields)).Throughout fun depth => property (position.length + depth) := by
  constructor
  · intro after position fields hit
    exact after.at? (changed.hit position fields hit)
  · intro each position inner stands
    by_cases clear : IsClear target input position
    · have shells := changed.shell position clear
      rw [stands, Option.map_some] at shells
      rcases Option.map_eq_some_iff.mp shells.symm with ⟨old, stood, same⟩
      rw [← seen, ← same, seen]
      exact all position old stood
    · simp only [IsClear, Classical.not_forall, Classical.not_not] at clear
      rcases clear with ⟨above, fields, ⟨rest, rfl⟩, hit⟩
      rw [Json.at?_append, changed.hit above fields hit, Option.bind_some] at stands
      rw [List.length_append]
      exact each above fields hit rest inner stands

theorem PackageAt.at? {position : Position} {value : Json}
    (stands : PackageAt input position value) : input.at? position = some value := by
  induction stands with
  | root => rfl
  | item stands _ ih => rw [Json.at?_item stands, ih]
  | listed list stands _ ih =>
      rw [Json.at?_field (Json.Fields.getElem?_indexOf list), Json.at?_item stands, ih]

theorem PackageAt.packageObject {position : Position} {value : Json}
    (stands : PackageAt input position value) {fields : Json.Fields}
    (isObject : value = .object fields) : PackageObject input fields := by
  induction stands with
  | root => exact isObject ▸ .root
  | item stands _ ih => exact .item (List.mem_of_getElem? stands) (ih isObject)
  | listed list stands _ ih => exact .listed list (List.mem_of_getElem? stands) (ih isObject)

/-- Where something is changed, something is detected. -/
theorem IsHit.detected {position : Position} {fields : Json.Fields}
    (hit : IsHit target input position fields) : containsType target input = true :=
  containsType_of_object (hit.stands.packageObject rfl) (hasType_iff.mpr hit.typed)

end

/-! ## What a package gets -/

section

variable {property : Nat -> Json -> Prop} {caBundle : Path} {certificates : Option Certificates}
  {fields : Json.Fields}

/-- What holds throughout a package holds throughout the completed one, if it holds of the values
that are put in and of the objects that may have to be made for them. -/
theorem throughout_completion (lasting : Json.Lasting property)
    (bool : forall depth value, property depth (.bool value))
    (string : forall depth text, property depth (.string text))
    (objects : forall given, certificates = some given ->
      property 1 (.object []) ∧ property 2 (.object (given.sslOptions caBundle)))
    (all : (Json.object fields).Throughout property) :
    (Json.object (completion caBundle certificates fields)).Throughout property := by
  have summarised : (Json.object (setSummary fields)).Throughout property :=
    all.insert lasting summaryKey ((Json.throughout_leaf fun _ => rfl).mpr (bool 1 true))
  cases certificates with
  | none => exact summarised
  | some given =>
      rcases objects given rfl with ⟨options, settings⟩
      have new : (Json.object (given.sslOptions caBundle)).Throughout
          fun depth => property (depth + 1 + 1) := by
        refine Json.throughout_object.mpr ⟨settings, ?_⟩
        simp only [Certificates.sslOptions, List.forall_mem_cons, List.not_mem_nil, false_implies,
          implies_true, and_true]
        exact ⟨(Json.throughout_leaf fun _ => rfl).mpr (string 3 _),
          (Json.throughout_leaf fun _ => rfl).mpr (string 3 _),
          (Json.throughout_leaf fun _ => rfl).mpr (string 3 _)⟩
      rw [completion, setSsl_eq_insert]
      apply summarised.insert lasting optionsKey
      exact throughout_mergedOptions (lasting.deeper 1) options new
        fun value found => summarised.get? found

theorem keysDistinct_completion (distinct : (Json.object fields).KeysDistinct) :
    (Json.object (completion caBundle certificates fields)).KeysDistinct :=
  throughout_completion Json.lasting_keysDistinct (fun _ _ => trivial) (fun _ _ => trivial)
    (fun given _ => ⟨List.nodup_nil, nodup_sslOptions given caBundle⟩) distinct

theorem isExact_completion (exact : (Json.object fields).IsExact) :
    (Json.object (completion caBundle certificates fields)).IsExact :=
  throughout_completion Json.lasting_isExact (fun _ _ => trivial) (fun _ _ => trivial)
    (fun _ _ => ⟨trivial, trivial⟩) exact

/-- The package, its options and the settings in these are three levels. -/
theorem nestsWithin_completion_iff {limit : Nat} (nests : (Json.object fields).NestsWithin limit) :
    (Json.object (completion caBundle certificates fields)).NestsWithin limit ↔
      (certificates = none ∨ 3 ≤ limit) := by
  constructor
  · intro completed
    cases certificates with
    | none => exact Or.inl rfl
    | some given =>
        rw [completion, setSsl_eq_insert] at completed
        rcases exists_settings (nodup_sslOptions given caBundle)
          ((setSummary fields).get? optionsKey) with ⟨settings, found, _⟩
        have options := completed.get? (Json.Fields.get?_insert_self _ optionsKey _)
        exact Or.inr (options.get? found [] _ rfl trivial)
  · intro room
    apply throughout_completion (Json.lasting_nestsWithin limit) _ _ _ nests
    · exact fun _ _ container => container.elim
    · exact fun _ _ container => container.elim
    · intro given present
      have three : 3 ≤ limit := room.resolve_left (by simp [present])
      exact ⟨fun _ => by omega, fun _ => by omega⟩

end

/-! ## What an input gets -/

/-- Every RPM package that is changed stands at least three levels above a limit. -/
def HasRoom (limit : Nat) (input : Json) : Prop :=
  forall position fields, IsHit Settings.rpmType input position fields ->
    position.length + 3 ≤ limit

section

variable {workspace : Workspace} {caBundle : Path} {input output : Json} {directory : Option Path}

theorem wantedCertificates_eq_none_iff {certificates : Option Certificates}
    (wanted : wantedCertificates workspace directory = .ok certificates) :
    certificates = none ↔ directory = none := by
  cases directory with
  | none =>
      cases wanted
      exact iff_of_true rfl rfl
  | some directory =>
      rcases Report.map_eq_ok_iff.mp wanted with ⟨given, _, rfl⟩
      exact iff_of_false nofun nofun

theorem keysDistinct_prepare
    (prepared : (prepare workspace caBundle input directory).result = .ok output)
    (distinct : input.KeysDistinct) : output.KeysDistinct := by
  rcases prepare_eq_ok prepared with ⟨_, rfl⟩ | ⟨_, certificates, _, rfl⟩
  · exact distinct
  · refine (changedAtHits_transform.throughout_iff Json.lasting_keysDistinct.shell distinct).mpr ?_
    intro position fields hit
    exact keysDistinct_completion (distinct.at? hit.stands.at?)

theorem isExact_prepare
    (prepared : (prepare workspace caBundle input directory).result = .ok output)
    (exact : input.IsExact) : output.IsExact := by
  rcases prepare_eq_ok prepared with ⟨_, rfl⟩ | ⟨_, certificates, _, rfl⟩
  · exact exact
  · refine (changedAtHits_transform.throughout_iff Json.lasting_isExact.shell exact).mpr ?_
    intro position fields hit
    exact isExact_completion (exact.at? hit.stands.at?)

/-- A prepared input stays within a limit if no settings are put in or there is room for them. -/
theorem nestsWithin_prepare_iff {limit : Nat}
    (prepared : (prepare workspace caBundle input directory).result = .ok output)
    (nests : input.NestsWithin limit) :
    output.NestsWithin limit ↔ (directory = none ∨ HasRoom limit input) := by
  rcases prepare_eq_ok prepared with ⟨without, rfl⟩ | ⟨_, certificates, wanted, rfl⟩
  · refine iff_of_true nests (Or.inr ?_)
    intro position fields hit
    rw [hit.detected] at without
    cases without
  · have each : forall position fields, IsHit Settings.rpmType input position fields ->
        ((Json.object (completion caBundle certificates fields)).Throughout
          (fun depth inner => inner.IsContainer -> position.length + depth < limit) ↔
            (certificates = none ∨ position.length + 3 ≤ limit)) := by
      intro position fields hit
      have inside := Json.nestsWithin_sub_iff.mpr (nests.at? hit.stands.at?)
      have levels : 3 ≤ limit - position.length ↔ position.length + 3 ≤ limit := by omega
      rw [← Json.nestsWithin_sub_iff, nestsWithin_completion_iff inside, levels]
    rw [Json.NestsWithin,
      changedAtHits_transform.throughout_iff (Json.lasting_nestsWithin limit).shell nests,
      ← wantedCertificates_eq_none_iff wanted]
    constructor
    · intro completed
      by_cases unset : certificates = none
      · exact Or.inl unset
      · refine Or.inr fun position fields hit => ?_
        exact ((each position fields hit).mp (completed position fields hit)).resolve_left unset
    · intro room position fields hit
      exact (each position fields hit).mpr (room.imp_right fun room => room position fields hit)

end

end Package
end BuildInputs

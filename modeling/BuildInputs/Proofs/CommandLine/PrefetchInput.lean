import BuildInputs.Proofs.CommandLine.Printing
import BuildInputs.Proofs.Package.Nesting
import BuildInputs.Proofs.Package.Storing

namespace BuildInputs
namespace CommandLine

/-!
# Completing an input that was completed

The `prefetch-input` command prints an input that it can be given again.  There is one exception.
The connection settings add levels to a package, and the reader does not take more than 127 of
them.  What is printed beyond that is not read as JSON any more but taken for the type of a single
package, and so it comes back wrapped up.

Numbers are integers here that fit 64 bits.
-/

open BuildInputs.Path (ofText)

/-- The package whose type is a line that is not read as JSON. -/
def wrapped (line : Text) : Json :=
  .object [(Package.typeKey, .string line)]

/-- No connection settings are put into an input, or there is room for them in every package that
gets them. -/
def FitsAgain (directory : Option Path) (input : Text) : Prop :=
  directory = none ∨ Package.HasRoom Json.depthLimit (Package.parse input)

theorem write_wrapped_ne (line : Text) : (wrapped line).write ≠ line := by
  intro same
  have lengths := congrArg List.length same
  have inside := Json.length_le_writeString line
  simp only [wrapped, Json.write, Json.writeFields, List.length_append, List.length_cons] at lengths
  omega

theorem containsType_wrapped (target line : Text) :
    Package.containsType target (wrapped line) = decide (line = target) := by
  rw [wrapped, Package.containsType_unlisted target rfl]
  rfl

/-- A line that nests too deep is not the name of a type. -/
theorem write_ne_rpmType {value : Json} {limit : Nat} (deep : ¬ value.NestsWithin limit) :
    value.write ≠ Settings.rpmType := by
  cases value with
  | array items =>
      intro same
      cases same
  | object fields =>
      intro same
      cases same
  | null | bool | number | string =>
      exact absurd (Json.nestsWithin_leaf (fun _ => rfl) id) deep

section

variable {workspace : Workspace} {input output : Text} {directory : Option Path} {prepared : Json}

/-- The command prints the prepared input and nothing else. -/
theorem prints_runPrefetchInput_iff :
    Prints (runPrefetchInput workspace input directory) () output ↔ exists prepared,
      (Package.prepare workspace Settings.caBundle (Package.parse input) directory).result =
          .ok prepared ∧
        output = spellLines [prepared.write] := by
  simp only [runPrefetchInput, prints_reword_bind, prints_say]

/-- Where everything fits, what is printed is read as what was prepared and printed again. -/
theorem again_of_fits
    (result : (Package.prepare workspace Settings.caBundle (Package.parse input) directory).result =
      .ok prepared)
    (exact : (Package.parse input).IsExact) (fits : FitsAgain directory input) :
    Package.parse prepared.write = prepared ∧
      Prints (runPrefetchInput workspace prepared.write directory) ()
        (spellLines [prepared.write]) := by
  rcases Package.storable_parse input with ⟨distinct, nests⟩
  have within := (Package.nestsWithin_prepare_iff result nests).mpr fits
  have read : Package.parse prepared.write = prepared :=
    Package.parse_of_parse (Json.parse_write (Package.keysDistinct_prepare result distinct)
      (Package.isExact_prepare result exact) within)
  refine ⟨read, prints_runPrefetchInput_iff.mpr ⟨prepared, ?_, rfl⟩⟩
  rw [read]
  exact Package.prepare_of_prepare result

/-- Where something does not fit, what is printed is taken for a type. -/
theorem again_of_not_fits
    (result : (Package.prepare workspace Settings.caBundle (Package.parse input) directory).result =
      .ok prepared)
    (exact : (Package.parse input).IsExact) (deep : ¬ FitsAgain directory input) :
    Package.parse prepared.write = wrapped prepared.write ∧
      Prints (runPrefetchInput workspace prepared.write directory) ()
        (spellLines [(wrapped prepared.write).write]) := by
  rcases Package.storable_parse input with ⟨distinct, nests⟩
  have tooDeep : ¬ prepared.NestsWithin Json.depthLimit := fun within =>
    deep ((Package.nestsWithin_prepare_iff result nests).mp within)
  have refused : Json.parse prepared.write = none :=
    Json.parse_write_eq_none (Package.keysDistinct_prepare result distinct)
      (Package.isExact_prepare result exact) tooDeep
  have read : Package.parse prepared.write = wrapped prepared.write := by
    rw [Package.parse, refused]
    rfl
  refine ⟨read, prints_runPrefetchInput_iff.mpr ⟨wrapped prepared.write, ?_, rfl⟩⟩
  rw [read, Package.result_prepare, containsType_wrapped,
    decide_eq_false (write_ne_rpmType tooDeep)]
  rfl

/-- A line that is taken for a type is not what is printed for it, and not what it spells. -/
theorem changed_of_wrapped {line : Text} (read : Package.parse line = wrapped line)
    (printed : Prints (runPrefetchInput workspace line directory) ()
      (spellLines [(wrapped line).write])) :
    ¬ Prints (runPrefetchInput workspace line directory) () (spellLines [line]) ∧
      forall value : Json, value.write = line -> Package.parse line ≠ value := by
  constructor
  · intro same
    apply write_wrapped_ne line
    simpa [spellLines] using printed.2.symm.trans same.2
  · rintro value written spelled
    rw [read] at spelled
    rw [← spelled] at written
    exact write_wrapped_ne line written

end

/-! ## Packages with arrays around them -/

section

variable {target : Text} {levels : Nat}

theorem containsType_nested (target : Text) (value : Json) (levels : Nat) :
    Package.containsType target (Json.nested value levels) = Package.containsType target value := by
  induction levels with
  | zero => rfl
  | succ levels ih =>
      rw [Json.nested, Package.containsType_array, List.any_cons, List.any_nil, Bool.or_false, ih]

theorem transform_nested (target : Text) (change : Json.Fields -> Json.Fields) (value : Json)
    (levels : Nat) : Package.transform target change (Json.nested value levels) =
      Json.nested (Package.transform target change value) levels := by
  induction levels with
  | zero => rfl
  | succ levels ih =>
      rw [Json.nested, Package.transform_array, List.map_singleton, ih, Json.nested]

theorem packageAt_nested (value : Json) (levels : Nat) :
    Package.PackageAt (Json.nested value levels) (List.replicate levels 0) value := by
  induction levels with
  | zero => exact .root
  | succ levels ih => exact .item rfl ih

/-- Only the innermost value of nested arrays can be a package. -/
theorem length_of_isHit_nested {fields others : Json.Fields} {position : Json.Position}
    (unlisted : Package.hasPackages fields = false)
    (hit : Package.IsHit target (Json.nested (.object fields) levels) position others) :
    position.length = levels := by
  rcases hit with ⟨stands, -, -⟩
  induction levels generalizing position with
  | zero =>
      cases stands with
      | root => rfl
      | listed list => exact absurd list (Package.hasPackages_eq_false_iff.mp unlisted _)
  | succ levels ih =>
      cases stands with
      | item stands inside =>
          rw [List.mem_singleton.mp (List.mem_of_getElem? stands)] at inside
          rw [List.length_cons, ih inside]

end

/-- An RPM package without anything else. -/
def barePackage : Json.Fields :=
  [(Package.typeKey, .string Settings.rpmType)]

/-- The same package, completed with the certificates of a registered system. -/
def completedPackage : Json.Fields :=
  [(Package.typeKey, .string Settings.rpmType), (Package.summaryKey, .bool true),
    (Package.optionsKey, .object [(Package.sslKey, .object
      [("client_key".toList, .string "pki/1-key.pem".toList),
        ("client_cert".toList, .string "pki/1.pem".toList),
        ("ca_bundle".toList, .string Settings.caBundle.display)])])]

/-- The package in so many arrays, as a text. -/
def barePackageIn (levels : Nat) : Text :=
  List.replicate levels '[' ++ "\x7b\"type\":\"rpm\"\x7d".toList ++ List.replicate levels ']'

section

variable {levels : Nat}

theorem isExact_barePackage : (Json.object barePackage).IsExact :=
  Json.isExact_object.mpr (List.forall_mem_singleton.mpr (Json.isExact_string _))

theorem parse_barePackageIn (shallow : 1 + levels ≤ Json.depthLimit) :
    Package.parse (barePackageIn levels) = Json.nested (.object barePackage) levels := by
  have distinct : (Json.object barePackage).KeysDistinct :=
    Json.keysDistinct_object.mpr ⟨List.nodup_cons.mpr ⟨List.not_mem_nil, List.nodup_nil⟩,
      List.forall_mem_singleton.mpr (Json.keysDistinct_string _)⟩
  have nests : (Json.object barePackage).NestsWithin 1 :=
    Json.nestsWithin_object.mpr ⟨0, rfl, List.forall_mem_singleton.mpr
      (Json.nestsWithin_leaf (fun _ => rfl) id)⟩
  have written : barePackageIn levels = (Json.nested (.object barePackage) levels).write := by
    rw [Json.write_nested]
    rfl
  rw [written]
  exact Package.parse_of_parse (Json.parse_write (distinct.nested levels)
    (isExact_barePackage.nested levels) ((nests.nested levels).mono shallow))

theorem isExact_parse_barePackageIn (shallow : 1 + levels ≤ Json.depthLimit) :
    (Package.parse (barePackageIn levels)).IsExact :=
  parse_barePackageIn shallow ▸ isExact_barePackage.nested levels

theorem prepare_barePackageIn (shallow : 1 + levels ≤ Json.depthLimit) :
    (Package.prepare Package.registered Settings.caBundle (Package.parse (barePackageIn levels))
      (some (ofText "pki".toList))).result =
        .ok (Json.nested (.object completedPackage) levels) := by
  rw [parse_barePackageIn shallow, Package.result_prepare, containsType_nested,
    Package.wantedCertificates, Package.requireCertificates_registered]
  simp only [transform_nested]
  rfl

/-- The settings fit as long as there are three levels left for the package. -/
theorem fitsAgain_barePackageIn_iff (shallow : 1 + levels ≤ Json.depthLimit) (directory : Path) :
    FitsAgain (some directory) (barePackageIn levels) ↔ levels + 3 ≤ Json.depthLimit := by
  rw [FitsAgain, parse_barePackageIn shallow, or_iff_right (Option.some_ne_none directory)]
  constructor
  · intro room
    have hit : Package.IsHit Settings.rpmType (Json.nested (.object barePackage) levels)
        (List.replicate levels 0) barePackage :=
      ⟨packageAt_nested _ levels, nofun, rfl⟩
    have placed := room _ _ hit
    rwa [List.length_replicate] at placed
  · intro room position fields hit
    rwa [length_of_isHit_nested rfl hit]

end

/-! ## The command on its own output -/

/-- The command is given its own output again, with the same directory and the same files.  It
prints that output once more exactly if no settings are put in or there is room for them, and this
is also when the output is read as the input that was prepared.  Otherwise the output is taken for
a type as a whole, and printed as that. -/
theorem runPrefetchInput_again {workspace : Workspace} {input output : Text}
    {directory : Option Path} (exact : (Package.parse input).IsExact)
    (printed : Prints (runPrefetchInput workspace input directory) () output) :
    exists prepared,
      (Package.prepare workspace Settings.caBundle (Package.parse input) directory).result =
        .ok prepared ∧
      output = spellLines [prepared.write] ∧
      (Package.parse prepared.write = prepared ↔ FitsAgain directory input) ∧
      (Prints (runPrefetchInput workspace prepared.write directory) () output ↔
        FitsAgain directory input) ∧
      (¬ FitsAgain directory input ->
        Package.parse prepared.write = wrapped prepared.write ∧
          Prints (runPrefetchInput workspace prepared.write directory) ()
            (spellLines [(wrapped prepared.write).write])) := by
  rcases prints_runPrefetchInput_iff.mp printed with ⟨prepared, result, rfl⟩
  refine ⟨prepared, result, rfl, ?_⟩
  by_cases fits : FitsAgain directory input
  · rcases again_of_fits result exact fits with ⟨read, again⟩
    exact ⟨iff_of_true read fits, iff_of_true again fits, fun deep => absurd fits deep⟩
  · rcases again_of_not_fits result exact fits with ⟨read, again⟩
    rcases changed_of_wrapped read again with ⟨different, notRead⟩
    exact ⟨iff_of_false (notRead prepared rfl) fits, iff_of_false different fits,
      fun _ => ⟨read, again⟩⟩

/-- In 124 arrays there is just room for the settings. -/
theorem runPrefetchInput_again_nested :
    (Package.parse (barePackageIn 124)).IsExact ∧
      Prints (runPrefetchInput Package.registered (barePackageIn 124)
          (some (ofText "pki".toList))) ()
        (spellLines [(Json.nested (.object completedPackage) 124).write]) ∧
      FitsAgain (some (ofText "pki".toList)) (barePackageIn 124) ∧
      Package.parse (Json.nested (.object completedPackage) 124).write =
        Json.nested (.object completedPackage) 124 ∧
      Prints (runPrefetchInput Package.registered
          (Json.nested (.object completedPackage) 124).write (some (ofText "pki".toList))) ()
        (spellLines [(Json.nested (.object completedPackage) 124).write]) := by
  have shallow : 1 + 124 ≤ Json.depthLimit := by decide
  have exact := isExact_parse_barePackageIn shallow
  have result := prepare_barePackageIn shallow
  have printed := prints_runPrefetchInput_iff.mpr ⟨_, result, rfl⟩
  have fits := (fitsAgain_barePackageIn_iff shallow (ofText "pki".toList)).mpr (by decide)
  rcases runPrefetchInput_again exact printed with ⟨prepared, also, -, readAgain, again, -⟩
  cases result.symm.trans also
  exact ⟨exact, printed, fits, readAgain.mpr fits, again.mpr fits⟩

/-- In 125 arrays there is not.  The command succeeds and prints the completed package, which it
neither reads nor prints again. -/
theorem runPrefetchInput_again_fails :
    (Package.parse (barePackageIn 125)).IsExact ∧
      Prints (runPrefetchInput Package.registered (barePackageIn 125)
          (some (ofText "pki".toList))) ()
        (spellLines [(Json.nested (.object completedPackage) 125).write]) ∧
      Package.parse (Json.nested (.object completedPackage) 125).write ≠
        Json.nested (.object completedPackage) 125 ∧
      ¬ Prints (runPrefetchInput Package.registered
          (Json.nested (.object completedPackage) 125).write (some (ofText "pki".toList))) ()
        (spellLines [(Json.nested (.object completedPackage) 125).write]) := by
  have shallow : 1 + 125 ≤ Json.depthLimit := by decide
  have exact := isExact_parse_barePackageIn shallow
  have result := prepare_barePackageIn shallow
  have deep : ¬ FitsAgain (some (ofText "pki".toList)) (barePackageIn 125) := fun fits =>
    absurd ((fitsAgain_barePackageIn_iff shallow (ofText "pki".toList)).mp fits) (by decide)
  rcases again_of_not_fits result exact deep with ⟨wrappedAgain, again⟩
  rcases changed_of_wrapped wrappedAgain again with ⟨different, notRead⟩
  exact ⟨exact, prints_runPrefetchInput_iff.mpr ⟨_, result, rfl⟩, notRead _ rfl, different⟩

end CommandLine
end BuildInputs

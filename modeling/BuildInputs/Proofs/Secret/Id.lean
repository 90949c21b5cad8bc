import BuildInputs.Proofs.FileSystem.Real
import BuildInputs.Proofs.Path.Shown
import BuildInputs.Secret.Mapping

namespace BuildInputs

/-!
# Ids of secrets

The id of a secret is pushed together from the components of a prefix and a file name.  Here it
is described by the text of the prefix alone: its leading slash is kept as one, the pieces that
are empty or `.` go, a piece `..` stays, and the file name comes last.
-/

open BuildInputs.Path (ofText)

namespace SecretSpec

/-- The last name of a path: its last piece that is neither empty nor `.`, unless that is `..`. -/
def lastName (path : Path) : Option Path :=
  (((Text.fields Path.slash path).filter fun piece =>
    piece ≠ [] ∧ piece ≠ [Path.dot]).getLast?).filter fun piece => piece ≠ [Path.dot, Path.dot]

/-- What ids begin with: the alias that is given and not empty, else the directory's own name,
else the path as it is spelled. -/
def label (spec : SecretSpec) : Text :=
  (spec.name.filter fun given => given ≠ []).getD ((lastName spec.src).getD spec.src).display

theorem idPrefix_eq_label (spec : SecretSpec) : spec.idPrefix = spec.label := by
  have last : lastName spec.src = Path.fileName spec.src := by
    rw [lastName, Path.decide_eq_counts, Path.fileName_eq, Path.countingPieces]
  rw [idPrefix, label, last]
  cases spec.name with
  | none => rfl
  | some given => cases given <;> rfl

/-- An alias that holds something is what the ids begin with. -/
theorem idPrefix_of_alias {spec : SecretSpec} {given : Text} (named : spec.name = some given)
    (nonempty : given ≠ []) : spec.idPrefix = given := by
  cases given with
  | nil => exact absurd rfl nonempty
  | cons first rest => rw [idPrefix, named]

end SecretSpec

namespace SecretMapping

/-- A prefix and a name with one slash between any two pieces that count. -/
def cleanId (label name : Text) : Text :=
  (if label.head? = some '/' then ['/'] else []) ++
    Text.joinWith '/'
      ((Text.fields '/' label).filter (fun piece => piece ≠ [] ∧ piece ≠ ['.']) ++ [name])

/-- An id spells the clean form of its prefix and the file name. -/
theorem ofText_secretId (label name : Text) :
    ofText (secretId label name) =
      Path.ofComponents (Path.course (Path.push (ofText label) (ofText name))) :=
  Path.isText_ofComponents_course
    (Path.isText_push (Utf8.isText_encode label) (Utf8.isText_encode name))

/-- An id is the clean spelling of its prefix and the file name. -/
theorem secretId_eq_cleanId {label name : Text} (plain : Path.IsPlain (ofText name)) :
    secretId label name = cleanId label name := by
  have pieces : Path.countingPieces (Path.push (ofText label) (ofText name)) =
      ((Text.fields '/' label).filter (fun piece => piece ≠ [] ∧ piece ≠ ['.']) ++ [name]).map
        ofText := by
    rw [Path.countingPieces_push plain.free, Path.countingPieces_ofText,
      List.filter_cons_of_pos (Path.counts_of_plain plain), List.map_append]
    rfl
  have fit : forall piece, piece ∈ Path.countingPieces (Path.push (ofText label) (ofText name)) ->
      Path.IsPiece piece := fun _ => Path.isPiece_of_mem_countingPieces
  have pushed := Path.ofComponents_course (Path.push (ofText label) (ofText name))
  rw [Path.isAbsolute_push plain.free, Path.isAbsolute_ofText] at pushed
  rw [pieces] at fit pushed
  apply Path.ofText_injective
  rw [ofText_secretId, pushed, cleanId, Path.ofText_append,
    Path.joinWith_ofText (List.concat_ne_nil _ _)]
  by_cases begins : label.head? = some '/'
  · rw [if_pos begins, if_pos (decide_eq_true begins)]
    exact Path.foldl_push_slashes (fun _ member => List.mem_singleton.mp member) fit
  · rw [if_neg begins, decide_eq_false begins, if_neg Bool.false_ne_true]
    exact Path.foldl_push_slashes (fun _ member => absurd member List.not_mem_nil) fit

end SecretMapping
end BuildInputs

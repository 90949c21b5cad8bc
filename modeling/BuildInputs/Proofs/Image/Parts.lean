import BuildInputs.Image.Reference
import BuildInputs.Proofs.Text.Cuts

namespace BuildInputs
namespace Image

open Text

/-!
# The parts of a reference

A well-formed reference is a name, and after it perhaps a tag and perhaps a digest.  The marks
of the parts decide where one ends: a digest has no `@` and a tag has neither mark, and although
a name may have a `:` before a port, a `/` follows it, which no tag has.  Taking a digest and
then a tag off the end therefore leaves the name, and no two well-formed references have the same
text.

In the other direction, the two ends that are taken off any text are good, but not good enough:
the digest may have upper-case digits, which a well-formed reference does not.
-/

/-- The parts of a well-formed reference. -/
@[ext] structure Reference where
  name : Text
  tag : Option Text
  digest : Option Text
  name_valid : isName name = true
  tag_valid : tag.all isTag = true
  digest_valid : digest.all isDigest = true

/-- The reference as it is written. -/
def Reference.text (reference : Reference) : Text :=
  reference.name ++ (marked ':' reference.tag ++ marked '@' reference.digest)

/-! ## Which characters stand where -/

theorem all_isTagLetter {tag : Text} (valid : isTag tag = true) : tag.all isTagLetter = true := by
  cases tag with
  | nil => rfl
  | cons first rest =>
      simp only [isTag, Bool.and_eq_true] at valid
      simp only [List.all_cons, isTagLetter, valid.1.1, Bool.true_or, Bool.true_and]
      exact valid.1.2

theorem not_mem_tag {tag : Text} (valid : isTag tag = true) {letter : Char}
    (refused : isTagLetter letter = false) : letter ∉ tag :=
  not_mem_of_all (all_isTagLetter valid) refused

theorem isDigestOf_iff {digit : Char -> Bool} {text : Text} :
    isDigestOf digit text = true ↔
      exists digits, text = digestMark ++ digits ∧ digits.length = 64 ∧ digits.all digit = true := by
  simp only [isDigestOf, Bool.and_eq_true, List.isPrefixOf_iff_prefix, decide_eq_true_eq]
  constructor
  · rintro ⟨⟨⟨digits, rfl⟩, length⟩, all⟩
    rw [List.drop_left] at length all
    exact ⟨digits, rfl, length, all⟩
  · rintro ⟨digits, rfl, length, all⟩
    rw [List.drop_left]
    exact ⟨⟨⟨digits, rfl⟩, length⟩, all⟩

theorem isHex_of_isDigest {digest : Text} (valid : isDigest digest = true) :
    isDigestOf isHex digest = true := by
  obtain ⟨digits, rfl, length, all⟩ := isDigestOf_iff.mp valid
  refine isDigestOf_iff.mpr ⟨digits, rfl, length, List.all_eq_true.mpr fun letter member => ?_⟩
  exact Bool.or_eq_true_iff.mpr (Or.inl (List.all_eq_true.mp all letter member))

theorem all_isHex_of_isDigest {digest : Option Text} (valid : digest.all isDigest = true) :
    digest.all (isDigestOf isHex) = true := by
  cases digest with
  | none => rfl
  | some digest => exact isHex_of_isDigest valid

theorem at_not_mem_digest {digest : Text} (valid : isDigestOf isHex digest = true) :
    '@' ∉ digest := by
  obtain ⟨digits, rfl, -, all⟩ := isDigestOf_iff.mp valid
  intro member
  rcases List.mem_append.mp member with inMark | inDigits
  · revert inMark
    decide
  · exact not_mem_of_all all (by decide) inDigits

/-! ## Checking tags -/

theorem checkTags_eq_ok_iff {tags : List Text} {done : Unit} :
    checkTags tags = .ok done ↔ forall tag, tag ∈ tags -> isTag tag = true := by
  unfold checkTags
  cases found : tags.find? fun tag => !isTag tag with
  | none =>
      apply iff_of_true rfl
      intro tag member
      have accepted := List.find?_eq_none.mp found tag member
      simpa only [Bool.not_eq_true', Bool.not_eq_false] using accepted
  | some tag =>
      constructor
      · intro impossible
        cases impossible
      · intro all
        have refused := List.find?_some found
        rw [all tag (List.mem_of_find?_eq_some found)] at refused
        cases refused

/-- The first text that is no tag decides the refusal. -/
theorem checkTags_eq_error_iff {tags : List Text} {error : InputError} :
    checkTags tags = .error error ↔ exists before tag after, tags = before ++ tag :: after ∧
      before.all isTag = true ∧ isTag tag = false ∧ error = .badTag tag := by
  have first : forall tag, (tags.find? fun tag => !isTag tag) = some tag ↔
      exists before after, tags = before ++ tag :: after ∧ before.all isTag = true ∧
        isTag tag = false := by
    intro tag
    rw [List.find?_eq_some_iff_append]
    constructor
    · rintro ⟨refused, before, after, rfl, accepted⟩
      refine ⟨before, after, rfl, List.all_eq_true.mpr fun other member => ?_, by simpa using refused⟩
      simpa using accepted other member
    · rintro ⟨before, after, rfl, accepted, refused⟩
      refine ⟨by simpa using refused, before, after, rfl, fun other member => ?_⟩
      simpa using List.all_eq_true.mp accepted other member
  unfold checkTags
  constructor
  · intro failed
    cases found : tags.find? fun tag => !isTag tag with
    | none =>
        rw [found] at failed
        cases failed
    | some tag =>
        rw [found] at failed
        cases failed
        obtain ⟨before, after, whole, accepted, refused⟩ := (first tag).mp found
        exact ⟨before, tag, after, whole, accepted, refused, rfl⟩
  · rintro ⟨before, tag, after, whole, accepted, refused, rfl⟩
    rw [(first tag).mpr ⟨before, after, whole, accepted, refused⟩]

/-! ## The end of a name -/

theorem not_mem_part {part : Text} (valid : isPart part = true) {letter : Char}
    (refused : isPartLetter letter = false) : letter ∉ part := by
  simp only [isPart, Bool.and_eq_true] at valid
  exact not_mem_of_all valid.1.1 refused

/-- A name is cut into parts, and only before a `/` may a part name a port. -/
theorem exists_parts {name : Text} (valid : isName name = true) :
    exists first others, fields '/' name = first :: others ∧ isRegistry first = true ∧
      others.all isPart = true ∧ (others = [] -> isPart first = true) := by
  simp only [isName, Bool.and_eq_true] at valid
  have parts := valid.2
  cases pieces : fields '/' name with
  | nil => exact absurd pieces (fields_ne_nil name)
  | cons first others =>
      rw [pieces] at parts
      cases others with
      | nil =>
          have noPort : ':' ∉ first := not_mem_part parts (by decide)
          have registry : isRegistry first = true := by
            rw [isRegistry, cutFirst_of_free noPort]
            exact parts
          exact ⟨first, [], rfl, registry, rfl, fun _ => parts⟩
      | cons next others =>
          have both := Bool.and_eq_true_iff.mp parts
          exact ⟨first, next :: others, rfl, both.1, both.2, fun impossible => nomatch impossible⟩

theorem not_isDigit_of_refused {letter : Char} (refused : isPartLetter letter = false) :
    isDigit letter = false := by
  simp only [isPartLetter, isNameLetter, Bool.or_eq_false_iff] at refused
  exact refused.1.1.1.2

theorem not_mem_registry {registry : Text} (valid : isRegistry registry = true) {letter : Char}
    (refused : isPartLetter letter = false) (notColon : letter ≠ ':') : letter ∉ registry := by
  unfold isRegistry at valid
  cases cut : cutFirst ':' registry with
  | none =>
      rw [cut] at valid
      exact not_mem_part valid refused
  | some sides =>
      obtain ⟨host, port⟩ := sides
      rw [cut] at valid
      simp only [isPort, Bool.and_eq_true] at valid
      rw [(cutFirst_eq_some_iff.mp cut).1]
      intro member
      rcases List.mem_append.mp member with inHost | inRest
      · exact not_mem_part valid.1 refused inHost
      · rcases List.mem_cons.mp inRest with impossible | inPort
        · exact notColon impossible
        · exact not_mem_of_all valid.2.1.2 (not_isDigit_of_refused refused) inPort

/-- Between its slashes and the `:` before a port a name has the characters of its parts only. -/
theorem not_mem_name {name : Text} (valid : isName name = true) {letter : Char}
    (refused : isPartLetter letter = false) (notColon : letter ≠ ':') (notSlash : letter ≠ '/') :
    letter ∉ name := by
  obtain ⟨first, others, pieces, registry, all, -⟩ := exists_parts valid
  intro member
  rw [← joinWith_fields '/' name, pieces] at member
  rcases mem_of_mem_joinWith member with impossible | ⟨part, among, inside⟩
  · exact notSlash impossible
  · rcases List.mem_cons.mp among with same | other
    · exact not_mem_registry registry refused notColon (same ▸ inside)
    · exact not_mem_part (List.all_eq_true.mp all part other) refused inside

theorem at_not_mem_name {name : Text} (valid : isName name = true) : '@' ∉ name :=
  not_mem_name valid (by decide) (by decide) (by decide)

/-- The last part of a name names no port. -/
theorem exists_lastPart {name : Text} (valid : isName name = true) :
    exists last, isPart last = true ∧ (name = last ∨ exists front, name = front ++ '/' :: last) := by
  obtain ⟨first, others, pieces, -, all, alone⟩ := exists_parts valid
  have joined := joinWith_fields '/' name
  rw [pieces] at joined
  by_cases single : others = []
  · subst single
    exact ⟨first, alone rfl, Or.inl joined.symm⟩
  · obtain ⟨front, last, rfl⟩ := exists_concat single
    rw [← List.cons_append, joinWith_append_singleton (List.cons_ne_nil _ _)] at joined
    have lastValid := List.all_eq_true.mp all last List.mem_concat_self
    exact ⟨last, lastValid, Or.inr ⟨_, joined.symm⟩⟩

/-- A `:` in a name stands in a part that is not the last. -/
theorem slash_mem_of_isName {name front rest : Text} (valid : isName name = true)
    (cut : name = front ++ ':' :: rest) : '/' ∈ rest := by
  obtain ⟨last, isLast, alone | ⟨before, ended⟩⟩ := exists_lastPart valid
  · have member : ':' ∈ last := alone ▸ cut ▸ List.mem_append_right front List.mem_cons_self
    exact absurd member (not_mem_part isLast (by decide))
  · have sides := List.append_eq_append_iff.mp (ended.symm.trans cut)
    rcases sides with ⟨middle, -, later⟩ | ⟨middle, -, later⟩
    -- The `:` stands behind the last `/`, which would put it into the last part.
    · cases middle with
      | nil => cases later
      | cons letter middle =>
          have member : ':' ∈ last :=
            (List.cons.inj later).2 ▸ List.mem_append_right middle List.mem_cons_self
          exact absurd member (not_mem_part isLast (by decide))
    · have member : '/' ∈ ':' :: rest := later ▸ List.mem_append_right middle List.mem_cons_self
      exact (List.mem_cons.mp member).resolve_left (by decide)

theorem dropTag_of_isName {name : Text} (valid : isName name = true) : dropTag name = name := by
  apply dropMarked_of_last
  intro front piece cut _
  apply Bool.eq_false_iff.mpr
  intro isTag
  exact not_mem_tag isTag (by decide) (slash_mem_of_isName valid cut)

/-! ## Taking the ends off -/

theorem exists_ends (reference : Text) :
    exists tag digest : Option Text, tag.all isTag = true ∧ digest.all (isDigestOf isHex) = true ∧
      reference = name reference ++ (marked ':' tag ++ marked '@' digest) := by
  obtain ⟨digest, isDigest, front⟩ := exists_dropMarked '@' (isDigestOf isHex) reference
  obtain ⟨tag, isTag, rest⟩ := exists_dropMarked ':' isTag (dropDigest reference)
  refine ⟨tag, digest, isTag, isDigest, ?_⟩
  calc reference = dropDigest reference ++ marked '@' digest := front
    _ = (name reference ++ marked ':' tag) ++ marked '@' digest :=
        congrArg (· ++ marked '@' digest) rest
    _ = name reference ++ (marked ':' tag ++ marked '@' digest) := List.append_assoc _ _ _

theorem at_not_mem_markedTag {tag : Option Text} (valid : tag.all isTag = true) :
    '@' ∉ marked ':' tag := by
  apply not_mem_marked (by decide)
  rintro text rfl
  exact not_mem_tag valid (by decide)

/-- The two ends of a text are told apart by their marks. -/
theorem ends_inj {firstTag secondTag firstDigest secondDigest : Option Text}
    (firstValid : firstTag.all isTag = true) (secondValid : secondTag.all isTag = true)
    (same : marked ':' firstTag ++ marked '@' firstDigest =
      marked ':' secondTag ++ marked '@' secondDigest) :
    firstTag = secondTag ∧ firstDigest = secondDigest := by
  have cut := congrArg (fun ends => (cutFirst '@' ends).map Prod.snd) same
  simp only [cutFirst_append_marked (at_not_mem_markedTag firstValid),
    cutFirst_append_marked (at_not_mem_markedTag secondValid), Option.map_map,
    Function.comp_def, Option.map_id'] at cut
  subst cut
  exact ⟨marked_injective (List.append_cancel_right same), rfl⟩

/-- A tag and a digest, in digits of either case, that are written after a name are taken off again,
and nothing of the name is, even if it has a port. -/
theorem name_append_ends {name : Text} {tag digest : Option Text} (nameValid : isName name = true)
    (tagValid : tag.all isTag = true) (digestValid : digest.all (isDigestOf isHex) = true) :
    Image.name (name ++ (marked ':' tag ++ marked '@' digest)) = name := by
  have noAt : '@' ∉ name ++ marked ':' tag := by
    intro member
    rcases List.mem_append.mp member with inName | inTag
    · exact at_not_mem_name nameValid inName
    · exact at_not_mem_markedTag tagValid inTag
  have front : dropDigest (name ++ marked ':' tag ++ marked '@' digest) = name ++ marked ':' tag := by
    cases digest with
    | none =>
        rw [marked, List.append_nil]
        exact dropMarked_of_free noAt
    | some digest => exact dropMarked_append _ (at_not_mem_digest digestValid) digestValid
  rw [Image.name, ← List.append_assoc, front]
  cases tag with
  | none =>
      rw [marked, List.append_nil]
      exact dropTag_of_isName nameValid
  | some tag => exact dropMarked_append name (not_mem_tag tagValid (by decide)) tagValid

namespace Reference

/-- The name that is found is the name that was written. -/
theorem name_text (reference : Reference) : Image.name reference.text = reference.name :=
  name_append_ends reference.name_valid reference.tag_valid
    (all_isHex_of_isDigest reference.digest_valid)

theorem text_injective : Function.Injective text := by
  intro first second same
  have names : first.name = second.name := by rw [← name_text, same, name_text]
  unfold text at same
  rw [names] at same
  have ends := ends_inj first.tag_valid second.tag_valid (List.append_cancel_left same)
  exact Reference.ext names ends.1 ends.2

end Reference

/-- A text is a well-formed reference if what is left of it is a name and its digest, if it has
one, has lower-case digits only. -/
theorem exists_text_eq_iff {text : Text} {tag digest : Option Text} (tagValid : tag.all isTag = true)
    (whole : text = name text ++ (marked ':' tag ++ marked '@' digest)) :
    (exists reference : Reference, reference.text = text) ↔
      isName (name text) = true ∧ digest.all isDigest = true := by
  constructor
  · rintro ⟨reference, rfl⟩
    rw [Reference.name_text] at whole ⊢
    have ends := ends_inj reference.tag_valid tagValid (List.append_cancel_left whole)
    exact ⟨reference.name_valid, ends.2 ▸ reference.digest_valid⟩
  · rintro ⟨nameValid, digestValid⟩
    exact ⟨⟨name text, tag, digest, nameValid, tagValid, digestValid⟩, whole.symm⟩

end Image
end BuildInputs

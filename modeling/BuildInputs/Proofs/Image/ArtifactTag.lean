import BuildInputs.Proofs.Image.Parts

namespace BuildInputs
namespace Image

open Text

/-!
# Tags of artifacts

The tag of a Containerfile artifact is written without a check, from a digest and a suffix that
were checked by their own rules.  The rules fit together to the character: `sha256-`, 64 digits
and at most 57 further characters make 128, which is the longest a tag may be.  A digest always
has the same length, so the suffix can be told from it and no two artifacts share a tag.
-/

theorem isTagLetter_of_isLowerHex {letter : Char} (hex : isLowerHex letter = true) :
    isTagLetter letter = true := by
  simp only [isLowerHex, Bool.or_eq_true, Bool.and_eq_true, decide_eq_true_eq] at hex
  simp only [isTagLetter, isWordLetter, isLower, Bool.or_eq_true, Bool.and_eq_true,
    decide_eq_true_eq]
  rcases hex with digit | ⟨low, high⟩
  · exact Or.inl (Or.inl (Or.inl (Or.inr digit)))
  · exact Or.inl (Or.inl (Or.inl (Or.inl (Or.inl ⟨low, Char.le_trans high (by decide)⟩))))

/-- What stands in a tag for the mark of a digest. -/
def artifactMark : Text := "sha256-".toList

theorem artifactTag_digest (digits suffix : Text) :
    artifactTag (digestMark ++ digits) suffix = artifactMark ++ (digits ++ suffix) := by
  have free : ':' ∉ "sha256".toList := by decide
  have cut : cutFirst ':' (digestMark ++ digits) = some ("sha256".toList, digits) :=
    cutFirst_append free digits
  rw [artifactTag, cut]
  simp only [List.append_assoc, List.cons_append]
  rfl

/-- The limits on digests, suffixes and tags fit together. -/
theorem isTag_artifactTag {digest suffix : Text} (digestValid : isDigest digest = true)
    (suffixValid : isTagSuffix suffix = true) : isTag (artifactTag digest suffix) = true := by
  obtain ⟨digits, rfl, length, hex⟩ := isDigestOf_iff.mp digestValid
  simp only [isTagSuffix, Bool.and_eq_true, decide_eq_true_eq] at suffixValid
  obtain ⟨⟨letters, -⟩, short⟩ := suffixValid
  have mark : artifactMark = 's' :: "ha256-".toList := rfl
  have markLength : "ha256-".toList.length = 6 := rfl
  have digitsLetters : digits.all isTagLetter = true :=
    List.all_eq_true.mpr fun letter member =>
      isTagLetter_of_isLowerHex (List.all_eq_true.mp hex letter member)
  rw [artifactTag_digest, mark, List.cons_append, isTag]
  simp only [Bool.and_eq_true, List.all_append, decide_eq_true_eq, List.length_append]
  exact ⟨⟨by decide, by decide, digitsLetters, letters⟩, by omega⟩

/-- Different artifacts have different tags. -/
theorem artifactTag_inj {first second firstSuffix secondSuffix : Text}
    (firstValid : isDigest first = true) (secondValid : isDigest second = true)
    (same : artifactTag first firstSuffix = artifactTag second secondSuffix) :
    first = second ∧ firstSuffix = secondSuffix := by
  obtain ⟨digits, rfl, length, -⟩ := isDigestOf_iff.mp firstValid
  obtain ⟨others, rfl, otherLength, -⟩ := isDigestOf_iff.mp secondValid
  rw [artifactTag_digest, artifactTag_digest] at same
  have parts := List.append_inj (List.append_cancel_left same) (length.trans otherLength.symm)
  exact ⟨congrArg (digestMark ++ ·) parts.1, parts.2⟩

end Image
end BuildInputs

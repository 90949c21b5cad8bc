import BuildInputs.Auth.Selection
import BuildInputs.Proofs.Image.Parts

namespace BuildInputs
namespace Image

open Text

/-!
# The ends of any text

A digest and then a tag are taken off the end of every text that has them, whether or not what is
left is a name.  Nothing else is taken off, and neither end is left on.  After a name the ends may
stand or not, in any combination: the name is found again, and what is looked up by the name is the
same for all of them.
-/

/-- A text is cut into a front, perhaps a tag and perhaps a digest, in digits of either case.  Both
ends are there if the text has them. -/
structure IsCut (reference front : Text) (tag digest : Option Text) : Prop where
  whole : reference = front ++ marked ':' tag ++ marked '@' digest
  tag_valid : tag.all isTag = true
  digest_valid : digest.all (isDigestOf isHex) = true
  no_digest_left : digest = none -> forall rest piece, isDigestOf isHex piece = true ->
    reference ≠ rest ++ '@' :: piece
  no_tag_left : tag = none -> forall rest piece, isTag piece = true ->
    front ++ marked ':' tag ≠ rest ++ ':' :: piece

/-- The name in a text is the front of its only cut. -/
theorem name_eq_iff {reference front : Text} :
    name reference = front ↔ exists tag digest, IsCut reference front tag digest := by
  have tagFree : forall piece, isTag piece = true -> ':' ∉ piece :=
    fun piece valid => not_mem_tag valid (by decide)
  have withoutDigest : forall {rest}, dropDigest reference = rest ↔ _ :=
    dropMarked_eq_iff fun piece => at_not_mem_digest
  have withoutTag : name reference = front ↔ _ := dropMarked_eq_iff tagFree
  rw [withoutTag]
  constructor
  · rintro ⟨tag, tagValid, isFront, noTag⟩
    obtain ⟨digest, digestValid, whole, noDigest⟩ := withoutDigest.mp isFront
    exact ⟨tag, digest, whole, tagValid, digestValid, noDigest, isFront ▸ noTag⟩
  · rintro ⟨tag, digest, cut⟩
    have isFront := withoutDigest.mpr ⟨digest, cut.digest_valid, cut.whole, cut.no_digest_left⟩
    exact ⟨tag, cut.tag_valid, isFront, isFront ▸ cut.no_tag_left⟩

/-- Nothing is taken off a name, not even a port. -/
theorem name_of_isName {front : Text} (valid : isName front = true) : name front = front := by
  have kept : dropDigest front = front := dropMarked_of_free (at_not_mem_name valid)
  rw [name, kept]
  exact dropTag_of_isName valid

theorem ne_nil_of_isName {front : Text} (valid : isName front = true) : front ≠ [] := by
  rintro rfl
  cases valid

/-- References with the same name have the same token selected for them. -/
theorem select_congr {first second : Text} (same : name first = name second)
    (nonempty : name first ≠ []) (workspace : Workspace) (authFile : Path) :
    Auth.select workspace authFile first = Auth.select workspace authFile second := by
  rw [Auth.select, Auth.select, ← same, if_neg nonempty, if_neg nonempty]

/-- In any text the name is what is left when a digest and a tag are taken off that are there.  A
well-formed name is found whichever of them is written after it, and the same token is selected. -/
theorem name_takes_ends_off :
    (forall reference front : Text,
      name reference = front ↔ exists tag digest, IsCut reference front tag digest) ∧
    (forall (front : Text) (tag digest : Option Text), isName front = true ->
      tag.all isTag = true -> digest.all (isDigestOf isHex) = true ->
        name (front ++ marked ':' tag ++ marked '@' digest) = front ∧
        forall workspace authFile,
          Auth.select workspace authFile (front ++ marked ':' tag ++ marked '@' digest) =
            Auth.select workspace authFile front) := by
  refine ⟨fun reference front => name_eq_iff, ?_⟩
  intro front tag digest nameValid tagValid digestValid
  have found : name (front ++ marked ':' tag ++ marked '@' digest) = front := by
    rw [List.append_assoc]
    exact name_append_ends nameValid tagValid digestValid
  have same : name (front ++ marked ':' tag ++ marked '@' digest) = name front :=
    found.trans (name_of_isName nameValid).symm
  have nonempty : name (front ++ marked ':' tag ++ marked '@' digest) ≠ [] := by
    rw [found]
    exact ne_nil_of_isName nameValid
  exact ⟨found, select_congr same nonempty⟩

/-- A port, the longest tag and a digest in upper-case digits. -/
theorem name_takes_ends_off_port :
    name ("localhost:5000/app".toList ++ marked ':' (some (List.replicate 128 'a')) ++
        marked '@' (some ("sha256:".toList ++ List.replicate 64 'F'))) =
      "localhost:5000/app".toList :=
  (name_takes_ends_off.2 "localhost:5000/app".toList (some (List.replicate 128 'a'))
    (some ("sha256:".toList ++ List.replicate 64 'F')) (by decide +kernel) (by decide +kernel)
    (by decide +kernel)).1

end Image
end BuildInputs

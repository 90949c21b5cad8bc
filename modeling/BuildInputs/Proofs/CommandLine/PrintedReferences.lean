import BuildInputs.Proofs.CommandLine.ImageReference
import BuildInputs.Proofs.Image.ArtifactTag

namespace BuildInputs
namespace CommandLine

open Text

/-!
# Printed references are references

What the command prints is meant to be used as a reference again.  A line that joins the name to
a tag is one: no tag has a mark in it, so the line has the same name as before, and the command
accepts it whatever else is asked for.  This includes the tag of the Containerfile artifact, which
is the only one that was put together and not given.
-/

/-- The tags that are printed for a request, given those that its label lists. -/
def ReferenceRequest.printedTags (request : ReferenceRequest) (labelTags : List Text) :
    List Text :=
  (request.digest.map fun digest => Image.artifactTag digest request.tagSuffix).toList ++
    (request.tags ++ labelTags)

/-! ## The tags -/

theorem isTag_of_tagsFromLabel {name value : Text} {tags : List Text}
    (listed : Image.tagsFromLabel name value = .ok tags) :
    forall tag, tag ∈ tags -> Image.isTag tag = true := by
  unfold Image.tagsFromLabel at listed
  split at listed
  · obtain ⟨done, checked, rfl⟩ := Report.map_eq_ok_iff.mp listed
    exact Image.checkTags_eq_ok_iff.mp checked
  · cases listed

theorem isTag_of_labelTags {request : ReferenceRequest} {labelTags : List Text}
    (listed : request.labelTags = .ok labelTags) :
    forall tag, tag ∈ labelTags -> Image.isTag tag = true := by
  unfold ReferenceRequest.labelTags at listed
  split at listed
  · cases listed
    exact fun _ impossible => absurd impossible List.not_mem_nil
  · exact isTag_of_tagsFromLabel listed

theorem isTag_of_printedTags {request : ReferenceRequest} {labelTags : List Text}
    (acceptable : request.IsAcceptable) (listed : request.labelTags = .ok labelTags) :
    forall tag, tag ∈ request.printedTags labelTags -> Image.isTag tag = true := by
  intro tag member
  rcases List.mem_append.mp member with artifact | given
  · obtain ⟨digest, asked, rfl⟩ := Option.map_eq_some_iff.mp (Option.mem_toList.mp artifact)
    have valid := acceptable.artifact digest asked
    exact Image.isTag_artifactTag valid.1 valid.2
  · rcases List.mem_append.mp given with explicit | labelled
    · exact acceptable.tags tag explicit
    · exact isTag_of_labelTags listed tag labelled

/-! ## The lines -/

/-- Lines are found again in what is printed, with nothing after the end of the last one. -/
theorem fields_spellLines {lines : List Text}
    (free : forall line, line ∈ lines -> '\n' ∉ line) :
    fields '\n' (spellLines lines) = lines ++ [[]] := by
  induction lines with
  | nil => rfl
  | cons line lines ih =>
      rw [List.forall_mem_cons] at free
      have first : spellLines (line :: lines) = line ++ '\n' :: spellLines lines := by
        rw [spellLines, List.flatMap_cons, List.append_assoc]
        rfl
      rw [first, fields_append free.1, ih free.2, List.cons_append]

theorem mem_lines_iff {request : ReferenceRequest} {name line : Text} {labelTags : List Text} :
    line ∈ request.lines name labelTags ↔
      line = name ∨ (request.digest.isSome = true ∧ line = Settings.artifactType) ∨
        exists tag, tag ∈ request.printedTags labelTags ∧ line = name ++ ':' :: tag := by
  obtain ⟨reference, digest, suffix, tags, label⟩ := request
  cases digest <;>
    simp only [ReferenceRequest.lines, ReferenceRequest.artifactLines,
      ReferenceRequest.printedTags, Option.map_none, Option.map_some, Option.toList_none,
      Option.toList_some, List.mem_append, List.mem_cons, List.mem_map, List.not_mem_nil,
      Option.isSome_none, Option.isSome_some, Bool.false_eq_true, false_and, true_and, or_false,
      false_or, or_and_right, exists_or, exists_eq_left, or_assoc, or_left_comm, eq_comm]

theorem newline_not_mem_lines {request : ReferenceRequest} {name : Text} {labelTags : List Text}
    (nameValid : Image.isName name = true)
    (tags : forall tag, tag ∈ request.printedTags labelTags -> Image.isTag tag = true) :
    forall line, line ∈ request.lines name labelTags -> '\n' ∉ line := by
  have nameFree : '\n' ∉ name :=
    Image.not_mem_name nameValid (by decide) (by decide) (by decide)
  intro line member
  rcases mem_lines_iff.mp member with rfl | ⟨-, rfl⟩ | ⟨tag, printed, rfl⟩
  · exact nameFree
  · decide
  · intro inside
    rcases List.mem_append.mp inside with inName | inRest
    · exact nameFree inName
    · rcases List.mem_cons.mp inRest with impossible | inTag
      · revert impossible
        decide
      · exact Image.not_mem_tag (tags tag printed) (by decide) inTag

/-- Of the lines of an output only those for the tags join the name to something. -/
theorem mem_fields_iff {request : ReferenceRequest} {name : Text} {labelTags : List Text}
    (nameValid : Image.isName name = true)
    (tags : forall tag, tag ∈ request.printedTags labelTags -> Image.isTag tag = true)
    (tag : Text) :
    name ++ ':' :: tag ∈ fields '\n' (spellLines (request.lines name labelTags)) ↔
      tag ∈ request.printedTags labelTags := by
  have notName : name ++ ':' :: tag ≠ name := fun same =>
    List.cons_ne_nil _ _ (List.append_right_eq_self.mp same)
  have notType : name ++ ':' :: tag ≠ Settings.artifactType := by
    intro same
    have colon : ':' ∈ Settings.artifactType :=
      same ▸ List.mem_append_right name List.mem_cons_self
    revert colon
    decide
  have notEnd : name ++ ':' :: tag ≠ [] :=
    List.append_ne_nil_of_right_ne_nil _ (List.cons_ne_nil _ _)
  rw [fields_spellLines (newline_not_mem_lines nameValid tags), List.mem_append,
    List.mem_singleton, or_iff_left notEnd, mem_lines_iff]
  constructor
  · rintro (same | ⟨-, same⟩ | ⟨other, printed, same⟩)
    · exact absurd same notName
    · exact absurd same notType
    · exact (List.cons.inj (List.append_cancel_left same)).2 ▸ printed
  · exact fun printed => Or.inr (Or.inr ⟨tag, printed, rfl⟩)

/-! ## A line as a reference -/

/-- A request with a well-formed reference is refused only because of what else it asks for. -/
theorem result_of_reference {request : ReferenceRequest} {reference : Image.Reference}
    (written : reference.text = request.reference) :
    (runImageRef request).result = .ok () ↔ request.IsAcceptable := by
  obtain ⟨tag, digest, tagValid, -, whole⟩ := Image.exists_ends request.reference
  rw [result_eq_ok_iff]
  simp only [prints_runImageRef tagValid whole]
  constructor
  · rintro ⟨_, -, acceptable, -⟩
    exact acceptable
  · intro acceptable
    obtain ⟨labelTags, listed⟩ := acceptable.label
    exact ⟨_, ⟨reference, written⟩, acceptable, labelTags, listed, rfl⟩

/-- A name with a tag behind it. -/
def taggedReference {name tag : Text} (nameValid : Image.isName name = true)
    (tagValid : Image.isTag tag = true) : Image.Reference :=
  ⟨name, some tag, none, nameValid, tagValid, rfl⟩

theorem text_taggedReference {name tag : Text} (nameValid : Image.isName name = true)
    (tagValid : Image.isTag tag = true) :
    (taggedReference nameValid tagValid).text = name ++ ':' :: tag := by
  rw [taggedReference, Image.Reference.text, marked, marked, List.append_nil]

theorem isAcceptable_plain (reference : Text) :
    ReferenceRequest.IsAcceptable { reference := reference } where
  artifact := fun _ impossible => nomatch impossible
  tags := fun _ impossible => absurd impossible List.not_mem_nil
  label := ⟨[], rfl⟩

/-- The tag that is made for the artifact of an image is a tag, and no other artifact has it.  When
the command succeeds, the lines of its output that begin with the name and a `:` are those for the
tag of the artifact, for the tags given and for those of the label.  Each of these lines has the
same name again and is accepted by itself, and with any additions that are well formed. -/
theorem printed_references_accepted :
    (forall digest suffix, Image.isDigest digest = true -> Image.isTagSuffix suffix = true ->
      Image.isTag (Image.artifactTag digest suffix) = true) ∧
    (forall first second firstSuffix secondSuffix, Image.isDigest first = true ->
      Image.isDigest second = true -> Image.isTagSuffix firstSuffix = true ->
      Image.isTagSuffix secondSuffix = true ->
      Image.artifactTag first firstSuffix = Image.artifactTag second secondSuffix ->
        first = second ∧ firstSuffix = secondSuffix) ∧
    forall request : ReferenceRequest, (runImageRef request).result = .ok () ->
      exists labelTags, request.labelTags = .ok labelTags ∧
        forall tag line : Text, line = Image.name request.reference ++ ':' :: tag ->
          (line ∈ fields '\n' (outputOf (runImageRef request).notes) ↔
            tag ∈ request.printedTags labelTags) ∧
          (line ∈ fields '\n' (outputOf (runImageRef request).notes) ->
            Image.name line = Image.name request.reference ∧
            (runImageRef { reference := line }).result = .ok () ∧
            forall again : ReferenceRequest, again.reference = line ->
              ((runImageRef again).result = .ok () ↔ again.IsAcceptable)) := by
  refine ⟨fun _ _ => Image.isTag_artifactTag, ?_, ?_⟩
  · intro first second firstSuffix secondSuffix firstValid secondValid _ _ same
    exact Image.artifactTag_inj firstValid secondValid same
  · intro request succeeds
    obtain ⟨tag, digest, tagValid, -, whole⟩ := Image.exists_ends request.reference
    obtain ⟨⟨reference, written⟩, acceptable, labelTags, listed, printed⟩ :=
      (prints_runImageRef tagValid whole _).mp ⟨succeeds, rfl⟩
    have nameValid : Image.isName (Image.name request.reference) = true := by
      rw [← written, Image.Reference.name_text]
      exact reference.name_valid
    have tags := isTag_of_printedTags acceptable listed
    refine ⟨labelTags, listed, ?_⟩
    rintro tag line rfl
    rw [printed, mem_fields_iff nameValid tags]
    refine ⟨Iff.rfl, fun member => ?_⟩
    have spelled := text_taggedReference nameValid (tags tag member)
    refine ⟨?_, (result_of_reference spelled).mpr (isAcceptable_plain _), ?_⟩
    · rw [← spelled, Image.Reference.name_text]
      rfl
    · intro again same
      exact result_of_reference (spelled.trans same.symm)

/-- A request whose registry has a port and whose artifact has a tag of 128 characters. -/
def longestRequest : ReferenceRequest where
  reference := "localhost:5000/app".toList
  digest := some ("sha256:".toList ++ List.replicate 64 'a')
  tagSuffix := List.replicate 57 '-'
  label := some ("org/tags".toList, " latest,v3 ".toList)

/-- The parts of its reference. -/
def longestParts : Image.Reference where
  name := "localhost:5000/app".toList
  tag := none
  digest := none
  name_valid := by cbv
  tag_valid := rfl
  digest_valid := rfl

/-- The tag of its artifact. -/
def longestTag : Text :=
  "sha256-".toList ++ List.replicate 64 'a' ++ List.replicate 57 '-'

theorem printed_references_accepted_longest :
    Image.isTag longestTag = true ∧
      (runImageRef longestRequest).result = .ok () ∧
      ("localhost:5000/app:".toList ++ longestTag) ∈
        fields '\n' (outputOf (runImageRef longestRequest).notes) ∧
      Image.name ("localhost:5000/app:".toList ++ longestTag) = "localhost:5000/app".toList ∧
      (runImageRef { reference := "localhost:5000/app:".toList ++ longestTag }).result = .ok () ∧
      forall digest suffix, Image.isDigest digest = true -> Image.isTagSuffix suffix = true ->
        Image.artifactTag digest suffix = longestTag ->
          longestRequest.digest = some digest ∧ suffix = longestRequest.tagSuffix := by
  have digestValid : Image.isDigest ("sha256:".toList ++ List.replicate 64 'a') = true := by cbv
  have suffixValid : Image.isTagSuffix longestRequest.tagSuffix = true := by cbv
  have listed : longestRequest.labelTags = .ok ["latest".toList, "v3".toList] := by cbv
  have acceptable : longestRequest.IsAcceptable := by
    refine ⟨?_, fun _ impossible => absurd impossible List.not_mem_nil, _, listed⟩
    intro digest given
    cases given
    exact ⟨digestValid, suffixValid⟩
  have written : longestParts.text = longestRequest.reference := by rfl
  have succeeds := (result_of_reference written).mpr acceptable
  have name : Image.name longestRequest.reference = "localhost:5000/app".toList := by
    rw [← written, Image.Reference.name_text]
    rfl
  obtain ⟨isTag, inj, lines⟩ := printed_references_accepted
  obtain ⟨labelTags, found, line⟩ := lines longestRequest succeeds
  have made : Image.artifactTag ("sha256:".toList ++ List.replicate 64 'a')
      longestRequest.tagSuffix = longestTag := by
    rfl
  have printed : longestTag ∈ longestRequest.printedTags labelTags := List.mem_cons_self
  obtain ⟨listedIff, accepted⟩ :=
    line longestTag ("localhost:5000/app:".toList ++ longestTag) (by rw [name]; rfl)
  have member := listedIff.mpr printed
  obtain ⟨sameName, plain, -⟩ := accepted member
  refine ⟨made ▸ isTag _ _ digestValid suffixValid, succeeds, member, sameName.trans name,
    plain, ?_⟩
  intro other suffix otherValid otherSuffix same
  have equal := inj _ other _ suffix digestValid otherValid suffixValid otherSuffix
    (made.trans same.symm)
  exact ⟨congrArg some equal.1, equal.2.symm⟩

end CommandLine
end BuildInputs

import Mathlib.Data.List.Permutation
import BuildInputs.Proofs.CommandLine.Printing
import BuildInputs.Proofs.Image.Parts
import BuildInputs.Proofs.Text.Utf8

namespace BuildInputs
namespace CommandLine

open Text

/-!
# Accepted references

A reference is accepted when it is a name, perhaps a tag and perhaps a digest, each well formed
by itself.  The check works the other way around.  It takes off what looks like a digest and a
tag, in digits of either case, calls the rest a name, and then checks the name and once more the
two ends, now with lower-case digits only.  Both come to the same because the ends that are taken
off a well-formed reference are its own, and because the ends that are taken off any text are
enough to write it out again.
-/

/-- The tags that the label of a request lists. -/
def ReferenceRequest.labelTags (request : ReferenceRequest) : Except InputError (List Text) :=
  match request.label with
  | none => .ok []
  | some (name, value) => Image.tagsFromLabel name value

/-- What a request says beside its reference is well formed.  The suffix matters only where a
digest is given. -/
structure ReferenceRequest.IsAcceptable (request : ReferenceRequest) : Prop where
  artifact : forall digest, request.digest = some digest ->
    Image.isDigest digest = true ∧ Image.isTagSuffix request.tagSuffix = true
  tags : forall tag, tag ∈ request.tags -> Image.isTag tag = true
  label : exists labelTags, request.labelTags = .ok labelTags

/-- What is printed about the Containerfile artifact, where a digest is given: its reference and
its type. -/
def ReferenceRequest.artifactLines (request : ReferenceRequest) (name : Text) : List Text :=
  match request.digest with
  | none => []
  | some digest =>
      [name ++ ':' :: Image.artifactTag digest request.tagSuffix, Settings.artifactType]

/-- All that is printed for a name. -/
def ReferenceRequest.lines (request : ReferenceRequest) (name : Text) (labelTags : List Text) :
    List Text :=
  [name] ++ request.artifactLines name ++
    (request.tags ++ labelTags).map fun tag => name ++ ':' :: tag

/-! ## The steps of the check -/

/-- The part of the work that is about the artifact. -/
def sayArtifact (request : ReferenceRequest) (name : Text) : Work Unit :=
  match request.digest with
  | none => pure ()
  | some digest => do
      require (Image.isDigest digest) (.badDigest digest)
      require (Image.isTagSuffix request.tagSuffix) (.badTagSuffix request.tagSuffix)
      sayAll (artifactLines name digest request.tagSuffix)

/-- The work as one row of steps. -/
theorem runImageRef_eq (request : ReferenceRequest) :
    runImageRef request =
      (do
        let name := Image.name request.reference
        require (Image.isName name) (.badName name)
        checkRest (request.reference.drop name.length)
        noteEvent (.referenceValid request.reference)
        tell "✓ イメージ参照は有効です".toList
        say name
        sayArtifact request name
        ofCheck (Image.checkTags request.tags)
        let labelTags ← ofCheck request.labelTags
        sayAll ((request.tags ++ labelTags).map fun tag => name ++ ':' :: tag)) := by
  obtain ⟨reference, digest, suffix, tags, label⟩ := request
  cases digest <;> cases label <;>
    simp only [runImageRef, sayArtifact, bind_assoc, pure_bind] <;> rfl

theorem prints_sayArtifact_bind {request : ReferenceRequest} {name output : Text}
    {next : Unit -> Work Unit} :
    Prints (sayArtifact request name >>= next) () output ↔
      (forall digest, request.digest = some digest ->
        Image.isDigest digest = true ∧ Image.isTagSuffix request.tagSuffix = true) ∧
      exists rest, Prints (next ()) () rest ∧
        output = spellLines (request.artifactLines name) ++ rest := by
  unfold sayArtifact ReferenceRequest.artifactLines
  cases request.digest with
  | none =>
      simp only [pure_bind, spellLines, List.flatMap_nil, List.nil_append, reduceCtorEq,
        false_implies, implies_true, true_and]
      exact ⟨fun printed => ⟨_, printed, rfl⟩, fun ⟨_, printed, same⟩ => same ▸ printed⟩
  | some digest =>
      simp only [bind_assoc, prints_require_bind, prints_sayAll_bind, artifactLines,
        Option.some.injEq, forall_eq', and_assoc]

/-- The second check of the ends, which knows only the text that follows the name.  A tag was
good when it was taken off, so only the digest can fail. -/
theorem checkRest_ends {tag : Option Text} (tagValid : tag.all Image.isTag = true)
    (digest : Option Text) :
    checkRest (marked ':' tag ++ marked '@' digest) =
      match digest with
      | none => pure ()
      | some digest => require (Image.isDigest digest) (.badDigest digest) := by
  have cut := cutFirst_append_marked (Image.at_not_mem_markedTag tagValid) digest
  unfold checkRest
  rw [cut]
  cases tag with
  | none => cases digest <;> rfl
  | some tag =>
      have isTag : Image.isTag tag = true := tagValid
      cases digest <;>
        simp only [Option.map_none, Option.map_some, marked, List.append_nil, isTag] <;> rfl

theorem prints_checkRest_bind {tag : Option Text} (tagValid : tag.all Image.isTag = true)
    {digest : Option Text} {next : Unit -> Work Unit} {output : Text} :
    Prints (checkRest (marked ':' tag ++ marked '@' digest) >>= next) () output ↔
      digest.all Image.isDigest = true ∧ Prints (next ()) () output := by
  rw [checkRest_ends tagValid]
  cases digest with
  | none => exact (and_iff_right rfl).symm
  | some digest => exact prints_require_bind

theorem spellLines_lines (request : ReferenceRequest) (name : Text) (labelTags : List Text) :
    spellLines (request.lines name labelTags) =
      spellLines [name] ++ (spellLines (request.artifactLines name) ++
        spellLines ((request.tags ++ labelTags).map fun tag => name ++ ':' :: tag)) := by
  rw [ReferenceRequest.lines, spellLines_append, spellLines_append, List.append_assoc]

/-- What the command prints, and when, in terms of the two ends that are taken off. -/
theorem prints_runImageRef {request : ReferenceRequest} {tag digest : Option Text}
    (tagValid : tag.all Image.isTag = true)
    (whole : request.reference =
      Image.name request.reference ++ (marked ':' tag ++ marked '@' digest)) (output : Text) :
    Prints (runImageRef request) () output ↔
      (exists reference : Image.Reference, reference.text = request.reference) ∧
      request.IsAcceptable ∧
      exists labelTags, request.labelTags = .ok labelTags ∧
        output = spellLines (request.lines (Image.name request.reference) labelTags) := by
  have ends : request.reference.drop (Image.name request.reference).length =
      marked ':' tag ++ marked '@' digest :=
    (congrArg (List.drop _) whole).trans List.drop_left
  rw [runImageRef_eq, Image.exists_text_eq_iff tagValid whole]
  dsimp only
  rw [ends]
  simp only [prints_require_bind, prints_checkRest_bind tagValid, prints_noteEvent_bind,
    prints_tell_bind, prints_say_bind, prints_sayArtifact_bind, prints_ofCheck_bind, prints_sayAll,
    Image.checkTags_eq_ok_iff, spellLines_lines]
  constructor
  · rintro ⟨nameValid, digestValid, _, ⟨artifact, _, ⟨_, tags, labelTags, listed, rfl⟩, rfl⟩, rfl⟩
    exact ⟨⟨nameValid, digestValid⟩, ⟨artifact, tags, labelTags, listed⟩, labelTags, listed, rfl⟩
  · rintro ⟨⟨nameValid, digestValid⟩, acceptable, labelTags, listed, rfl⟩
    exact ⟨nameValid, digestValid, _, ⟨acceptable.artifact, _,
      ⟨(), acceptable.tags, labelTags, listed, rfl⟩, rfl⟩, rfl⟩

/-! ## The grammar -/

/-- The name ends between two characters, so that the rest can be cut off at its number of
bytes. -/
theorem isBoundary_name (reference : Text) :
    Utf8.IsBoundary reference (Utf8.size (Image.name reference)) ∧
      (Utf8.encode reference).drop (Utf8.size (Image.name reference)) =
        Utf8.encode (reference.drop (Image.name reference).length) := by
  obtain ⟨tag, digest, -, -, whole⟩ := Image.exists_ends reference
  generalize Image.name reference = name at whole ⊢
  subst whole
  rw [Utf8.drop_encode_append, List.drop_left]
  exact ⟨Utf8.isBoundary_append _ _, rfl⟩

/-- The command accepts exactly the well-formed references, with well-formed additions.  A
well-formed reference has one set of parts only, and they decide what is printed.  The last two
parts hold of every reference, accepted or not. -/
theorem runImageRef_ok_iff (request : ReferenceRequest) :
    ((runImageRef request).result = .ok () ↔
      (exists reference : Image.Reference, reference.text = request.reference) ∧
        request.IsAcceptable) ∧
    Function.Injective Image.Reference.text ∧
    ((runImageRef request).result = .ok () ->
      exists (reference : Image.Reference) (labelTags : List Text),
        reference.text = request.reference ∧ request.labelTags = .ok labelTags ∧
        outputOf (runImageRef request).notes =
          spellLines (request.lines reference.name labelTags)) ∧
    Utf8.IsBoundary request.reference (Utf8.size (Image.name request.reference)) ∧
    (Utf8.encode request.reference).drop (Utf8.size (Image.name request.reference)) =
      Utf8.encode (request.reference.drop (Image.name request.reference).length) := by
  obtain ⟨tag, digest, tagValid, -, whole⟩ := Image.exists_ends request.reference
  have prints := prints_runImageRef tagValid whole
  refine ⟨?_, Image.Reference.text_injective, ?_, isBoundary_name request.reference⟩
  · rw [result_eq_ok_iff]
    constructor
    · rintro ⟨output, printed⟩
      obtain ⟨wellFormed, acceptable, -⟩ := (prints output).mp printed
      exact ⟨wellFormed, acceptable⟩
    · rintro ⟨wellFormed, acceptable⟩
      obtain ⟨labelTags, listed⟩ := acceptable.label
      exact ⟨_, (prints _).mpr ⟨wellFormed, acceptable, labelTags, listed, rfl⟩⟩
  · intro succeeds
    obtain ⟨⟨reference, written⟩, -, labelTags, listed, printed⟩ := (prints _).mp ⟨succeeds, rfl⟩
    refine ⟨reference, labelTags, written, listed, ?_⟩
    rw [printed, ← written, Image.Reference.name_text]

/-- A request whose registry has a port, with a tag, a digest and tags of every kind. -/
def portRequest : ReferenceRequest where
  reference := "localhost:5000/app:v1@sha256:".toList ++ List.replicate 64 '0'
  digest := some ("sha256:".toList ++ List.replicate 64 'f')
  tags := ["v2".toList]
  label := some ("org/tags".toList, " latest,v3 ".toList)

theorem runImageRef_ok_port :
    (runImageRef portRequest).result = .ok () ∧
      outputOf (runImageRef portRequest).notes =
        spellLines
          ["localhost:5000/app".toList,
            "localhost:5000/app:sha256-".toList ++ List.replicate 64 'f' ++
              ".containerfile".toList,
            Settings.artifactType, "localhost:5000/app:v2".toList,
            "localhost:5000/app:latest".toList, "localhost:5000/app:v3".toList] := by
  have listed : portRequest.labelTags = .ok ["latest".toList, "v3".toList] := by cbv
  let parts : Image.Reference :=
    { name := "localhost:5000/app".toList
      tag := some "v1".toList
      digest := some ("sha256:".toList ++ List.replicate 64 '0')
      name_valid := by cbv
      tag_valid := by cbv
      digest_valid := by cbv }
  have written : parts.text = portRequest.reference := by rfl
  have acceptable : portRequest.IsAcceptable := by
    refine ⟨?_, ?_, _, listed⟩
    · intro digest given
      cases given
      exact ⟨by cbv, by cbv⟩
    · intro tag member
      cases List.mem_singleton.mp member
      cbv
  obtain ⟨accepts, unique, prints, -⟩ := runImageRef_ok_iff portRequest
  have succeeds := accepts.mpr ⟨⟨parts, written⟩, acceptable⟩
  obtain ⟨reference, labelTags, spelled, found, printed⟩ := prints succeeds
  cases unique (spelled.trans written.symm)
  cases listed.symm.trans found
  exact ⟨succeeds, printed⟩

end CommandLine
end BuildInputs

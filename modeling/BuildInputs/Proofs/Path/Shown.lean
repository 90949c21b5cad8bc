import BuildInputs.Proofs.Path.Course
import BuildInputs.Proofs.Text.Lossy

namespace BuildInputs
namespace Path

/-!
# Paths that are texts, and paths that are shown

A slash is one byte and one character, and no other character has that byte in it.  So a path can be
cut at its slashes before it is shown or afterwards, and a text before it is spelled or afterwards.
All that is read off the pieces of a path agrees with what is read off the pieces of the text.

What is shown for a path spells a path again.  This is the path itself if that was a text, and
otherwise another one that starts at the same place and has as many pieces.
-/

theorem display_ofText (text : Text) : (ofText text).display = text :=
  Utf8.decodeLossy_encode text

theorem ofText_append (front back : Text) : ofText (front ++ back) = ofText front ++ ofText back :=
  Utf8.encode_append front back

theorem ofText_injective : Function.Injective ofText :=
  Utf8.encode_injective

/-- A path is known by what is shown, unless a replacement is. -/
theorem eq_ofText_of_display {path : Path} {text : Text} (shown : path.display = text)
    (kept : Utf8.replacement ∉ text) : path = ofText text := by
  subst text
  exact (Utf8.encode_decodeLossy kept).symm

theorem display_append_slash (front rest : Path) :
    (front ++ slash :: rest).display = front.display ++ '/' :: rest.display :=
  Utf8.decodeLossy_append_ascii (by decide : '/'.toNat < 0x80) front rest

theorem slash_mem_display_iff {path : Path} : '/' ∈ path.display ↔ slash ∈ path :=
  Utf8.mem_decodeLossy_iff (by decide)

/-- An ASCII character is spelled exactly where it stands. -/
theorem mem_ofText_iff {letter : Char} (ascii : letter.toNat < 0x80) {text : Text} :
    UInt8.ofNat letter.toNat ∈ ofText text ↔ letter ∈ text := by
  rw [← Utf8.mem_decodeLossy_iff ascii, ofText, Utf8.decodeLossy_encode]

theorem slash_mem_ofText_iff {text : Text} : slash ∈ ofText text ↔ '/' ∈ text :=
  mem_ofText_iff (by decide : '/'.toNat < 0x80)

theorem fields_ofText (text : Text) :
    Text.fields slash (ofText text) = (Text.fields '/' text).map ofText :=
  Text.fields_spelled (fun front rest => ofText_append front ('/' :: rest))
    (fun _ => mt slash_mem_ofText_iff.mp) text

theorem joinWith_ofText {pieces : List Text} (nonempty : pieces ≠ []) :
    ofText (Text.joinWith '/' pieces) = Text.joinWith slash (pieces.map ofText) :=
  Text.joinWith_spelled (fun front rest => ofText_append front ('/' :: rest)) nonempty

theorem fields_display (path : Path) :
    Text.fields '/' path.display = (Text.fields slash path).map display :=
  Text.fields_spelled display_append_slash (fun _ => mt slash_mem_display_iff.mp) path

theorem isAbsolute_ofText (text : Text) :
    isAbsolute (ofText text) = decide (text.head? = some '/') := by
  cases text with
  | nil => rfl
  | cons letter text =>
      obtain ⟨first, others, bytes, -⟩ := Utf8.exists_encodeChar letter
      have spelled : ofText (letter :: text) = first :: (others ++ ofText text) := by
        rw [ofText, Utf8.encode, List.flatMap_cons, bytes, List.cons_append]
        rfl
      rw [isAbsolute, spelled, decide_eq_decide, List.head?_cons, List.head?_cons, Option.some_inj,
        Option.some_inj]
      constructor
      · rintro rfl
        have inside : slash ∈ ofText [letter] := by
          rw [ofText, Utf8.encode, List.flatMap_singleton, bytes]
          exact List.mem_cons_self
        exact (List.mem_singleton.mp (slash_mem_ofText_iff.mp inside)).symm
      · rintro rfl
        exact (List.cons.inj bytes).1.symm

/-- The pieces that count in a path are those of the text that spells it. -/
theorem countingPieces_ofText (text : Text) :
    countingPieces (ofText text) =
      ((Text.fields '/' text).filter fun piece => piece ≠ [] ∧ piece ≠ ['.']).map ofText := by
  have same : (counts ∘ ofText) = fun piece => decide (piece ≠ [] ∧ piece ≠ ['.']) := by
    funext piece
    have empty : ofText piece = [] ↔ piece = [] := ofText_injective.eq_iff (b := [])
    have current : ofText piece = [dot] ↔ piece = ['.'] := ofText_injective.eq_iff (b := ['.'])
    simp [counts, empty, current]
  rw [countingPieces, fields_ofText, List.filter_map, same]

/-! ## Paths that are texts -/

open Utf8 (IsText isText_iff isText_encode)

theorem isText_push {path addition : Path} (isText : IsText path) (alsoText : IsText addition) :
    IsText (push path addition) := by
  obtain ⟨front, rfl⟩ := isText_iff.mp isText
  obtain ⟨back, rfl⟩ := isText_iff.mp alsoText
  rw [push]
  split
  · exact alsoText
  split
  · rw [← Utf8.encode_append]
    exact isText_encode _
  · exact isText_iff.mpr ⟨front ++ '/' :: back, (ofText_append front ('/' :: back)).symm⟩

theorem isText_of_mem_fields {path piece : Path} (isText : IsText path)
    (among : piece ∈ Text.fields slash path) : IsText piece := by
  obtain ⟨text, rfl⟩ := isText_iff.mp isText
  have cut := fields_ofText text
  rw [ofText] at cut
  rw [cut, List.mem_map] at among
  obtain ⟨piece, -, rfl⟩ := among
  exact isText_encode piece

theorem isText_foldl_push {path : Path} {pieces : List Path} (isText : IsText path)
    (alsoTexts : forall piece, piece ∈ pieces -> IsText piece) :
    IsText (pieces.foldl push path) := by
  induction pieces generalizing path with
  | nil => exact isText
  | cons piece pieces ih =>
      rw [List.forall_mem_cons] at alsoTexts
      exact ih (isText_push isText alsoTexts.1) alsoTexts.2

/-- A path made of texts is cleaned to one. -/
theorem isText_ofComponents_course {path : Path} (isText : IsText path) :
    IsText (ofComponents (course path)) := by
  rw [ofComponents_course]
  refine isText_foldl_push ?_ fun piece member =>
    isText_of_mem_fields isText (List.mem_filter.mp member).1
  split <;> decide

/-! ## Paths that are shown -/

/-- The path that is spelled by what is shown for a path. -/
def shown (path : Path) : Path :=
  ofText path.display

theorem shown_ofText (text : Text) : (ofText text).shown = ofText text :=
  isText_encode text

theorem shown_append_slash (front rest : Path) :
    (front ++ slash :: rest).shown = front.shown ++ slash :: rest.shown := by
  rw [shown, display_append_slash, ofText_append]
  rfl

theorem fields_shown (path : Path) :
    Text.fields slash path.shown = (Text.fields slash path).map shown := by
  rw [shown, fields_ofText, fields_display, List.map_map]
  rfl

/-- A path is a text exactly if its pieces that count are. -/
theorem isText_iff_countingPieces {path : Path} :
    IsText path ↔ forall piece, piece ∈ countingPieces path -> IsText piece := by
  constructor
  · exact fun isText piece member => isText_of_mem_fields isText (List.mem_filter.mp member).1
  · intro texts
    have each : forall piece, piece ∈ Text.fields slash path -> shown piece = id piece := by
      intro piece among
      by_cases empty : piece = []
      · subst piece
        rfl
      by_cases current : piece = [dot]
      · subst piece
        rfl
      · refine texts piece (List.mem_filter.mpr ⟨among, ?_⟩)
        rw [counts, decide_eq_true empty, decide_eq_true current]
        rfl
    have same : path.shown = path := by
      rw [← Text.joinWith_fields slash path.shown, fields_shown, List.map_congr_left each,
        List.map_id, Text.joinWith_fields]
    exact same

theorem shown_eq_ofText_iff {path : Path} {text : Text} (kept : Utf8.replacement ∉ text) :
    path.shown = ofText text ↔ path = ofText text := by
  constructor
  · exact fun same => eq_ofText_of_display (ofText_injective same) kept
  · rintro rfl
    exact shown_ofText text

theorem shown_eq_nil_iff {path : Path} : path.shown = [] ↔ path = [] :=
  @shown_eq_ofText_iff path [] List.not_mem_nil

/-- No character that means something in a path comes or goes. -/
theorem isPlain_shown {name : Path} (plain : IsPlain name) : IsPlain name.shown where
  nonempty := mt shown_eq_nil_iff.mp plain.nonempty
  free := mt slash_mem_ofText_iff.mp (mt slash_mem_display_iff.mp plain.free)
  ne_current := mt (@shown_eq_ofText_iff name ['.'] (by decide)).mp plain.ne_current
  ne_parent := mt (@shown_eq_ofText_iff name ['.', '.'] (by decide)).mp plain.ne_parent

/-- A path is empty or ends in a slash exactly if its last piece is empty. -/
theorem closed_iff {path : Path} :
    (decide (path = []) || decide (path.getLast? = some slash)) = true ↔
      (Text.fields slash path).getLast? = some [] := by
  rw [Bool.or_eq_true, decide_eq_true_iff, decide_eq_true_iff]
  constructor
  · rintro (rfl | slash)
    · rfl
    · obtain ⟨front, rfl⟩ := List.getLast?_eq_some_iff.mp slash
      rw [Text.fields_append_separator front []]
      exact List.getLast?_concat
  · intro last
    obtain ⟨pieces, cut⟩ := List.getLast?_eq_some_iff.mp last
    have joined := Text.joinWith_fields slash path
    rw [cut] at joined
    by_cases alone : pieces = []
    · subst pieces
      exact .inl joined.symm
    · rw [Text.joinWith_append_singleton alone] at joined
      exact .inr (joined ▸ List.getLast?_concat)

/-- A text may be pushed before or after a path is shown. -/
theorem shown_push_ofText (path : Path) (text : Text) :
    (push path (ofText text)).shown = push path.shown (ofText text) := by
  have closed : (decide (path.shown = []) || decide (path.shown.getLast? = some slash)) =
      (decide (path = []) || decide (path.getLast? = some slash)) := by
    rw [Bool.eq_iff_iff, closed_iff, closed_iff, fields_shown, List.getLast?_map,
      Option.map_eq_some_iff]
    simp only [shown_eq_nil_iff, exists_eq_right]
  rw [push, push, closed]
  split
  · exact shown_ofText text
  split
  · next ends =>
      rw [Bool.or_eq_true, decide_eq_true_iff, decide_eq_true_iff] at ends
      rcases ends with rfl | slash
      · exact shown_ofText text
      · obtain ⟨front, rfl⟩ := List.getLast?_eq_some_iff.mp slash
        rw [List.append_assoc, List.singleton_append, shown_append_slash, shown_append_slash,
          shown_ofText, List.append_assoc]
        rfl
  · rw [shown_append_slash, shown_ofText]

end Path
end BuildInputs

import BuildInputs.Json.Writer
import BuildInputs.Proofs.Json.Tokens

namespace BuildInputs
namespace Json

/-!
# Strings that are written, and what they mean

Every text survives being written as a string and read again, whatever characters it has.  The
writer decides for each character alone whether to write it as it is, with a short escape or
with the number of its UTF-16 unit, and each of these spells one letter.

The letters of a string mean the text whose characters or UTF-16 units they are.  Only control
characters are written by number, and these are no surrogates, so that a written text is among the
strings that mean it.
-/

/-- How the reader finds a character spelled after it was written. -/
def spellLetter (letter : Char) : Letter :=
  if letter.toNat < 0x20 ∧ letter ∉ ['\x08', '\x0c', '\n', '\r', '\t'] then .unit letter.toNat
  else .plain letter

/-- How the reader finds a text spelled after it was written. -/
def spellText (text : Text) : List Letter :=
  text.map spellLetter

theorem isHexDigit_hexDigit : forall value, value < 16 -> IsHexDigit value (hexDigit value) := by
  decide

/-- A written character spells one letter. -/
theorem spellsLetter_writeLetter (letter : Char) :
    SpellsLetter (spellLetter letter) (writeLetter letter) := by
  rw [writeLetter.eq_def]
  split
  · exact .short (by decide)
  · exact .short (by decide)
  · exact .short (by decide)
  · exact .short (by decide)
  · exact .short (by decide)
  · exact .short (by decide)
  · exact .short (by decide)
  · next quote backslash backspace formFeed lineFeed carriageReturn tab =>
      split
      · next control =>
          have spelled : spellLetter letter = .unit letter.toNat := by
            rw [spellLetter, if_pos]
            refine ⟨control, ?_⟩
            simp only [List.mem_cons, List.not_mem_nil, or_false, not_or]
            exact ⟨backspace, formFeed, lineFeed, carriageReturn, tab⟩
          have digits : ((0 * 16 + 0) * 16 + letter.toNat / 16) * 16 + letter.toNat % 16 =
              letter.toNat := by
            omega
          have third : letter.toNat / 16 < 16 := by omega
          have fourth : letter.toNat % 16 < 16 := by omega
          have spells := @SpellsLetter.unit 0 0 _ _ '0' '0' _ _ (by decide) (by decide)
            (isHexDigit_hexDigit _ third) (isHexDigit_hexDigit _ fourth)
          rwa [digits, ← spelled] at spells
      · next printed =>
          have spelled : spellLetter letter = .plain letter :=
            if_neg fun control => printed control.1
          rw [spelled]
          exact .plain (Nat.not_lt.mp printed) quote backslash

/-- A written string spells the letters of the text. -/
theorem spellsLetters_write (text : Text) :
    SpellsLetters (spellText text) (text.flatMap writeLetter) := by
  induction text with
  | nil => exact .nil
  | cons letter text ih => exact .cons (spellsLetter_writeLetter letter) ih

/-! ## What the letters of a string mean -/

/-- The letters of a string mean a text.  A character is itself, or the UTF-16 unit or the two units
that it is in that encoding. -/
inductive Means : List Letter -> Text -> Prop
  | nil : Means [] []
  | plain {letter : Char} {letters : List Letter} {text : Text} (others : Means letters text) :
      Means (.plain letter :: letters) (letter :: text)
  | unit {letter : Char} {letters : List Letter} {text : Text} (small : letter.toNat < 0x10000)
      (others : Means letters text) : Means (.unit letter.toNat :: letters) (letter :: text)
  | pair {letter : Char} {letters : List Letter} {text : Text} (large : 0x10000 ≤ letter.toNat)
      (others : Means letters text) :
      Means (.unit (0xd800 + (letter.toNat - 0x10000) / 0x400) ::
        .unit (0xdc00 + (letter.toNat - 0x10000) % 0x400) :: letters) (letter :: text)

/-- No character has the number of half a surrogate pair. -/
theorem not_isSurrogate (letter : Char) :
    isHighSurrogate letter.toNat = false ∧ isLowSurrogate letter.toNat = false := by
  have valid : letter.toNat < 0xd800 ∨ 0xdfff < letter.toNat := letter.valid.imp_right And.left
  simp only [isHighSurrogate, isLowSurrogate, Bool.and_eq_false_iff, decide_eq_false_iff_not]
  omega

theorem decodeLetters_unit (letter : Char) (letters : List Letter) :
    decodeLetters (.unit letter.toNat :: letters) = (decodeLetters letters).map (letter :: ·) := by
  obtain ⟨high, low⟩ := not_isSurrogate letter
  rw [decodeLetters.eq_def]
  dsimp only
  rw [high, low, if_neg Bool.false_ne_true, if_neg Bool.false_ne_true, Char.ofNat_toNat]

/-- Two halves of a surrogate pair are one character. -/
theorem decodeLetters_pair {high low : Nat} (isHigh : isHighSurrogate high = true)
    (isLow : isLowSurrogate low = true) (letters : List Letter) :
    decodeLetters (.unit high :: .unit low :: letters) = (decodeLetters letters).map
      (Char.ofNat (0x10000 + (high - 0xd800) * 0x400 + (low - 0xdc00)) :: ·) := by
  simp only [decodeLetters, isHigh, isLow, if_true]

/-- A string is decoded as what it means. -/
theorem decodeLetters_of_means {letters : List Letter} {text : Text} (means : Means letters text) :
    decodeLetters letters = some text := by
  induction means with
  | nil => rfl
  | plain _ ih => rw [decodeLetters, ih, Option.map_some]
  | unit _ _ ih => rw [decodeLetters_unit, ih, Option.map_some]
  | @pair letter letters text large _ ih =>
      have greatest : letter.toNat < 0x110000 := by
        rcases letter.valid with small | ⟨-, small⟩
        · exact Nat.lt_trans small (by decide)
        · exact small
      have isHigh : isHighSurrogate (0xd800 + (letter.toNat - 0x10000) / 0x400) = true := by
        simp only [isHighSurrogate, Bool.and_eq_true, decide_eq_true_eq]
        omega
      have isLow : isLowSurrogate (0xdc00 + (letter.toNat - 0x10000) % 0x400) = true := by
        simp only [isLowSurrogate, Bool.and_eq_true, decide_eq_true_eq]
        omega
      have whole : 0x10000 + (0xd800 + (letter.toNat - 0x10000) / 0x400 - 0xd800) * 0x400 +
          (0xdc00 + (letter.toNat - 0x10000) % 0x400 - 0xdc00) = letter.toNat := by
        omega
      rw [decodeLetters_pair isHigh isLow, whole, Char.ofNat_toNat, ih, Option.map_some]

theorem means_spellText (text : Text) : Means (spellText text) text := by
  induction text with
  | nil => exact .nil
  | cons letter text ih =>
      rw [spellText, List.map_cons, spellLetter, ← spellText]
      split
      · next control => exact .unit (Nat.lt_trans control.1 (by decide)) ih
      · exact .plain ih

/-- The spelling of a text stands for the text. -/
theorem decodeLetters_spellText (text : Text) : decodeLetters (spellText text) = some text :=
  decodeLetters_of_means (means_spellText text)

end Json
end BuildInputs

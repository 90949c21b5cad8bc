import BuildInputs.Proofs.Report
import BuildInputs.Proofs.Text.Utf8

namespace BuildInputs
namespace Utf8

/-!
# Only the bytes of texts are read

Decoding refuses every sequence of bytes that encoding does not write: forms that are longer than
needed, surrogates and codes that are too large are excluded by the bounds on the second byte.  The
bytes that are read as one character are therefore the bytes of that character, and by going from
left to right, the bytes that are read as a text are the bytes of that text.
-/

/-! ## The bounds on bytes -/

theorem between_iff {low byte high : UInt8} :
    (decide (low ≤ byte) && decide (byte ≤ high)) = true ↔
      low.toNat ≤ byte.toNat ∧ byte.toNat ≤ high.toNat := by
  rw [Bool.and_eq_true, decide_eq_true_eq, decide_eq_true_eq, UInt8.le_iff_toNat_le,
    UInt8.le_iff_toNat_le]

theorem isContinuation_iff {byte : UInt8} :
    isContinuation byte = true ↔ 0x80 ≤ byte.toNat ∧ byte.toNat ≤ 0xbf :=
  between_iff

/-- The bounds of a second byte, by the first. -/
theorem bounds_of_mayFollow {first second : UInt8} (follows : mayFollow first second = true) :
    0x80 ≤ second.toNat ∧ second.toNat ≤ 0xbf ∧
      (first.toNat = 0xe0 -> 0xa0 ≤ second.toNat) ∧ (first.toNat = 0xed -> second.toNat ≤ 0x9f) ∧
      (first.toNat = 0xf0 -> 0x90 ≤ second.toNat) ∧ (first.toNat = 0xf4 -> second.toNat ≤ 0x8f) := by
  simp only [mayFollow, ← UInt8.toNat_inj, UInt8.reduceToNat] at follows
  split at follows
  · obtain ⟨low, high⟩ : 0xa0 ≤ second.toNat ∧ second.toNat ≤ 0xbf := between_iff.mp follows
    omega
  split at follows
  · obtain ⟨low, high⟩ : 0x80 ≤ second.toNat ∧ second.toNat ≤ 0x9f := between_iff.mp follows
    omega
  split at follows
  · obtain ⟨low, high⟩ : 0x90 ≤ second.toNat ∧ second.toNat ≤ 0xbf := between_iff.mp follows
    omega
  split at follows
  · obtain ⟨low, high⟩ : 0x80 ≤ second.toNat ∧ second.toNat ≤ 0x8f := between_iff.mp follows
    omega
  · obtain ⟨low, high⟩ := isContinuation_iff.mp follows
    omega

/-! ## The bytes of one character -/

/-- A code that is no surrogate and not above U+10FFFF is that of its character. -/
theorem toNat_charOfNat {code : Nat}
    (valid : code < 0xd800 ∨ 0xdfff < code ∧ code < 0x110000) : (Char.ofNat code).toNat = code := by
  rw [Char.ofNat, dif_pos valid]
  rfl

theorem ofNat_eq {number : Nat} (byte : UInt8) (same : number = byte.toNat) :
    UInt8.ofNat number = byte := by
  rw [same, UInt8.ofNat_toNat]

theorem encodeChar_one {first : UInt8} (ascii : first.toNat < 0x80) :
    encodeChar (Char.ofNat first.toNat) = [first] := by
  rw [encodeChar, toNat_charOfNat (by omega), if_pos ascii, UInt8.ofNat_toNat]

theorem encodeChar_two {first second : UInt8} (low : 0xc2 ≤ first.toNat) (high : first.toNat ≤ 0xdf)
    (continues : isContinuation second = true) :
    encodeChar (Char.ofNat (first.toNat % 0x20 * 0x40 + payload second)) = [first, second] := by
  obtain ⟨secondLow, secondHigh⟩ := isContinuation_iff.mp continues
  rw [payload, encodeChar, toNat_charOfNat (by omega), if_neg (by omega), if_pos (by omega),
    ofNat_eq first (by omega), ofNat_eq second (by omega)]

theorem encodeChar_three {first second third : UInt8} (low : 0xe0 ≤ first.toNat)
    (high : first.toNat ≤ 0xef) (follows : mayFollow first second = true)
    (continues : isContinuation third = true) :
    encodeChar (Char.ofNat (first.toNat % 0x10 * 0x1000 + payload second * 0x40 + payload third)) =
      [first, second, third] := by
  obtain ⟨secondLow, secondHigh, shortest, noSurrogate, -, -⟩ := bounds_of_mayFollow follows
  obtain ⟨thirdLow, thirdHigh⟩ := isContinuation_iff.mp continues
  rw [payload, payload, encodeChar, toNat_charOfNat (by omega), if_neg (by omega),
    if_neg (by omega), if_pos (by omega), ofNat_eq first (by omega), ofNat_eq second (by omega),
    ofNat_eq third (by omega)]

theorem encodeChar_four {first second third fourth : UInt8} (low : 0xf0 ≤ first.toNat)
    (high : first.toNat ≤ 0xf4) (follows : mayFollow first second = true)
    (continues : isContinuation third = true) (ends : isContinuation fourth = true) :
    encodeChar (Char.ofNat (first.toNat % 8 * 0x40000 + payload second * 0x1000 +
      payload third * 0x40 + payload fourth)) = [first, second, third, fourth] := by
  obtain ⟨secondLow, secondHigh, -, -, shortest, inRange⟩ := bounds_of_mayFollow follows
  obtain ⟨thirdLow, thirdHigh⟩ := isContinuation_iff.mp continues
  obtain ⟨fourthLow, fourthHigh⟩ := isContinuation_iff.mp ends
  rw [payload, payload, payload, encodeChar, toNat_charOfNat (by omega), if_neg (by omega),
    if_neg (by omega), if_neg (by omega), ofNat_eq first (by omega), ofNat_eq second (by omega),
    ofNat_eq third (by omega), ofNat_eq fourth (by omega)]

/-- The bytes that are read as a character are the bytes of this character. -/
theorem encodeChar_of_front {first : UInt8} {rest : List UInt8} {letter : Char} {length : Nat}
    (read : front first rest = .letter letter length) :
    exists others tail, rest = others ++ tail ∧ length = others.length + 1 ∧
      encodeChar letter = first :: others := by
  rw [front.eq_def] at read
  simp only [UInt8.lt_iff_toNat_lt, UInt8.le_iff_toNat_le, Bool.and_eq_true, decide_eq_true_eq,
    UInt8.reduceToNat] at read
  -- One case for each range of the first byte.  Inside it too few bytes are refused first, and then
  -- bytes that do not belong together.
  split at read
  · next ascii =>
      cases read
      exact ⟨[], rest, rfl, rfl, encodeChar_one ascii⟩
  split at read
  · next two =>
      split at read
      · cases read
      split at read
      · next second tail continues =>
          cases read
          exact ⟨[second], tail, rfl, rfl, encodeChar_two two.1 two.2 continues⟩
      · cases read
  split at read
  · next three =>
      split at read
      · cases read
      split at read
      · next second _ follows =>
          split at read
          · cases read
          split at read
          · next third tail continues =>
              cases read
              exact ⟨[second, third], tail, rfl, rfl,
                encodeChar_three three.1 three.2 follows continues⟩
          · cases read
      · cases read
  split at read
  · next four =>
      split at read
      · cases read
      split at read
      · next second _ follows =>
          split at read
          · cases read
          split at read
          · next third _ continues =>
              split at read
              · cases read
              split at read
              · next fourth tail ends =>
                  cases read
                  exact ⟨[second, third, fourth], tail, rfl, rfl,
                    encodeChar_four four.1 four.2 follows continues ends⟩
              · cases read
          · cases read
      · cases read
  · cases read

/-! ## The bytes of a text -/

theorem encode_of_decodeFrom {position : Nat} {bytes : List UInt8} {text : Text}
    (decoded : decodeFrom position 0 bytes = .ok text) : encode text = bytes := by
  cases bytes with
  | nil =>
      cases decoded
      rfl
  | cons first rest =>
      rw [decodeFrom] at decoded
      split at decoded
      · next letter length read =>
          obtain ⟨text, decodedTail, rfl⟩ := Report.map_eq_ok_iff.mp decoded
          obtain ⟨others, tail, rfl, rfl, isLetter⟩ := encodeChar_of_front read
          have shorter : tail.length < (first :: (others ++ tail)).length := by
            rw [List.length_cons, List.length_append]
            omega
          rw [Nat.add_sub_cancel, decodeFrom_skip] at decodedTail
          rw [encode, List.flatMap_cons, ← encode, encode_of_decodeFrom decodedTail, isLetter,
            List.cons_append]
      · cases decoded
      · cases decoded
termination_by bytes.length

/-- Exactly the bytes of a text are read as this text. -/
theorem decode_eq_ok_iff {bytes : List UInt8} {text : Text} :
    decode bytes = .ok text ↔ bytes = encode text := by
  constructor
  · exact fun decoded => (encode_of_decodeFrom decoded).symm
  · rintro rfl
    exact decode_encode text

end Utf8
end BuildInputs

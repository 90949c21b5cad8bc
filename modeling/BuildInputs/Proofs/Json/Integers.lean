import BuildInputs.Json.Writer
import BuildInputs.Proofs.Json.Tokens

namespace BuildInputs
namespace Json

/-!
# Integers that are written and read

The digits of a number have no leading zero, so a written integer spells a number that the strict
grammar allows.
-/

/-- How the reader finds an integer spelled after it was written. -/
def spellInteger (value : Int) : NumberSpelling :=
  ⟨value < 0, Text.ofNat value.natAbs, none, none⟩

theorem isDigit_of_mem_ofNat {number : Nat} {letter : Char}
    (member : letter ∈ Text.ofNat number) : Text.isDigit letter = true := by
  have digit : letter.isDigit = true :=
    Nat.isDigit_of_mem_toDigits (by decide) (by decide) member
  rw [Char.isDigit, Bool.and_eq_true, decide_eq_true_iff, decide_eq_true_iff] at digit
  rw [Text.isDigit, Bool.and_eq_true, decide_eq_true_iff, decide_eq_true_iff]
  exact digit

theorem ofNat_ne_nil (number : Nat) : Text.ofNat number ≠ [] :=
  Nat.toDigits_ne_nil

/-- Only zero begins with a zero. -/
theorem head?_ofNat {number : Nat} (positive : 0 < number) :
    (Text.ofNat number).head? ≠ some '0' := by
  induction number using Nat.strongRecOn with
  | ind number ih =>
      rw [Text.ofNat]
      by_cases small : number < 10
      · rw [Nat.toDigits_of_lt_base small, List.head?_cons]
        intro zero
        have none : forall digit, digit < 10 -> 0 < digit -> digit.digitChar ≠ '0' := by decide
        exact none number small positive (Option.some.inj zero)
      · have large : 10 ≤ number := Nat.le_of_not_lt small
        have front : (Text.ofNat (number / 10)).head? ≠ some '0' :=
          ih (number / 10) (by omega) (by omega)
        rw [Nat.toDigits_of_base_le (by decide) large]
        cases spelled : Text.ofNat (number / 10) with
        | nil => exact absurd spelled (ofNat_ne_nil _)
        | cons letter others =>
            rw [spelled] at front
            rw [Text.ofNat] at spelled
            rw [spelled]
            exact front

/-- The digits of a number are written without leading zeros. -/
theorem isWhole_ofNat (number : Nat) : IsWhole (Text.ofNat number) := by
  refine ⟨⟨ofNat_ne_nil number, fun _ member => isDigit_of_mem_ofNat member⟩, ?_⟩
  intro zero
  rcases Nat.eq_zero_or_pos number with rfl | positive
  · rfl
  · exact absurd zero (head?_ofNat positive)

/-- A written integer spells the integer. -/
theorem spellsNumber_writeInteger (value : Int) :
    SpellsNumber (spellInteger value) (writeInteger value) := by
  have spells := @SpellsNumber.intro (decide (value < 0)) _ _ _ _ _ (isWhole_ofNat value.natAbs)
    .missing .missing
  rw [List.nil_append, List.append_nil, signText] at spells
  rw [writeInteger]
  by_cases negative : value < 0
  · rw [if_pos negative]
    rwa [if_pos (decide_eq_true negative)] at spells
  · rw [if_neg negative]
    rwa [if_neg (Bool.not_eq_true _ ▸ decide_eq_false negative)] at spells

end Json
end BuildInputs

import BuildInputs.Proofs.Text.Utf8Decoding

namespace BuildInputs
namespace Utf8

/-!
# Bytes that are shown as a text

The bytes of a text are shown as this text.  Other bytes are shown with a replacement character
somewhere, and nothing tells afterwards what stood there.  So what is shown spells the bytes
again exactly if they were a text.

A byte that does not continue a character ends whatever stands in front of it, be it complete or
not.  Bytes can therefore be cut in front of such a byte and shown one part after the other.
Every ASCII character is such a byte, and so it is seen wherever it stands.
-/

/-! ## What stands at the front -/

/-- What stands in front of a byte that does not continue it, if it has `length` bytes. -/
def Front.ended (length : Nat) : Front -> Front
  | .unfinished => .malformed length
  | found => found

section

variable {first byte : UInt8} {others rest : List UInt8} {letter : Char} {length : Nat}

theorem not_mayFollow (first : UInt8) (begins : isContinuation byte = false) :
    mayFollow first byte = false := by
  rw [Bool.eq_false_iff] at begins ⊢
  intro follows
  rcases bounds_of_mayFollow follows with ⟨low, high, -⟩
  exact begins (isContinuation_iff.mpr ⟨low, high⟩)

/-- Behind what stands at the front no more is looked at than the byte that ends it. -/
theorem front_append (begins : isContinuation byte = false) :
    front first (others ++ byte :: rest) = (front first others).ended (others.length + 1) := by
  have refused := not_mayFollow first begins
  unfold front
  by_cases one : first < 0x80
  · rw [if_pos one, if_pos one]
    rfl
  rw [if_neg one, if_neg one]
  -- One case for each range of the first byte and each number of bytes that `others` gives.
  by_cases two : (decide (0xc2 ≤ first) && decide (first ≤ 0xdf)) = true
  · rw [if_pos two, if_pos two]
    cases others with
    | nil =>
        simp only [List.nil_append, begins]
        rfl
    | cons second others =>
        simp only [List.cons_append]
        split <;> rfl
  rw [if_neg two, if_neg two]
  by_cases three : (decide (0xe0 ≤ first) && decide (first ≤ 0xef)) = true
  · rw [if_pos three, if_pos three]
    rcases others with _ | ⟨second, _ | ⟨third, others⟩⟩
    · simp only [List.nil_append, refused]
      rfl
    · simp only [List.cons_append, List.nil_append, begins]
      split <;> rfl
    · simp only [List.cons_append]
      repeat' split
      all_goals rfl
  rw [if_neg three, if_neg three]
  by_cases four : (decide (0xf0 ≤ first) && decide (first ≤ 0xf4)) = true
  · rw [if_pos four, if_pos four]
    rcases others with _ | ⟨second, _ | ⟨third, _ | ⟨fourth, others⟩⟩⟩
    · simp only [List.nil_append, refused]
      rfl
    · simp only [List.cons_append, List.nil_append, begins]
      split <;> rfl
    · simp only [List.cons_append, List.nil_append, begins, Bool.false_eq_true, if_false]
      repeat' split
      all_goals rfl
    · simp only [List.cons_append]
      repeat' split
      all_goals rfl
  · rw [if_neg four, if_neg four]
    rfl

/-- Bytes that are refused are there. -/
theorem length_of_malformed (read : front first others = .malformed length) :
    length - 1 ≤ others.length := by
  rw [front.eq_def] at read
  repeat' split at read
  all_goals cases read
  all_goals simp

/-! ## One step of showing -/

theorem decodeLossyFrom_eq (skip : Nat) (bytes : List UInt8) :
    decodeLossyFrom skip bytes = decodeLossy (bytes.drop skip) := by
  induction bytes generalizing skip with
  | nil =>
      rw [List.drop_nil, decodeLossyFrom]
      rfl
  | cons byte bytes ih =>
      cases skip with
      | zero => rfl
      | succ skip => rw [decodeLossyFrom, ih, List.drop_succ_cons]

theorem decodeLossy_of_letter (read : front first rest = .letter letter length) :
    decodeLossy (first :: rest) = letter :: decodeLossy (rest.drop (length - 1)) := by
  rw [← decodeLossyFrom_eq, decodeLossy, decodeLossyFrom, read]

theorem decodeLossy_of_malformed (read : front first rest = .malformed length) :
    decodeLossy (first :: rest) = replacement :: decodeLossy (rest.drop (length - 1)) := by
  rw [← decodeLossyFrom_eq, decodeLossy, decodeLossyFrom, read]

theorem decodeLossy_of_unfinished (read : front first rest = .unfinished) :
    decodeLossy (first :: rest) = [replacement] := by
  rw [decodeLossy, decodeLossyFrom, read]

end

/-- Induction along what stands at the front: a character, bytes that are refused, or a character
that is cut off by the end. -/
@[elab_as_elim] theorem frontInduction {motive : List UInt8 -> Prop} (nil : motive [])
    (letter : forall letter tail, motive tail -> motive (encodeChar letter ++ tail))
    (malformed : forall first rest length, front first rest = .malformed length ->
      motive (rest.drop (length - 1)) -> motive (first :: rest))
    (unfinished : forall first rest, front first rest = .unfinished -> motive (first :: rest))
    (bytes : List UInt8) : motive bytes := by
  cases bytes with
  | nil => exact nil
  | cons first rest =>
      cases read : front first rest with
      | letter head length =>
          rcases encodeChar_of_front read with ⟨others, tail, rfl, -, bytes⟩
          have shorter : tail.length < (first :: (others ++ tail)).length := by
            rw [List.length_cons, List.length_append]
            omega
          rw [← List.cons_append, ← bytes]
          exact letter head tail (frontInduction nil letter malformed unfinished tail)
      | malformed length =>
          have shorter : (rest.drop (length - 1)).length < (first :: rest).length := by
            rw [List.length_drop, List.length_cons]
            omega
          exact malformed first rest length read
            (frontInduction nil letter malformed unfinished _)
      | unfinished => exact unfinished first rest read
termination_by bytes.length

/-! ## Texts -/

theorem decodeLossy_encodeChar_append (letter : Char) (rest : List UInt8) :
    decodeLossy (encodeChar letter ++ rest) = letter :: decodeLossy rest := by
  rcases exists_encodeChar letter with ⟨first, others, bytes, -⟩
  rw [bytes, List.cons_append, decodeLossy_of_letter (front_encodeChar bytes _),
    Nat.add_sub_cancel, List.drop_left]

theorem decodeLossy_encode (text : Text) : decodeLossy (encode text) = text := by
  induction text with
  | nil => rfl
  | cons letter text ih =>
      rw [encode, List.flatMap_cons, ← encode, decodeLossy_encodeChar_append, ih]

/-- Bytes that are shown without a replacement are those of a text. -/
theorem encode_decodeLossy {bytes : List UInt8} (kept : replacement ∉ decodeLossy bytes) :
    encode (decodeLossy bytes) = bytes := by
  induction bytes using frontInduction with
  | nil => rfl
  | letter letter tail ih =>
      rw [decodeLossy_encodeChar_append] at kept ⊢
      rw [encode, List.flatMap_cons, ← encode,
        ih fun member => kept (List.mem_cons_of_mem _ member)]
  | malformed first rest length read _ =>
      rw [decodeLossy_of_malformed read] at kept
      exact absurd List.mem_cons_self kept
  | unfinished first rest read =>
      rw [decodeLossy_of_unfinished read] at kept
      exact absurd List.mem_cons_self kept

/-- Bytes that what is shown for them spells again. -/
def IsText (bytes : List UInt8) : Prop :=
  encode (decodeLossy bytes) = bytes

instance (bytes : List UInt8) : Decidable (IsText bytes) :=
  inferInstanceAs (Decidable (_ = _))

theorem isText_encode (text : Text) : IsText (encode text) := by
  rw [IsText, decodeLossy_encode]

theorem isText_iff {bytes : List UInt8} : IsText bytes ↔ exists text, bytes = encode text := by
  constructor
  · exact fun isText => ⟨_, isText.symm⟩
  · rintro ⟨text, rfl⟩
    exact isText_encode text

/-- Exactly the texts are decoded without a refusal. -/
theorem decode_eq_ok_iff_isText {bytes : List UInt8} {text : Text} :
    decode bytes = .ok text ↔ IsText bytes ∧ text = decodeLossy bytes := by
  rw [decode_eq_ok_iff]
  constructor
  · rintro rfl
    exact ⟨isText_encode text, (decodeLossy_encode text).symm⟩
  · rintro ⟨isText, rfl⟩
    exact isText.symm

/-! ## Parts -/

/-- In front of a byte that does not continue a character the bytes may be cut. -/
theorem decodeLossy_append {byte : UInt8} (begins : isContinuation byte = false)
    (bytes rest : List UInt8) :
    decodeLossy (bytes ++ byte :: rest) = decodeLossy bytes ++ decodeLossy (byte :: rest) := by
  induction bytes using frontInduction with
  | nil => rfl
  | letter letter tail ih =>
      rw [List.append_assoc, decodeLossy_encodeChar_append, decodeLossy_encodeChar_append, ih,
        List.cons_append]
  | malformed first others length read ih =>
      have whole : front first (others ++ byte :: rest) = .malformed length := by
        rw [front_append begins, read]
        rfl
      rw [List.cons_append, decodeLossy_of_malformed whole, decodeLossy_of_malformed read,
        List.drop_append_of_le_length (length_of_malformed read), ih, List.cons_append]
  | unfinished first others read =>
      have whole : front first (others ++ byte :: rest) = .malformed (others.length + 1) := by
        rw [front_append begins, read]
        rfl
      rw [List.cons_append, decodeLossy_of_malformed whole, decodeLossy_of_unfinished read,
        Nat.add_sub_cancel, List.drop_left, List.singleton_append]

theorem encodeChar_of_ascii {letter : Char} (ascii : letter.toNat < 0x80) :
    encodeChar letter = [UInt8.ofNat letter.toNat] :=
  if_pos ascii

theorem decodeLossy_append_ascii {letter : Char} (ascii : letter.toNat < 0x80)
    (bytes rest : List UInt8) :
    decodeLossy (bytes ++ UInt8.ofNat letter.toNat :: rest) =
      decodeLossy bytes ++ letter :: decodeLossy rest := by
  have begins := not_isContinuation_of_small ascii
  rw [decodeLossy_append begins, ← List.singleton_append, ← encodeChar_of_ascii ascii,
    decodeLossy_encodeChar_append]

/-- An ASCII character is shown exactly where it stands. -/
theorem mem_decodeLossy_iff {letter : Char} (ascii : letter.toNat < 0x80) {bytes : List UInt8} :
    letter ∈ decodeLossy bytes ↔ UInt8.ofNat letter.toNat ∈ bytes := by
  have other : letter ≠ replacement := by
    rintro rfl
    exact absurd ascii (by decide)
  constructor
  · intro shown
    induction bytes using frontInduction with
    | nil => cases shown
    | letter head tail ih =>
        rw [decodeLossy_encodeChar_append] at shown
        rcases List.mem_cons.mp shown with rfl | later
        · rw [encodeChar_of_ascii ascii]
          exact List.mem_cons_self
        · exact List.mem_append_right _ (ih later)
    | malformed first rest length read ih =>
        rw [decodeLossy_of_malformed read] at shown
        rcases List.mem_cons.mp shown with same | later
        · exact absurd same other
        · exact List.mem_cons_of_mem _ (List.mem_of_mem_drop (ih later))
    | unfinished first rest read =>
        rw [decodeLossy_of_unfinished read, List.mem_singleton] at shown
        exact absurd shown other
  · intro member
    rcases List.append_of_mem member with ⟨front, back, rfl⟩
    rw [decodeLossy_append_ascii ascii]
    exact List.mem_append_right _ List.mem_cons_self

end Utf8
end BuildInputs

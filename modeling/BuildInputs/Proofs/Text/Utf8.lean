import BuildInputs.Text.Utf8

namespace BuildInputs
namespace Utf8

/-!
# Bytes and texts

Decoding takes back what encoding does.  The bytes of one character are recognized whatever
bytes follow, and they stand for that character again, so a text is recovered from the left, one
character at a time.  In particular different texts have different bytes.  No character begins with a byte that
continues one, so the bytes of the beginning of a text end on a boundary.
-/

/-! ## Bytes as numbers -/

theorem toNat_ofNat {number : Nat} (small : number < 0x100) :
    (UInt8.ofNat number).toNat = number := by
  rw [UInt8.toNat_ofNat']
  exact Nat.mod_eq_of_lt small

theorem ofNat_inj_iff {first second : Nat} (firstSmall : first < 0x100)
    (secondSmall : second < 0x100) : UInt8.ofNat first = UInt8.ofNat second ↔ first = second := by
  rw [← UInt8.toNat_inj, toNat_ofNat firstSmall, toNat_ofNat secondSmall]

theorem ofNat_le_iff {first second : Nat} (firstSmall : first < 0x100)
    (secondSmall : second < 0x100) : UInt8.ofNat first ≤ UInt8.ofNat second ↔ first ≤ second := by
  rw [UInt8.le_iff_toNat_le, toNat_ofNat firstSmall, toNat_ofNat secondSmall]

theorem ofNat_lt_iff {first : Nat} (second : Nat) (firstSmall : first < 0x100)
    (secondSmall : second < 0x100) : UInt8.ofNat first < UInt8.ofNat second ↔ first < second := by
  rw [UInt8.lt_iff_toNat_lt, toNat_ofNat firstSmall, toNat_ofNat secondSmall]

theorem between_ofNat (low high : Nat) {number : Nat} (above : low ≤ number) (below : number ≤ high)
    (small : high < 0x100) :
    (decide (UInt8.ofNat low ≤ UInt8.ofNat number) &&
      decide (UInt8.ofNat number ≤ UInt8.ofNat high)) = true := by
  rw [Bool.and_eq_true_iff, decide_eq_true_eq, decide_eq_true_eq,
    ofNat_le_iff (by omega) (by omega), ofNat_le_iff (by omega) small]
  exact ⟨above, below⟩

/-! ## The bytes of one character -/

theorem payload_ofNat {number : Nat} (small : number < 0x40) :
    payload (UInt8.ofNat (0x80 + number)) = number := by
  rw [payload, toNat_ofNat (by omega)]
  omega

theorem isContinuation_ofNat {number : Nat} (small : number < 0x40) :
    isContinuation (UInt8.ofNat (0x80 + number)) = true :=
  between_ofNat 0x80 0xbf (by omega) (by omega) (by decide)

/-- A first byte and a second one that belong together. -/
theorem mayFollow_ofNat {first second : Nat} (firstSmall : first < 0x100)
    (secondSmall : second < 0x40) (shortest : first = 0xe0 -> 0x20 ≤ second)
    (noSurrogate : first = 0xed -> second < 0x20) (shortestOfFour : first = 0xf0 -> 0x10 ≤ second)
    (inRange : first = 0xf4 -> second < 0x10) :
    mayFollow (UInt8.ofNat first) (UInt8.ofNat (0x80 + second)) = true := by
  rw [mayFollow]
  split
  · next same =>
      have bound := shortest ((ofNat_inj_iff firstSmall (by decide)).mp same)
      exact between_ofNat 0xa0 0xbf (by omega) (by omega) (by decide)
  split
  · next same =>
      have bound := noSurrogate ((ofNat_inj_iff firstSmall (by decide)).mp same)
      exact between_ofNat 0x80 0x9f (by omega) (by omega) (by decide)
  split
  · next same =>
      have bound := shortestOfFour ((ofNat_inj_iff firstSmall (by decide)).mp same)
      exact between_ofNat 0x90 0xbf (by omega) (by omega) (by decide)
  split
  · next same =>
      have bound := inRange ((ofNat_inj_iff firstSmall (by decide)).mp same)
      exact between_ofNat 0x80 0x8f (by omega) (by omega) (by decide)
  · exact isContinuation_ofNat secondSmall

/-- The code of a character is below the surrogates, or above them and no more than U+10FFFF. -/
theorem toNat_range (letter : Char) :
    letter.toNat < 0xd800 ∨ 0xdfff < letter.toNat ∧ letter.toNat < 0x110000 :=
  letter.valid

theorem front_one {first : Nat} (rest : List UInt8) (small : first < 0x80) :
    front (UInt8.ofNat first) rest = .letter (Char.ofNat first) 1 := by
  have ascii : UInt8.ofNat first < 0x80 :=
    (ofNat_lt_iff 0x80 (by omega) (by decide)).mpr small
  rw [front.eq_def, if_pos ascii, toNat_ofNat (by omega)]

/-- A byte from a range that lies above ASCII is no character of its own. -/
theorem not_ascii {first : Nat} (low : 0x80 ≤ first) (small : first < 0x100) :
    ¬ UInt8.ofNat first < 0x80 := by
  intro ascii
  have below := (ofNat_lt_iff 0x80 small (by decide)).mp ascii
  omega

/-- A byte above a range is not in the range. -/
theorem not_between_ofNat (low high : Nat) {number : Nat} (above : high < number)
    (small : number < 0x100) :
    ¬ (decide (UInt8.ofNat low ≤ UInt8.ofNat number) &&
      decide (UInt8.ofNat number ≤ UInt8.ofNat high)) = true := by
  rw [Bool.and_eq_true_iff, decide_eq_true_eq, decide_eq_true_eq]
  intro inside
  have below := (ofNat_le_iff small (by omega)).mp inside.2
  omega

theorem not_isContinuation_of_small {number : Nat} (small : number < 0x80) :
    isContinuation (UInt8.ofNat number) = false := by
  apply Bool.eq_false_iff.mpr
  intro inside
  have low : UInt8.ofNat 0x80 ≤ UInt8.ofNat number :=
    of_decide_eq_true (Bool.and_eq_true_iff.mp inside).1
  have bound := (ofNat_le_iff (by decide) (by omega)).mp low
  omega

theorem not_isContinuation_of_large {number : Nat} (large : 0xc0 ≤ number) (small : number < 0x100) :
    isContinuation (UInt8.ofNat number) = false :=
  Bool.eq_false_iff.mpr (not_between_ofNat 0x80 0xbf (by omega) small)

/-- No character begins with a byte that continues one. -/
theorem exists_encodeChar (letter : Char) :
    exists first rest, encodeChar letter = first :: rest ∧ isContinuation first = false := by
  have range := toNat_range letter
  rw [encodeChar]
  generalize letter.toNat = code at range ⊢
  split
  · next small => exact ⟨_, _, rfl, not_isContinuation_of_small small⟩
  split
  · exact ⟨_, _, rfl, not_isContinuation_of_large (by omega) (by omega)⟩
  split
  · exact ⟨_, _, rfl, not_isContinuation_of_large (by omega) (by omega)⟩
  · exact ⟨_, _, rfl, not_isContinuation_of_large (by omega) (by omega)⟩

theorem front_two {first second : Nat} (rest : List UInt8) (low : 0xc2 ≤ first)
    (high : first ≤ 0xdf) (secondSmall : second < 0x40) :
    front (UInt8.ofNat first) (UInt8.ofNat (0x80 + second) :: rest) =
      .letter (Char.ofNat (first % 0x20 * 0x40 + second)) 2 := by
  have two : (decide (0xc2 ≤ UInt8.ofNat first) && decide (UInt8.ofNat first ≤ 0xdf)) = true :=
    between_ofNat 0xc2 0xdf low high (by decide)
  rw [front.eq_def, if_neg (not_ascii (by omega) (by omega)), if_pos two]
  dsimp only
  rw [if_pos (isContinuation_ofNat secondSmall), toNat_ofNat (by omega), payload_ofNat secondSmall]

theorem front_three {first second third : Nat} (rest : List UInt8) (low : 0xe0 ≤ first)
    (high : first ≤ 0xef) (thirdSmall : third < 0x40) (secondSmall : second < 0x40)
    (pair : mayFollow (UInt8.ofNat first) (UInt8.ofNat (0x80 + second)) = true) :
    front (UInt8.ofNat first) (UInt8.ofNat (0x80 + second) :: UInt8.ofNat (0x80 + third) :: rest) =
      .letter (Char.ofNat (first % 0x10 * 0x1000 + second * 0x40 + third)) 3 := by
  have two : ¬ (decide (0xc2 ≤ UInt8.ofNat first) && decide (UInt8.ofNat first ≤ 0xdf)) = true :=
    not_between_ofNat 0xc2 0xdf (by omega) (by omega)
  have three : (decide (0xe0 ≤ UInt8.ofNat first) && decide (UInt8.ofNat first ≤ 0xef)) = true :=
    between_ofNat 0xe0 0xef low high (by decide)
  rw [front.eq_def, if_neg (not_ascii (by omega) (by omega)), if_neg two, if_pos three]
  dsimp only
  rw [if_pos pair, if_pos (isContinuation_ofNat thirdSmall), toNat_ofNat (by omega),
    payload_ofNat secondSmall, payload_ofNat thirdSmall]

theorem front_four {first second third fourth : Nat} (rest : List UInt8) (low : 0xf0 ≤ first)
    (high : first ≤ 0xf4) (thirdSmall : third < 0x40) (fourthSmall : fourth < 0x40)
    (secondSmall : second < 0x40)
    (pair : mayFollow (UInt8.ofNat first) (UInt8.ofNat (0x80 + second)) = true) :
    front (UInt8.ofNat first)
        (UInt8.ofNat (0x80 + second) :: UInt8.ofNat (0x80 + third) ::
          UInt8.ofNat (0x80 + fourth) :: rest) =
      .letter (Char.ofNat (first % 8 * 0x40000 + second * 0x1000 + third * 0x40 + fourth)) 4 := by
  have two : ¬ (decide (0xc2 ≤ UInt8.ofNat first) && decide (UInt8.ofNat first ≤ 0xdf)) = true :=
    not_between_ofNat 0xc2 0xdf (by omega) (by omega)
  have three : ¬ (decide (0xe0 ≤ UInt8.ofNat first) && decide (UInt8.ofNat first ≤ 0xef)) = true :=
    not_between_ofNat 0xe0 0xef (by omega) (by omega)
  have four : (decide (0xf0 ≤ UInt8.ofNat first) && decide (UInt8.ofNat first ≤ 0xf4)) = true :=
    between_ofNat 0xf0 0xf4 low high (by decide)
  rw [front.eq_def, if_neg (not_ascii (by omega) (by omega)), if_neg two, if_neg three, if_pos four]
  dsimp only
  rw [if_pos pair, if_pos (isContinuation_ofNat thirdSmall),
    if_pos (isContinuation_ofNat fourthSmall), toNat_ofNat (by omega), payload_ofNat secondSmall,
    payload_ofNat thirdSmall, payload_ofNat fourthSmall]

/-- The bytes of a character are read as that character, whatever follows them. -/
theorem front_encodeChar {letter : Char} {first : UInt8} {others : List UInt8}
    (bytes : encodeChar letter = first :: others) (rest : List UInt8) :
    front first (others ++ rest) = .letter letter (others.length + 1) := by
  have range := toNat_range letter
  have back := Char.ofNat_toNat letter
  rw [encodeChar] at bytes
  generalize letter.toNat = code at range back bytes
  -- One case for each number of bytes.  The bounds on the second byte are the bounds on `code`.
  split at bytes
  · next small =>
      cases bytes
      rw [front_one _ small, back]
      rfl
  split at bytes
  · cases bytes
    simp only [List.cons_append, List.nil_append]
    rw [front_two _ (by omega) (by omega) (by omega)]
    have value : (0xc0 + code / 0x40) % 0x20 * 0x40 + code % 0x40 = code := by omega
    rw [value, back]
    rfl
  split at bytes
  · cases bytes
    simp only [List.cons_append, List.nil_append]
    rw [front_three _ (by omega) (by omega) (by omega) (by omega)
      (mayFollow_ofNat (by omega) (by omega) (by omega) (by omega) (by omega) (by omega))]
    have value : (0xe0 + code / 0x1000) % 0x10 * 0x1000 + code / 0x40 % 0x40 * 0x40 +
        code % 0x40 = code := by omega
    rw [value, back]
    rfl
  · cases bytes
    simp only [List.cons_append, List.nil_append]
    rw [front_four _ (by omega) (by omega) (by omega) (by omega) (by omega)
      (mayFollow_ofNat (by omega) (by omega) (by omega) (by omega) (by omega) (by omega))]
    have value : (0xf0 + code / 0x40000) % 8 * 0x40000 + code / 0x1000 % 0x40 * 0x1000 +
        code / 0x40 % 0x40 * 0x40 + code % 0x40 = code := by omega
    rw [value, back]
    rfl

theorem decodeFrom_skip (position : Nat) (taken rest : List UInt8) :
    decodeFrom position taken.length (taken ++ rest) =
      decodeFrom (position + taken.length) 0 rest := by
  induction taken generalizing position with
  | nil => rfl
  | cons byte taken ih =>
      rw [List.length_cons, List.cons_append, decodeFrom, ih, Nat.add_right_comm, Nat.add_assoc]

theorem decodeFrom_encodeChar (position : Nat) (letter : Char) (rest : List UInt8) :
    decodeFrom position 0 (encodeChar letter ++ rest) =
      (decodeFrom (position + (encodeChar letter).length) 0 rest).map (letter :: ·) := by
  obtain ⟨first, others, bytes, -⟩ := exists_encodeChar letter
  simp only [bytes, List.cons_append, decodeFrom, front_encodeChar bytes]
  rw [Nat.add_sub_cancel, decodeFrom_skip, List.length_cons, Nat.add_assoc, Nat.add_comm 1]

theorem decodeFrom_encode (position : Nat) (text : Text) :
    decodeFrom position 0 (encode text) = .ok text := by
  induction text generalizing position with
  | nil => rfl
  | cons letter rest ih =>
      rw [encode, List.flatMap_cons, decodeFrom_encodeChar]
      exact congrArg (Except.map (letter :: ·)) (ih _)

/-- A text is recovered from its bytes. -/
theorem decode_encode (text : Text) : decode (encode text) = .ok text :=
  decodeFrom_encode 0 text

theorem encode_injective : Function.Injective encode := by
  intro first second same
  have decoded := decode_encode first
  rw [same, decode_encode second] at decoded
  exact (Except.ok.inj decoded).symm

/-! ## Boundaries between characters -/

/-- An offset in bytes at which a character begins or the text ends. -/
def IsBoundary (text : Text) (offset : Nat) : Prop :=
  offset ≤ size text ∧
    forall byte, (encode text)[offset]? = some byte -> isContinuation byte = false

theorem encode_append (front back : Text) : encode (front ++ back) = encode front ++ encode back :=
  List.flatMap_append

theorem size_append (front back : Text) : size (front ++ back) = size front + size back := by
  rw [size, encode_append, List.length_append, size, size]

theorem drop_encode_append (front back : Text) :
    (encode (front ++ back)).drop (size front) = encode back := by
  rw [encode_append]
  exact List.drop_left

theorem size_pos {text : Text} (nonempty : text ≠ []) : 1 ≤ size text := by
  cases text with
  | nil => exact absurd rfl nonempty
  | cons letter rest =>
      obtain ⟨first, others, bytes, -⟩ := exists_encodeChar letter
      rw [size, encode, List.flatMap_cons, bytes, List.cons_append, List.length_cons]
      exact Nat.le_add_left _ _

/-- An ASCII character takes one byte. -/
theorem size_of_ascii {text : Text} (ascii : forall letter, letter ∈ text -> letter.toNat < 0x80) :
    size text = text.length := by
  induction text with
  | nil => rfl
  | cons letter rest ih =>
      rw [List.forall_mem_cons] at ascii
      have single : encodeChar letter = [UInt8.ofNat letter.toNat] := if_pos ascii.1
      have others := ih ascii.2
      rw [size, encode] at others ⊢
      rw [List.flatMap_cons, single, List.singleton_append, List.length_cons, others,
        List.length_cons]

/-- The end of a beginning of a text is a boundary of the text. -/
theorem isBoundary_append (front back : Text) : IsBoundary (front ++ back) (size front) := by
  constructor
  · rw [size_append]
    exact Nat.le_add_right _ _
  · intro byte found
    rw [← List.head?_drop, drop_encode_append] at found
    cases back with
    | nil => cases found
    | cons letter rest =>
        obtain ⟨first, others, bytes, begins⟩ := exists_encodeChar letter
        rw [encode, List.flatMap_cons, bytes, List.cons_append, List.head?_cons] at found
        rw [← Option.some.inj found]
        exact begins

end Utf8
end BuildInputs

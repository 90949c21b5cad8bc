import BuildInputs.Text.Base64
import BuildInputs.Proofs.Text.Utf8Decoding

namespace BuildInputs
namespace Base64

/-!
# Base64 is canonical

Decoding accepts the written forms of bytes and nothing else, so that bytes have one written form
and it is read as these bytes.  The argument goes by groups.  Whole groups of four symbols stand for
three bytes each and may be put in front of anything.  Only the last group may be padded, and its
rules leave one form for one byte, one for two and one for three.
-/

/-! ## Symbols -/

theorem value?_symbol {value : Nat} (small : value < 64) : value? (symbol value) = some value := by
  revert value
  decide

theorem symbol_ne_padding {value : Nat} (small : value < 64) : symbol value ≠ padding := by
  revert value
  decide

/-- The symbols are those of the standard alphabet. -/
example : (List.range 64).map symbol =
    Utf8.encode "ABCDEFGHIJKLMNOPQRSTUVWXYZabcdefghijklmnopqrstuvwxyz0123456789+/".toList := by
  decide

theorem isSymbol_symbol {value : Nat} (small : value < 64) : isSymbol (symbol value) = true := by
  rw [isSymbol, value?_symbol small]
  rfl

theorem bits_symbol {value : Nat} (small : value < 64) : bits (symbol value) = value := by
  rw [bits, value?_symbol small]
  rfl

/-- A symbol is determined by its number. -/
theorem exists_of_isSymbol {byte : UInt8} (valid : isSymbol byte = true) :
    exists value, value < 64 ∧ symbol value = byte := by
  obtain ⟨value, found⟩ := Option.isSome_iff_exists.mp valid
  unfold value? at found
  simp only [Bool.and_eq_true, decide_eq_true_eq, UInt8.le_iff_toNat_le, UInt8.reduceToNat] at found
  refine ⟨value, ?_⟩
  split at found
  · next upper =>
      cases found
      rw [symbol, if_pos (by omega)]
      exact ⟨by omega, Utf8.ofNat_eq byte (by omega)⟩
  split at found
  · next lower =>
      cases found
      rw [symbol, if_neg (by omega), if_pos (by omega), Nat.add_sub_cancel]
      exact ⟨by omega, Utf8.ofNat_eq byte (by omega)⟩
  split at found
  · next digit =>
      cases found
      rw [symbol, if_neg (by omega), if_neg (by omega), if_pos (by omega), Nat.add_sub_cancel]
      exact ⟨by omega, Utf8.ofNat_eq byte (by omega)⟩
  split at found
  · next plus =>
      cases found
      exact ⟨by decide, plus.symm⟩
  split at found
  · next slash =>
      cases found
      exact ⟨by decide, slash.symm⟩
  · cases found

theorem isSymbol_ne_padding {byte : UInt8} (valid : isSymbol byte = true) : byte ≠ padding := by
  rintro rfl
  cases valid

/-! ## Groups -/

/-- Whole groups are written by themselves. -/
theorem encode_append {front : List UInt8} (whole : front.length % 3 = 0) (back : List UInt8) :
    encode (front ++ back) = encode front ++ encode back := by
  induction front using encode.induct with
  | case1 => rfl
  | case2 first => cases whole
  | case3 first second => cases whole
  | case4 first second third rest ih =>
      rw [List.length_cons, List.length_cons, List.length_cons] at whole
      simp only [List.cons_append, encode, ih (by omega)]

theorem length_encode (bytes : List UInt8) :
    (encode bytes).length = (bytes.length + 2) / 3 * 4 := by
  induction bytes using encode.induct with
  | case1 => rfl
  | case2 first => simp only [encode, List.length_cons, List.length_nil]
  | case3 first second => simp only [encode, List.length_cons, List.length_nil]
  | case4 first second third rest ih =>
      simp only [encode, List.length_cons, ih]
      omega

/-- Whole groups have no padding. -/
theorem all_isSymbol_encode {bytes : List UInt8} (whole : bytes.length % 3 = 0) :
    (encode bytes).all isSymbol = true := by
  induction bytes using encode.induct with
  | case1 => rfl
  | case2 first => cases whole
  | case3 first second => cases whole
  | case4 first second third rest ih =>
      rw [List.length_cons, List.length_cons, List.length_cons] at whole
      have firstSmall := first.toNat_lt
      have secondSmall := second.toNat_lt
      have thirdSmall := third.toNat_lt
      simp only [encode, List.all_cons, Bool.and_eq_true]
      exact ⟨isSymbol_symbol (by omega), isSymbol_symbol (by omega), isSymbol_symbol (by omega),
        isSymbol_symbol (by omega), ih (by omega)⟩

/-- The bytes are found again. -/
theorem groups_encode (bytes : List UInt8) : groups (encode bytes) = bytes := by
  induction bytes using encode.induct with
  | case1 => rfl
  | case2 first =>
      have small := first.toNat_lt
      have head : first.toNat / 4 * 4 + first.toNat % 4 * 16 / 16 = first.toNat := by omega
      rw [encode, groups, if_pos rfl, bits_symbol (by omega), bits_symbol (by omega), head,
        UInt8.ofNat_toNat]
      rfl
  | case3 first second =>
      have small := first.toNat_lt
      have secondSmall := second.toNat_lt
      have head : first.toNat / 4 * 4 + (first.toNat % 4 * 16 + second.toNat / 16) / 16 =
          first.toNat := by omega
      have middle : (first.toNat % 4 * 16 + second.toNat / 16) % 16 * 16 +
          second.toNat % 16 * 4 / 4 = second.toNat := by omega
      rw [encode, groups, if_neg (symbol_ne_padding (by omega)), if_pos rfl,
        bits_symbol (by omega), bits_symbol (by omega), bits_symbol (by omega), head, middle,
        UInt8.ofNat_toNat, UInt8.ofNat_toNat]
      rfl
  | case4 first second third rest ih =>
      have small := first.toNat_lt
      have secondSmall := second.toNat_lt
      have thirdSmall := third.toNat_lt
      have head : first.toNat / 4 * 4 + (first.toNat % 4 * 16 + second.toNat / 16) / 16 =
          first.toNat := by omega
      have middle : (first.toNat % 4 * 16 + second.toNat / 16) % 16 * 16 +
          (second.toNat % 16 * 4 + third.toNat / 64) / 4 = second.toNat := by omega
      have tail : (second.toNat % 16 * 4 + third.toNat / 64) % 4 * 64 + third.toNat % 64 =
          third.toNat := by omega
      rw [encode, groups, if_neg (symbol_ne_padding (by omega)),
        if_neg (symbol_ne_padding (by omega)), bits_symbol (by omega), bits_symbol (by omega),
        bits_symbol (by omega), bits_symbol (by omega), head, middle, tail, ih,
        UInt8.ofNat_toNat, UInt8.ofNat_toNat, UInt8.ofNat_toNat]

/-- Every group of four symbols is the written form of three bytes. -/
theorem exists_encode_group {first second third fourth : UInt8} (isFirst : isSymbol first = true)
    (isSecond : isSymbol second = true) (isThird : isSymbol third = true)
    (isFourth : isSymbol fourth = true) :
    exists bytes, bytes.length = 3 ∧ encode bytes = [first, second, third, fourth] := by
  obtain ⟨a, aSmall, rfl⟩ := exists_of_isSymbol isFirst
  obtain ⟨b, bSmall, rfl⟩ := exists_of_isSymbol isSecond
  obtain ⟨c, cSmall, rfl⟩ := exists_of_isSymbol isThird
  obtain ⟨d, dSmall, rfl⟩ := exists_of_isSymbol isFourth
  refine ⟨[UInt8.ofNat (a * 4 + b / 16), UInt8.ofNat (b % 16 * 16 + c / 4),
    UInt8.ofNat (c % 4 * 64 + d)], rfl, ?_⟩
  have one : (a * 4 + b / 16) / 4 = a := by omega
  have two : (a * 4 + b / 16) % 4 * 16 + (b % 16 * 16 + c / 4) / 16 = b := by omega
  have three : (b % 16 * 16 + c / 4) % 16 * 4 + (c % 4 * 64 + d) / 64 = c := by omega
  have four : (c % 4 * 64 + d) % 64 = d := by omega
  rw [encode, Utf8.toNat_ofNat (by omega), Utf8.toNat_ofNat (by omega),
    Utf8.toNat_ofNat (by omega), one, two, three, four]
  rfl

/-- Two symbols stand for one byte if the second leaves its low four bits empty. -/
theorem exists_encode_of_two {first second : UInt8} (isFirst : isSymbol first = true)
    (isSecond : isSymbol second = true) (unused : bits second % 16 = 0) :
    exists bytes, encode bytes = [first, second, padding, padding] := by
  obtain ⟨a, aSmall, rfl⟩ := exists_of_isSymbol isFirst
  obtain ⟨b, bSmall, rfl⟩ := exists_of_isSymbol isSecond
  rw [bits_symbol bSmall] at unused
  refine ⟨[UInt8.ofNat (a * 4 + b / 16)], ?_⟩
  have one : (a * 4 + b / 16) / 4 = a := by omega
  have two : (a * 4 + b / 16) % 4 * 16 = b := by omega
  rw [encode, Utf8.toNat_ofNat (by omega), one, two]

/-- Three symbols stand for two bytes if the third leaves its low two bits empty. -/
theorem exists_encode_of_three {first second third : UInt8} (isFirst : isSymbol first = true)
    (isSecond : isSymbol second = true) (isThird : isSymbol third = true)
    (unused : bits third % 4 = 0) :
    exists bytes, encode bytes = [first, second, third, padding] := by
  obtain ⟨a, aSmall, rfl⟩ := exists_of_isSymbol isFirst
  obtain ⟨b, bSmall, rfl⟩ := exists_of_isSymbol isSecond
  obtain ⟨c, cSmall, rfl⟩ := exists_of_isSymbol isThird
  rw [bits_symbol cSmall] at unused
  refine ⟨[UInt8.ofNat (a * 4 + b / 16), UInt8.ofNat (b % 16 * 16 + c / 4)], ?_⟩
  have one : (a * 4 + b / 16) / 4 = a := by omega
  have two : (a * 4 + b / 16) % 4 * 16 + (b % 16 * 16 + c / 4) / 16 = b := by omega
  have three : (b % 16 * 16 + c / 4) % 16 * 4 = c := by omega
  rw [encode, Utf8.toNat_ofNat (by omega), Utf8.toNat_ofNat (by omega), one, two, three]

/-- Whole groups of symbols are the written form of whole groups of bytes. -/
theorem exists_encode_of_symbols : forall {input : List UInt8}, input.length % 4 = 0 ->
    input.all isSymbol = true -> exists bytes, bytes.length % 3 = 0 ∧ encode bytes = input
  | [], _, _ => ⟨[], rfl, rfl⟩
  | first :: second :: third :: fourth :: rest, whole, all => by
      simp only [List.all_cons, Bool.and_eq_true] at all
      obtain ⟨isFirst, isSecond, isThird, isFourth, restAll⟩ := all
      obtain ⟨group, length, isGroup⟩ := exists_encode_group isFirst isSecond isThird isFourth
      have restWhole : rest.length % 4 = 0 := by
        simp only [List.length_cons] at whole
        omega
      obtain ⟨bytes, bytesWhole, isRest⟩ := exists_encode_of_symbols restWhole restAll
      refine ⟨group ++ bytes, ?_, ?_⟩
      · rw [List.length_append]
        omega
      · rw [encode_append (by omega), isGroup, isRest]
        rfl

/-! ## The checks -/

theorem checkSymbols_eq_ok_iff {offset : Nat} {input : List UInt8} {done : Unit} :
    checkSymbols offset input = .ok done ↔ input.all isSymbol = true := by
  induction input generalizing offset with
  | nil => exact iff_of_true rfl rfl
  | cons byte rest ih =>
      rw [checkSymbols, List.all_cons]
      cases isSymbol byte with
      | true => rw [if_pos rfl, ih, Bool.true_and]
      | false => exact iff_of_false nofun Bool.false_ne_true

theorem checkLastGroup_nil {start index : Nat} {firstPadding : Option Nat} {done : Unit} :
    checkLastGroup start index firstPadding [] = .ok done ↔ True :=
  iff_of_true rfl trivial

/-- Only padding follows padding. -/
theorem checkLastGroup_padded_iff {start index first : Nat} {byte : UInt8} {rest : List UInt8}
    {done : Unit} :
    checkLastGroup start index (some first) (byte :: rest) = .ok done ↔
      byte = padding ∧ 2 ≤ index ∧
        checkLastGroup start (index + 1) (some first) rest = .ok done := by
  rw [checkLastGroup]
  by_cases padded : byte = padding
  · rw [if_pos padded, and_iff_right padded]
    split
    · next early =>
        exact iff_of_false nofun fun both => by omega
    · next late =>
        rw [and_iff_right (Nat.le_of_not_lt late)]
        rfl
  · rw [if_neg padded]
    exact iff_of_false nofun fun both => padded both.1

/-- Padding begins after two symbols at the earliest. -/
theorem checkLastGroup_open_iff {start index : Nat} {byte : UInt8} {rest : List UInt8}
    {done : Unit} :
    checkLastGroup start index none (byte :: rest) = .ok done ↔
      (isSymbol byte = true ∧ checkLastGroup start (index + 1) none rest = .ok done) ∨
      (byte = padding ∧ 2 ≤ index ∧
        checkLastGroup start (index + 1) (some index) rest = .ok done) := by
  rw [checkLastGroup]
  by_cases padded : byte = padding
  · have noSymbol : ¬ isSymbol byte = true := fun valid => isSymbol_ne_padding valid padded
    rw [if_pos padded, or_iff_right fun both => noSymbol both.1, and_iff_right padded]
    split
    · next early =>
        exact iff_of_false nofun fun both => by omega
    · next late =>
        rw [and_iff_right (Nat.le_of_not_lt late)]
        rfl
  · rw [if_neg padded, or_iff_left fun both => padded both.1]
    cases isSymbol byte with
    | true => rw [if_pos rfl, and_iff_right rfl]
    | false => exact iff_of_false nofun fun both => nomatch both.1

/-- The last group is two, three or four symbols, filled up with padding. -/
theorem checkLastGroup_eq_ok_iff {start : Nat} {first second third fourth : UInt8} {done : Unit} :
    checkLastGroup start 0 none [first, second, third, fourth] = .ok done ↔
      isSymbol first = true ∧ isSymbol second = true ∧
        ((isSymbol third = true ∧ (isSymbol fourth = true ∨ fourth = padding)) ∨
          (third = padding ∧ fourth = padding)) := by
  simp only [checkLastGroup_open_iff, checkLastGroup_padded_iff, checkLastGroup_nil,
    Nat.reduceAdd, Nat.reduceLeDiff, Nat.le_refl, false_and, and_false, or_false, true_and,
    and_true]

theorem isSymbol_padding : isSymbol padding = false :=
  rfl

/-- A group of four passes if it has two symbols at least and the last of them is used up. -/
theorem checkLength_eq_ok_iff {start : Nat} {group symbols : List UInt8} {last : UInt8}
    (four : group.length = 4) (among : group.filter isSymbol = symbols ++ [last])
    (several : symbols ≠ []) {done : Unit} :
    checkLength start group = .ok done ↔
      bits last % (if symbols.length = 1 then 16 else if symbols.length = 2 then 4 else 1) = 0 := by
  have nonempty : group.isEmpty = false := by
    cases group with
    | nil => cases four
    | cons byte rest => rfl
  have count : ¬ symbols.length + 1 < 2 := by
    have := List.length_pos_iff.mpr several
    omega
  simp only [checkLength, among, nonempty, List.length_append, List.length_singleton, count, four,
    List.getLast?_concat, Nat.reduceMod, bne_self_eq_false, Bool.false_eq_true, if_false,
    Nat.reduceEqDiff]
  rw [bits]
  generalize (value? last).getD 0 % _ = left
  by_cases used : left = 0
  · rw [used]
    exact iff_of_true rfl rfl
  · rw [if_pos (bne_iff_ne.mpr used)]
    exact iff_of_false nofun used

theorem length_of_checkLength {start : Nat} {group : List UInt8} {done : Unit}
    (nonempty : group ≠ []) (short : group.length ≤ 4)
    (complete : checkLength start group = .ok done) : group.length = 4 := by
  have pos := List.length_pos_iff.mpr nonempty
  have whole : group.length % 4 = 0 := by
    rw [checkLength] at complete
    dsimp only at complete
    rw [if_neg (by rw [List.isEmpty_iff]; exact nonempty)] at complete
    split at complete
    · cases complete
    split at complete
    · cases complete
    · next whole => simpa only [bne_iff_ne, ne_eq, Decidable.not_not] using whole
  omega

theorem symbols_of_two {first second : UInt8} (isFirst : isSymbol first = true)
    (isSecond : isSymbol second = true) :
    [first, second, padding, padding].filter isSymbol = [first] ++ [second] := by
  simp only [List.filter, isFirst, isSecond, isSymbol_padding]
  rfl

theorem symbols_of_three {first second third : UInt8} (isFirst : isSymbol first = true)
    (isSecond : isSymbol second = true) (isThird : isSymbol third = true) :
    [first, second, third, padding].filter isSymbol = [first, second] ++ [third] := by
  simp only [List.filter, isFirst, isSecond, isThird, isSymbol_padding]
  rfl

theorem symbols_of_four {first second third fourth : UInt8} (isFirst : isSymbol first = true)
    (isSecond : isSymbol second = true) (isThird : isSymbol third = true)
    (isFourth : isSymbol fourth = true) :
    [first, second, third, fourth].filter isSymbol = [first, second, third] ++ [fourth] := by
  simp only [List.filter, isFirst, isSecond, isThird, isFourth]
  rfl

/-- A last group that passes the checks is the written form of one, two or three bytes. -/
theorem exists_encode_of_lastGroup {start : Nat} {group : List UInt8} {done : Unit}
    (four : group.length = 4) (filled : checkLastGroup start 0 none group = .ok done)
    (complete : checkLength start group = .ok done) : exists bytes, encode bytes = group := by
  match group, four with
  | [first, second, third, fourth], _ =>
      obtain ⟨isFirst, isSecond, ⟨isThird, isFourth | rfl⟩ | ⟨rfl, rfl⟩⟩ :=
        checkLastGroup_eq_ok_iff.mp filled
      · obtain ⟨bytes, -, isGroup⟩ := exists_encode_group isFirst isSecond isThird isFourth
        exact ⟨bytes, isGroup⟩
      · have unused := (checkLength_eq_ok_iff rfl (symbols_of_three isFirst isSecond isThird)
          (List.cons_ne_nil _ _)).mp complete
        exact exists_encode_of_three isFirst isSecond isThird unused
      · have unused := (checkLength_eq_ok_iff rfl (symbols_of_two isFirst isSecond)
          (List.cons_ne_nil _ _)).mp complete
        exact exists_encode_of_two isFirst isSecond unused

/-- The written form of one, two or three bytes passes the checks of the last group. -/
theorem checks_lastGroup_encode {bytes : List UInt8} (nonempty : bytes ≠ [])
    (short : bytes.length ≤ 3) (start : Nat) :
    checkLastGroup start 0 none (encode bytes) = .ok () ∧
      checkLength start (encode bytes) = .ok () := by
  match bytes, nonempty, short with
  | [first], _, _ =>
      have small := first.toNat_lt
      have isFirst : isSymbol (symbol (first.toNat / 4)) = true := isSymbol_symbol (by omega)
      have isSecond : isSymbol (symbol (first.toNat % 4 * 16)) = true := isSymbol_symbol (by omega)
      rw [encode, checkLastGroup_eq_ok_iff,
        checkLength_eq_ok_iff rfl (symbols_of_two isFirst isSecond) (List.cons_ne_nil _ _),
        bits_symbol (by omega)]
      exact ⟨⟨isFirst, isSecond, Or.inr ⟨rfl, rfl⟩⟩, Nat.mul_mod_left _ _⟩
  | [first, second], _, _ =>
      have small := first.toNat_lt
      have secondSmall := second.toNat_lt
      have isFirst : isSymbol (symbol (first.toNat / 4)) = true := isSymbol_symbol (by omega)
      have isSecond : isSymbol (symbol (first.toNat % 4 * 16 + second.toNat / 16)) = true :=
        isSymbol_symbol (by omega)
      have isThird : isSymbol (symbol (second.toNat % 16 * 4)) = true := isSymbol_symbol (by omega)
      rw [encode, checkLastGroup_eq_ok_iff,
        checkLength_eq_ok_iff rfl (symbols_of_three isFirst isSecond isThird)
          (List.cons_ne_nil _ _), bits_symbol (by omega)]
      exact ⟨⟨isFirst, isSecond, Or.inl ⟨isThird, Or.inr rfl⟩⟩, Nat.mul_mod_left _ _⟩
  | [first, second, third], _, _ =>
      have whole : [first, second, third].length % 3 = 0 := Nat.mod_self 3
      have all := all_isSymbol_encode whole
      simp only [encode, List.all_cons, Bool.and_eq_true] at all ⊢
      obtain ⟨isFirst, isSecond, isThird, isFourth, -⟩ := all
      rw [checkLastGroup_eq_ok_iff,
        checkLength_eq_ok_iff rfl (symbols_of_four isFirst isSecond isThird isFourth)
          (List.cons_ne_nil _ _)]
      exact ⟨⟨isFirst, isSecond, Or.inl ⟨isThird, Or.inl isFourth⟩⟩, Nat.mod_one _⟩

/-! ## The whole input -/

theorem check_eq_ok_iff {input : List UInt8} {done : Unit} :
    check input = .ok done ↔
      checkLeftover input = .ok () ∧
        checkSymbols 0 (input.take (lastGroupStart input.length)) = .ok () ∧
        checkLastGroup (lastGroupStart input.length) 0 none
          (input.drop (lastGroupStart input.length)) = .ok () ∧
        checkLength (lastGroupStart input.length)
          (input.drop (lastGroupStart input.length)) = .ok done := by
  simp only [check, Report.bind_eq_ok_iff]
  constructor
  · rintro ⟨⟨⟩, leftover, ⟨⟩, symbols, ⟨⟩, filled, complete⟩
    exact ⟨leftover, symbols, filled, complete⟩
  · rintro ⟨leftover, symbols, filled, complete⟩
    exact ⟨(), leftover, (), symbols, (), filled, complete⟩

theorem checkLeftover_of_whole {input : List UInt8} (whole : input.length % 4 = 0) :
    checkLeftover input = .ok () := by
  rw [checkLeftover]
  split
  · rw [whole]
    rfl
  · rfl

/-- The last group begins where whole groups end. -/
theorem lastGroupStart_bounds {length : Nat} (pos : 0 < length) :
    lastGroupStart length % 4 = 0 ∧ lastGroupStart length < length ∧
      length ≤ lastGroupStart length + 4 := by
  rw [lastGroupStart, if_neg (Nat.ne_of_gt pos)]
  split
  · omega
  · omega

theorem lastGroupStart_append {front group : List UInt8} (whole : front.length % 4 = 0)
    (four : group.length = 4) : lastGroupStart (front ++ group).length = front.length := by
  rw [List.length_append, four, lastGroupStart, if_neg (by omega), if_pos (by omega),
    Nat.add_sub_cancel]

/-- The bytes before the last one, two or three are whole groups. -/
theorem exists_lastGroup {bytes : List UInt8} (nonempty : bytes ≠ []) :
    exists front last, bytes = front ++ last ∧ front.length % 3 = 0 ∧ last ≠ [] ∧
      last.length ≤ 3 := by
  have pos := List.length_pos_iff.mpr nonempty
  refine ⟨bytes.take ((bytes.length - 1) / 3 * 3), bytes.drop ((bytes.length - 1) / 3 * 3),
    (List.take_append_drop _ _).symm, ?_, ?_, ?_⟩
  · rw [List.length_take]
    omega
  · rw [← List.length_pos_iff, List.length_drop]
    omega
  · rw [List.length_drop]
    omega

theorem check_encode (bytes : List UInt8) : check (encode bytes) = .ok () := by
  by_cases nonempty : bytes = []
  · rw [nonempty]
    rfl
  obtain ⟨front, last, rfl, whole, lastNonempty, short⟩ := exists_lastGroup nonempty
  have lastPos := List.length_pos_iff.mpr lastNonempty
  have frontWhole : (encode front).length % 4 = 0 := by
    rw [length_encode]
    exact Nat.mul_mod_left _ _
  have four : (encode last).length = 4 := by
    rw [length_encode]
    omega
  have leftover : (encode front ++ encode last).length % 4 = 0 := by
    rw [List.length_append]
    omega
  rw [encode_append whole, check_eq_ok_iff, lastGroupStart_append frontWhole four, List.take_left,
    List.drop_left]
  exact ⟨checkLeftover_of_whole leftover,
    checkSymbols_eq_ok_iff.mpr (all_isSymbol_encode whole),
    checks_lastGroup_encode lastNonempty short _⟩

/-- Input that passes the checks is the written form of some bytes. -/
theorem exists_encode_of_check {input : List UInt8} {done : Unit}
    (checked : check input = .ok done) : exists bytes, encode bytes = input := by
  by_cases nonempty : input = []
  · exact ⟨[], nonempty.symm⟩
  have pos := List.length_pos_iff.mpr nonempty
  obtain ⟨-, symbols, filled, complete⟩ := check_eq_ok_iff.mp checked
  obtain ⟨whole, inside, short⟩ := lastGroupStart_bounds pos
  have split := List.take_append_drop (lastGroupStart input.length) input
  have four := length_of_checkLength
    (by rw [← List.length_pos_iff, List.length_drop]; omega)
    (by rw [List.length_drop]; omega) complete
  obtain ⟨last, isLast⟩ := exists_encode_of_lastGroup four filled complete
  obtain ⟨front, frontWhole, isFront⟩ := exists_encode_of_symbols
    (by rw [List.length_take]; omega) (checkSymbols_eq_ok_iff.mp symbols)
  exact ⟨front ++ last, by rw [encode_append frontWhole, isFront, isLast, split]⟩

/-- Exactly the written form of bytes is read as these bytes. -/
theorem decode_eq_ok_iff {input bytes : List UInt8} :
    decode input = .ok bytes ↔ input = encode bytes := by
  rw [decode, Report.map_eq_ok_iff]
  constructor
  · rintro ⟨done, checked, isBytes⟩
    obtain ⟨found, rfl⟩ := exists_encode_of_check checked
    rw [← isBytes, groups_encode]
  · rintro rfl
    exact ⟨(), check_encode bytes, groups_encode bytes⟩

/-! ## Written forms as texts -/

theorem symbol_ascii (value : Nat) : symbol value < 0x80 := by
  by_cases small : value < 64
  · revert value
    decide
  · rw [symbol, if_neg (by omega), if_neg (by omega), if_neg (by omega), if_neg (by omega)]
    decide

/-- A written form consists of ASCII characters. -/
theorem encode_ascii (bytes : List UInt8) : forall byte, byte ∈ encode bytes -> byte < 0x80 := by
  have padded : padding < 0x80 := by decide
  induction bytes using encode.induct with
  | case1 => exact List.forall_mem_nil _
  | case2 first =>
      simp only [encode, List.forall_mem_cons]
      exact ⟨symbol_ascii _, symbol_ascii _, padded, padded, List.forall_mem_nil _⟩
  | case3 first second =>
      simp only [encode, List.forall_mem_cons]
      exact ⟨symbol_ascii _, symbol_ascii _, symbol_ascii _, padded, List.forall_mem_nil _⟩
  | case4 first second third rest ih =>
      simp only [encode, List.forall_mem_cons]
      exact ⟨symbol_ascii _, symbol_ascii _, symbol_ascii _, symbol_ascii _, ih⟩

/-- Bytes have a text as their written form. -/
theorem exists_text (bytes : List UInt8) : exists text, Utf8.encode text = encode bytes := by
  have ascii := encode_ascii bytes
  generalize encode bytes = written at ascii
  induction written with
  | nil => exact ⟨[], rfl⟩
  | cons byte rest ih =>
      obtain ⟨here, others⟩ := List.forall_mem_cons.mp ascii
      obtain ⟨text, isRest⟩ := ih others
      refine ⟨Char.ofNat byte.toNat :: text, ?_⟩
      have isByte := Utf8.encodeChar_one (UInt8.lt_iff_toNat_lt.mp here)
      rw [Utf8.encode, List.flatMap_cons, ← Utf8.encode, isByte, isRest]
      rfl

end Base64
end BuildInputs

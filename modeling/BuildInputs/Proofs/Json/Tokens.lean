import BuildInputs.Json.Reader

namespace BuildInputs
namespace Json

/-!
# The tokens of JSON

This module says which texts are blanks, strings and numbers, without saying how to read them.  A
string may be written in many ways, since each character may be escaped, and a number in a few,
which differ in the mark and the sign of its exponent.

The readers take one token from the front of a text.  Each of them is described here in both
directions: a token that may be written so is read up to its end, and what is read is a token that
may be written so.  The second holds whatever follows.  The first holds for a number only if nothing
follows that would continue it.
-/

/-- What was read before it was wrapped. -/
theorem exists_of_wrapped {Part Whole : Type} (wrap : Part -> Whole) {read : Option (Part × Text)}
    {whole : Whole} {rest : Text}
    (wrapped : (read.map fun read => (wrap read.1, read.2)) = some (whole, rest)) :
    exists part, read = some (part, rest) ∧ whole = wrap part := by
  rcases Option.map_eq_some_iff.mp wrapped with ⟨⟨part, behind⟩, isRead, same⟩
  cases same
  exact ⟨part, isRead, rfl⟩

/-! ## Blanks -/

/-- A row of blanks, which may be empty. -/
def IsBlanks (text : Text) : Prop :=
  forall letter, letter ∈ text -> isBlank letter = true

theorem isBlanks_nil : IsBlanks [] :=
  fun _ none => absurd none List.not_mem_nil

/-- A text is the blanks in front of it and what is left. -/
theorem exists_blanks (text : Text) :
    exists blanks, text = blanks ++ skipBlanks text ∧ IsBlanks blanks :=
  ⟨text.takeWhile isBlank, List.takeWhile_append_dropWhile.symm,
    List.all_eq_true.mp List.all_takeWhile⟩

theorem skipBlanks_append {blanks : Text} (allBlank : IsBlanks blanks) (text : Text) :
    skipBlanks (blanks ++ text) = skipBlanks text :=
  List.dropWhile_append_of_pos allBlank

theorem skipBlanks_cons {letter : Char} (visible : isBlank letter = false) (rest : Text) :
    skipBlanks (letter :: rest) = letter :: rest := by
  rw [skipBlanks, List.dropWhile_cons, visible]
  rfl

/-! ## Strings -/

/-- The digit in either case has the value. -/
def IsHexDigit (value : Nat) (digit : Char) : Prop :=
  "0123456789abcdef".toList[value]? = some digit ∨ "0123456789ABCDEF".toList[value]? = some digit

/-- The short escapes: the character behind the backslash, and the one that it stands for. -/
def shortEscapes : List (Char × Char) :=
  [('"', '"'), ('\\', '\\'), ('/', '/'), ('b', '\x08'), ('f', '\x0c'), ('n', '\n'), ('r', '\r'),
    ('t', '\t')]

/-- How one letter of a string may be written: as it is, unless that would be mistaken for
something else, with a short escape, or with four hexadecimal digits. -/
inductive SpellsLetter : Letter -> Text -> Prop
  | plain {letter : Char} (printed : 0x20 ≤ letter.toNat) (quote : letter ≠ '"')
      (backslash : letter ≠ '\\') : SpellsLetter (.plain letter) [letter]
  | short {letter meant : Char} (listed : (letter, meant) ∈ shortEscapes) :
      SpellsLetter (.plain meant) ['\\', letter]
  | unit {a b c d : Nat} {first second third fourth : Char} (isFirst : IsHexDigit a first)
      (isSecond : IsHexDigit b second) (isThird : IsHexDigit c third)
      (isFourth : IsHexDigit d fourth) :
      SpellsLetter (.unit (((a * 16 + b) * 16 + c) * 16 + d))
        ['\\', 'u', first, second, third, fourth]

/-- How the letters of a string may be written, without the quotes. -/
inductive SpellsLetters : List Letter -> Text -> Prop
  | nil : SpellsLetters [] []
  | cons {letter : Letter} {letters : List Letter} {text more : Text}
      (first : SpellsLetter letter text) (others : SpellsLetters letters more) :
      SpellsLetters (letter :: letters) (text ++ more)

instance (value : Nat) (digit : Char) : Decidable (IsHexDigit value digit) :=
  inferInstanceAs (Decidable (_ ∨ _))

theorem toNat_lt_of_hexValue? {digit : Char} {value : Nat} (read : hexValue? digit = some value) :
    digit.toNat < 0x80 := by
  have below : forall {last : Char}, digit ≤ last -> last.toNat < 0x80 -> digit.toNat < 0x80 :=
    fun upTo small => Nat.lt_of_le_of_lt (UInt32.le_iff_toNat_le.mp (Char.le_def.mp upTo)) small
  simp only [hexValue?, Text.isDigit, Bool.and_eq_true, decide_eq_true_eq] at read
  split at read
  · next decimal => exact below decimal.2 (by decide)
  split at read
  · next lower => exact below lower.2 (by decide)
  split at read
  · next upper => exact below upper.2 (by decide)
  · cases read

/-- A digit is read as its value. -/
theorem hexValue?_eq_some_iff {digit : Char} {value : Nat} :
    hexValue? digit = some value ↔ IsHexDigit value digit := by
  constructor
  · intro read
    have all : forall code, code < 0x80 -> forall value, value ∈ hexValue? (Char.ofNat code) ->
        IsHexDigit value (Char.ofNat code) := by
      decide
    have known := all digit.toNat (toNat_lt_of_hexValue? read) value
    rw [Char.ofNat_toNat] at known
    exact known read
  · have all : forall value, value < 16 ->
        "0123456789abcdef".toList[value]?.all (fun digit => hexValue? digit = some value) = true ∧
          "0123456789ABCDEF".toList[value]?.all (fun digit => hexValue? digit = some value) =
            true := by
      decide
    rintro (lower | upper)
    · have known := (all value (List.getElem?_eq_some_iff.mp lower).1).1
      rw [lower, Option.all_some] at known
      exact of_decide_eq_true known
    · have known := (all value (List.getElem?_eq_some_iff.mp upper).1).2
      rw [upper, Option.all_some] at known
      exact of_decide_eq_true known

/-- An escape of one letter is read as what it stands for. -/
theorem shortEscape?_eq_some_iff {letter meant : Char} :
    shortEscape? letter = some meant ↔ (letter, meant) ∈ shortEscapes := by
  rw [shortEscape?.eq_def, shortEscapes]
  split <;> simp_all [eq_comm]

theorem readLetters_plain {letter : Char} {rest : Text} (quote : letter ≠ '"')
    (backslash : letter ≠ '\\') (printed : ¬ letter.toNat < 0x20) :
    readLetters (letter :: rest) =
      (readLetters rest).map fun read => (.plain letter :: read.1, read.2) := by
  rw [readLetters.eq_def]
  split
  · next same => cases same
  · next same => exact absurd (List.cons.inj same).1 quote
  · next same => exact absurd (List.cons.inj same).1 backslash
  · next same => exact absurd (List.cons.inj same).1 backslash
  · next same =>
      cases same
      have allowed : (decide (letter.toNat < 0x20) || decide (letter = '\\')) = false := by
        rw [Bool.or_eq_false_iff, decide_eq_false_iff_not, decide_eq_false_iff_not]
        exact ⟨printed, backslash⟩
      rw [allowed, if_neg Bool.false_ne_true]

/-- A letter is read, however it is written. -/
theorem readLetters_append {letter : Letter} {text : Text} (spells : SpellsLetter letter text)
    (rest : Text) : readLetters (text ++ rest) =
      (readLetters rest).map fun read => (letter :: read.1, read.2) := by
  cases spells with
  | plain printed quote backslash =>
      exact readLetters_plain quote backslash (Nat.not_lt.mpr printed)
  | short listed =>
      simp only [shortEscapes, List.mem_cons, List.not_mem_nil, or_false, Prod.mk.injEq] at listed
      rcases listed with ⟨rfl, rfl⟩ | ⟨rfl, rfl⟩ | ⟨rfl, rfl⟩ | ⟨rfl, rfl⟩ | ⟨rfl, rfl⟩ |
        ⟨rfl, rfl⟩ | ⟨rfl, rfl⟩ | ⟨rfl, rfl⟩ <;> rfl
  | unit isFirst isSecond isThird isFourth =>
      simp only [List.cons_append, List.nil_append, readLetters, hexQuad?,
        hexValue?_eq_some_iff.mpr isFirst, hexValue?_eq_some_iff.mpr isSecond,
        hexValue?_eq_some_iff.mpr isThird, hexValue?_eq_some_iff.mpr isFourth]

theorem spellsLetter_of_hexQuad? {first second third fourth : Char} {code : Nat}
    (read : hexQuad? first second third fourth = some code) :
    SpellsLetter (.unit code) ['\\', 'u', first, second, third, fourth] := by
  rw [hexQuad?.eq_def] at read
  split at read
  · next a b c d isFirst isSecond isThird isFourth =>
      cases read
      exact .unit (hexValue?_eq_some_iff.mp isFirst) (hexValue?_eq_some_iff.mp isSecond)
        (hexValue?_eq_some_iff.mp isThird) (hexValue?_eq_some_iff.mp isFourth)
  · cases read

/-- A string whose first letter is written in front of what is read. -/
theorem exists_letters_append {first : Letter} {letters : List Letter} {front behind rest : Text}
    (spells : SpellsLetter first front)
    (further : forall {others}, readLetters behind = some (others, rest) ->
      exists inner, behind = inner ++ '"' :: rest ∧ SpellsLetters others inner)
    (read : (readLetters behind).map (fun read => (first :: read.1, read.2)) =
      some (letters, rest)) :
    exists inner, front ++ behind = inner ++ '"' :: rest ∧ SpellsLetters letters inner := by
  rcases exists_of_wrapped (first :: ·) read with ⟨others, readBehind, rfl⟩
  rcases further readBehind with ⟨inner, rfl, spellsOthers⟩
  exact ⟨front ++ inner, (List.append_assoc _ _ _).symm, .cons spells spellsOthers⟩

/-- A string is read up to its closing quote. -/
theorem readLetters_eq_some_iff {text rest : Text} {letters : List Letter} :
    readLetters text = some (letters, rest) ↔
      exists inner, text = inner ++ '"' :: rest ∧ SpellsLetters letters inner := by
  constructor
  · intro read
    fun_induction readLetters text generalizing letters with
    | case1 | case4 | case6 | case7 => cases read
    | case2 =>
        cases read
        exact ⟨[], rfl, .nil⟩
    | case3 first second third fourth behind code digits ih =>
        exact exists_letters_append (spellsLetter_of_hexQuad? digits) ih read
    | case5 letter behind other meant escape ih =>
        exact exists_letters_append (.short (shortEscape?_eq_some_iff.mp escape)) ih read
    | case8 letter behind quote _ _ allowed ih =>
        simp only [Bool.or_eq_true, decide_eq_true_eq, not_or, Nat.not_lt] at allowed
        exact exists_letters_append (.plain allowed.1 quote allowed.2) ih read
  · rintro ⟨inner, rfl, spells⟩
    induction spells with
    | nil => rfl
    | cons first others ih =>
        rw [List.append_assoc, readLetters_append first, ih]
        rfl

/-! ## Numbers -/

/-- A row of digits, one at least. -/
def IsDigits (text : Text) : Prop :=
  text ≠ [] ∧ forall letter, letter ∈ text -> Text.isDigit letter = true

/-- The digits before the point.  Only a lone zero may begin with one. -/
def IsWhole (text : Text) : Prop :=
  IsDigits text ∧ (text.head? = some '0' -> text = ['0'])

/-- How the sign of a number is written. -/
def signText (negative : Bool) : Text :=
  if negative then ['-'] else []

/-- How the point and the digits after it are written. -/
inductive SpellsFraction : Option Text -> Text -> Prop
  | missing : SpellsFraction none []
  | digits {digits : Text} (isDigits : IsDigits digits) :
      SpellsFraction (some digits) ('.' :: digits)

/-- How the exponent is written. -/
inductive SpellsExponent : Option (Bool × Text) -> Text -> Prop
  | missing : SpellsExponent none []
  | unsigned {mark : Char} {digits : Text} (isMark : mark ∈ ['e', 'E'])
      (isDigits : IsDigits digits) : SpellsExponent (some (false, digits)) (mark :: digits)
  | plus {mark : Char} {digits : Text} (isMark : mark ∈ ['e', 'E'])
      (isDigits : IsDigits digits) : SpellsExponent (some (false, digits)) (mark :: '+' :: digits)
  | minus {mark : Char} {digits : Text} (isMark : mark ∈ ['e', 'E'])
      (isDigits : IsDigits digits) : SpellsExponent (some (true, digits)) (mark :: '-' :: digits)

/-- How a number is written. -/
inductive SpellsNumber : NumberSpelling -> Text -> Prop
  | intro {negative : Bool} {whole fractionText exponentText : Text} {fraction : Option Text}
      {exponent : Option (Bool × Text)} (isWhole : IsWhole whole)
      (isFraction : SpellsFraction fraction fractionText)
      (isExponent : SpellsExponent exponent exponentText) :
      SpellsNumber ⟨negative, whole, fraction, exponent⟩
        (signText negative ++ (whole ++ (fractionText ++ exponentText)))

/-- A text that neither begins with a digit nor with one of the given marks. -/
def Stops (marks rest : Text) : Prop :=
  forall letter, rest.head? = some letter -> Text.isDigit letter = false ∧ letter ∉ marks

theorem stops_cons {marks : Text} {letter : Char} (other : Text.isDigit letter = false)
    (unmarked : letter ∉ marks) (rest : Text) : Stops marks (letter :: rest) := by
  intro first same
  cases same
  exact ⟨other, unmarked⟩

theorem Stops.mono {marks fewer rest : Text} (stops : Stops marks rest) (within : fewer ⊆ marks) :
    Stops fewer rest :=
  fun letter first => ⟨(stops letter first).1, fun mark => (stops letter first).2 (within mark)⟩

/-- A row of digits begins with a digit. -/
theorem IsDigits.isDigit_head {digits rest behind : Text} {letter : Char}
    (isDigits : IsDigits digits) (same : digits ++ rest = letter :: behind) :
    Text.isDigit letter = true := by
  cases digits with
  | nil => exact absurd rfl isDigits.1
  | cons first others => exact (List.cons.inj same).1 ▸ isDigits.2 first List.mem_cons_self

theorem readDigits_append {digits rest : Text} (isDigits : IsDigits digits)
    (stops : Stops [] rest) : readDigits (digits ++ rest) = some (digits, rest) := by
  have restFront : rest.takeWhile Text.isDigit = [] ∧ rest.dropWhile Text.isDigit = rest := by
    cases rest with
    | nil => exact ⟨rfl, rfl⟩
    | cons letter rest =>
        rw [List.takeWhile_cons, List.dropWhile_cons, (stops letter rfl).1]
        exact ⟨rfl, rfl⟩
  rw [readDigits, List.takeWhile_append_of_pos isDigits.2,
    List.dropWhile_append_of_pos isDigits.2, restFront.1, restFront.2, List.append_nil]
  cases digits with
  | nil => exact absurd rfl isDigits.1
  | cons letter digits => rfl

theorem isDigits_of_readDigits {text digits rest : Text}
    (read : readDigits text = some (digits, rest)) : text = digits ++ rest ∧ IsDigits digits := by
  rw [readDigits] at read
  split at read
  · cases read
  · next nonempty =>
      cases read
      exact ⟨List.takeWhile_append_dropWhile.symm, nonempty,
        List.all_eq_true.mp List.all_takeWhile⟩

theorem readWhole_append {whole rest : Text} (isWhole : IsWhole whole) (stops : Stops [] rest) :
    readWhole (whole ++ rest) = some (whole, rest) := by
  have read := readDigits_append isWhole.1 stops
  rw [readWhole.eq_def]
  split
  · next behind same =>
      have zero : whole = ['0'] := by
        apply isWhole.2
        cases whole with
        | nil => exact absurd rfl isWhole.1.1
        | cons first others => exact congrArg some (List.cons.inj same).1
      subst zero
      exact congrArg (fun behind => some (['0'], behind)) (List.cons.inj same).2.symm
  · exact read

theorem isWhole_of_readWhole {text whole rest : Text}
    (read : readWhole text = some (whole, rest)) : text = whole ++ rest ∧ IsWhole whole := by
  rw [readWhole.eq_def] at read
  split at read
  · cases read
    exact ⟨rfl, ⟨List.cons_ne_nil _ _, List.forall_mem_singleton.mpr rfl⟩, fun _ => rfl⟩
  · next other =>
      rcases isDigits_of_readDigits read with ⟨rfl, isDigits⟩
      refine ⟨rfl, isDigits, ?_⟩
      intro zero
      cases whole with
      | nil => cases zero
      | cons first others =>
          cases zero
          exact absurd rfl (other (others ++ rest))

theorem readFraction_append {fraction : Option Text} {text rest : Text}
    (spells : SpellsFraction fraction text) (stops : Stops ['.'] rest) :
    readFraction (text ++ rest) = some (fraction, rest) := by
  cases spells with
  | missing =>
      rw [List.nil_append, readFraction.eq_def]
      split
      · exact absurd List.mem_cons_self (stops '.' rfl).2
      · rfl
  | digits isDigits =>
      rw [List.cons_append, readFraction,
        readDigits_append isDigits (stops.mono (List.nil_subset _))]
      rfl

theorem spellsFraction_of_readFraction {text rest : Text} {fraction : Option Text}
    (read : readFraction text = some (fraction, rest)) :
    exists inner, text = inner ++ rest ∧ SpellsFraction fraction inner := by
  rw [readFraction.eq_def] at read
  split at read
  · rcases exists_of_wrapped some read with ⟨digits, readBehind, rfl⟩
    rcases isDigits_of_readDigits readBehind with ⟨rfl, isDigits⟩
    exact ⟨_, rfl, .digits isDigits⟩
  · cases read
    exact ⟨[], rfl, .missing⟩

theorem isMark_iff {letter : Char} :
    (decide (letter = 'e') || decide (letter = 'E')) = true ↔ letter ∈ ['e', 'E'] := by
  simp only [List.mem_cons, List.not_mem_nil, or_false, Bool.or_eq_true, decide_eq_true_eq]

/-- The digits of an exponent with the sign in front of them. -/
theorem readExponent_mark {mark : Char} (isMark : mark ∈ ['e', 'E']) (rest : Text) :
    readExponent (mark :: rest) =
      match rest with
      | '-' :: rest => (readDigits rest).map fun read => (some (true, read.1), read.2)
      | '+' :: rest => (readDigits rest).map fun read => (some (false, read.1), read.2)
      | rest => (readDigits rest).map fun read => (some (false, read.1), read.2) := by
  rw [readExponent.eq_def]
  exact if_pos (isMark_iff.mpr isMark)

theorem readExponent_unmarked {letter : Char} (unmarked : letter ∉ ['e', 'E']) (rest : Text) :
    readExponent (letter :: rest) = some (none, letter :: rest) := by
  rw [readExponent.eq_def]
  exact if_neg fun mark => unmarked (isMark_iff.mp mark)

theorem readExponent_append {exponent : Option (Bool × Text)} {text rest : Text}
    (spells : SpellsExponent exponent text) (stops : Stops ['e', 'E'] rest) :
    readExponent (text ++ rest) = some (exponent, rest) := by
  have read := fun {digits : Text} (isDigits : IsDigits digits) =>
    readDigits_append isDigits (stops.mono (List.nil_subset _))
  cases spells with
  | missing =>
      cases rest with
      | nil => rfl
      | cons letter rest => exact readExponent_unmarked (stops letter rfl).2 rest
  | unsigned isMark isDigits =>
      rw [List.cons_append, readExponent_mark isMark]
      split
      · next same => cases isDigits.isDigit_head same
      · next same => cases isDigits.isDigit_head same
      · rw [read isDigits, Option.map_some]
  | plus isMark isDigits =>
      simp only [List.cons_append, readExponent_mark isMark, read isDigits, Option.map_some]
  | minus isMark isDigits =>
      simp only [List.cons_append, readExponent_mark isMark, read isDigits, Option.map_some]

theorem spellsExponent_of_readExponent {text rest : Text} {exponent : Option (Bool × Text)}
    (read : readExponent text = some (exponent, rest)) :
    exists inner, text = inner ++ rest ∧ SpellsExponent exponent inner := by
  have digits : forall {negative : Bool} {behind : Text},
      ((readDigits behind).map fun read => (some (negative, read.1), read.2)) =
        some (exponent, rest) ->
      exists digits, exponent = some (negative, digits) ∧ behind = digits ++ rest ∧
        IsDigits digits := by
    intro negative behind read
    rcases exists_of_wrapped (fun digits => some (negative, digits)) read with
      ⟨digits, readBehind, rfl⟩
    exact ⟨digits, rfl, isDigits_of_readDigits readBehind⟩
  cases text with
  | nil =>
      cases read
      exact ⟨[], rfl, .missing⟩
  | cons mark behind =>
      by_cases isMark : mark ∈ ['e', 'E']
      · rw [readExponent_mark isMark] at read
        split at read
        · rcases digits read with ⟨digits, rfl, rfl, isDigits⟩
          exact ⟨_, rfl, .minus isMark isDigits⟩
        · rcases digits read with ⟨digits, rfl, rfl, isDigits⟩
          exact ⟨_, rfl, .plus isMark isDigits⟩
        · rcases digits read with ⟨digits, rfl, rfl, isDigits⟩
          exact ⟨_, rfl, .unsigned isMark isDigits⟩
      · rw [readExponent_unmarked isMark] at read
        cases read
        exact ⟨[], rfl, .missing⟩

theorem SpellsExponent.stops {exponent : Option (Bool × Text)} {text rest : Text}
    (spells : SpellsExponent exponent text) (stops : Stops ['.', 'e', 'E'] rest) :
    Stops ['.'] (text ++ rest) := by
  have mark : forall {mark : Char} {behind : Text}, mark ∈ ['e', 'E'] ->
      Stops ['.'] (mark :: behind) := by
    intro mark behind isMark
    simp only [List.mem_cons, List.not_mem_nil, or_false] at isMark
    rcases isMark with rfl | rfl <;> exact stops_cons (by decide) (by decide) _
  cases spells with
  | missing => exact stops.mono (by decide)
  | unsigned isMark _ | plus isMark _ | minus isMark _ => exact mark isMark

theorem SpellsFraction.stops {fraction : Option Text} {text rest : Text}
    (spells : SpellsFraction fraction text) (stops : Stops ['.'] rest) :
    Stops [] (text ++ rest) := by
  cases spells with
  | missing => exact stops.mono (List.nil_subset _)
  | digits _ => exact stops_cons (by decide) List.not_mem_nil _

/-- A number is read up to where it ends, if nothing follows that would continue it. -/
theorem readNumber_append {spelling : NumberSpelling} {text rest : Text}
    (spells : SpellsNumber spelling text) (stops : Stops ['.', 'e', 'E'] rest) :
    readNumber (text ++ rest) = some (spelling, rest) := by
  cases spells with
  | @intro negative whole fractionText exponentText fraction exponent isWhole isFraction
      isExponent =>
      have exponentStops := isExponent.stops stops
      have unsigned : readUnsigned negative (whole ++ (fractionText ++ (exponentText ++ rest))) =
          some (⟨negative, whole, fraction, exponent⟩, rest) := by
        rw [readUnsigned, readWhole_append isWhole (isFraction.stops exponentStops),
          Option.bind_some, readFraction_append isFraction exponentStops, Option.bind_some,
          readExponent_append isExponent (stops.mono (by decide)), Option.map_some]
      simp only [List.append_assoc]
      cases negative with
      | true => exact unsigned
      | false =>
          rw [signText, if_neg Bool.false_ne_true, List.nil_append, readNumber.eq_def]
          split
          · next same => cases isWhole.1.isDigit_head same
          · exact unsigned

theorem spellsNumber_of_readNumber {text rest : Text} {spelling : NumberSpelling}
    (read : readNumber text = some (spelling, rest)) :
    exists inner, text = inner ++ rest ∧ SpellsNumber spelling inner := by
  have unsigned : forall {negative : Bool} {text : Text},
      readUnsigned negative text = some (spelling, rest) ->
      exists inner, signText negative ++ text = inner ++ rest ∧ SpellsNumber spelling inner := by
    intro negative text read
    rcases Option.bind_eq_some_iff.mp read with ⟨⟨whole, afterWhole⟩, readWhole, read⟩
    rcases Option.bind_eq_some_iff.mp read with ⟨⟨fraction, afterFraction⟩, readFraction, read⟩
    rcases Option.map_eq_some_iff.mp read with ⟨⟨exponent, afterExponent⟩, readExponent, same⟩
    cases same
    rcases isWhole_of_readWhole readWhole with ⟨rfl, isWhole⟩
    rcases spellsFraction_of_readFraction readFraction with ⟨_, rfl, isFraction⟩
    rcases spellsExponent_of_readExponent readExponent with ⟨_, rfl, isExponent⟩
    exact ⟨_, by simp only [List.append_assoc], .intro isWhole isFraction isExponent⟩
  rw [readNumber.eq_def] at read
  split at read
  · exact unsigned read
  · exact unsigned read

end Json
end BuildInputs

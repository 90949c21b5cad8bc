import BuildInputs.Proofs.Json.Tokens

namespace BuildInputs
namespace Json

/-!
# The grammar of JSON

A value is a word, a number, a string, or brackets or braces with its parts between them.  Values
and keys may have blanks on both sides, and nothing else may be left out, added or repeated.

The reader decides this grammar: it finds in a text the one document that the text spells, and
nothing in any other.  In one direction the proof follows the grammar, and the steps that the reader
is given are measured against the length of the text.  In the other it follows the reader, step by
step.
-/

/-- A key with the blanks around it. -/
inductive SpellsKey : List Letter -> Text -> Prop
  | intro {key : List Letter} {before inner after : Text} (blanksBefore : IsBlanks before)
      (letters : SpellsLetters key inner) (blanksAfter : IsBlanks after) :
      SpellsKey key (before ++ '"' :: (inner ++ '"' :: after))

mutual

/-- A text spells a document: it is that of a value, with blanks around it. -/
inductive Spells : Spelled -> Text -> Prop
  | intro {document : Spelled} {before inner after : Text} (blanksBefore : IsBlanks before)
      (value : SpellsValue document inner) (blanksAfter : IsBlanks after) :
      Spells document (before ++ (inner ++ after))

/-- The text of a value without blanks around it. -/
inductive SpellsValue : Spelled -> Text -> Prop
  | null : SpellsValue .null "null".toList
  | isTrue : SpellsValue (.bool true) "true".toList
  | isFalse : SpellsValue (.bool false) "false".toList
  | number {spelling : NumberSpelling} {text : Text} (number : SpellsNumber spelling text) :
      SpellsValue (.number spelling) text
  | string {letters : List Letter} {text : Text} (string : SpellsLetters letters text) :
      SpellsValue (.string letters) ('"' :: (text ++ ['"']))
  | emptyArray {blanks : Text} (allBlank : IsBlanks blanks) :
      SpellsValue (.array []) ('[' :: (blanks ++ [']']))
  | array {items : List Spelled} {text : Text} (between : SpellsItems items text) :
      SpellsValue (.array items) ('[' :: (text ++ [']']))
  | emptyObject {blanks : Text} (allBlank : IsBlanks blanks) :
      SpellsValue (.object []) ('\x7b' :: (blanks ++ ['\x7d']))
  | object {fields : List (List Letter × Spelled)} {text : Text}
      (between : SpellsFields fields text) :
      SpellsValue (.object fields) ('\x7b' :: (text ++ ['\x7d']))

/-- The text between the brackets of an array, unless it is empty. -/
inductive SpellsItems : List Spelled -> Text -> Prop
  | last {item : Spelled} {text : Text} (value : Spells item text) : SpellsItems [item] text
  | more {item : Spelled} {items : List Spelled} {text further : Text}
      (value : Spells item text) (others : SpellsItems items further) :
      SpellsItems (item :: items) (text ++ ',' :: further)

/-- The text between the braces of an object, unless it is empty. -/
inductive SpellsFields : List (List Letter × Spelled) -> Text -> Prop
  | last {key : List Letter} {value : Spelled} {name text : Text} (isKey : SpellsKey key name)
      (isValue : Spells value text) : SpellsFields [(key, value)] (name ++ ':' :: text)
  | more {key : List Letter} {value : Spelled} {fields : List (List Letter × Spelled)}
      {name text further : Text} (isKey : SpellsKey key name) (isValue : Spells value text)
      (others : SpellsFields fields further) :
      SpellsFields ((key, value) :: fields) (name ++ ':' :: (text ++ ',' :: further))

end

theorem enclose_append (opening closing : Char) (inner rest : Text) :
    opening :: (inner ++ closing :: rest) = opening :: (inner ++ [closing]) ++ rest := by
  rw [List.cons_append, List.append_assoc, List.singleton_append]

/-! ## How values begin -/

/-- A character that begins a number begins nothing else. -/
theorem ne_of_number {first : Char} (begins : first = '-' ∨ Text.isDigit first = true) :
    forall other, other ∈ ['"', '[', ']', '\x7b', 'n', 't', 'f', ' ', '\t', '\n', '\r'] ->
      first ≠ other := by
  rintro other listed rfl
  have none : ['"', '[', ']', '\x7b', 'n', 't', 'f', ' ', '\t', '\n', '\r'].all
      (fun other => !(decide (other = '-') || Text.isDigit other)) = true := by
    decide
  have neither := List.all_eq_true.mp none first listed
  rw [Bool.not_eq_true', Bool.or_eq_false_iff, decide_eq_false_iff_not] at neither
  rcases begins with minus | digit
  · exact neither.1 minus
  · rw [digit] at neither
    cases neither.2

theorem isBlank_of_number {first : Char} (begins : first = '-' ∨ Text.isDigit first = true) :
    isBlank first = false := by
  have others := ne_of_number begins
  simp only [isBlank, Bool.or_eq_false_iff, decide_eq_false_iff_not]
  exact ⟨⟨⟨others ' ' (by decide), others '\t' (by decide)⟩, others '\n' (by decide)⟩,
    others '\r' (by decide)⟩

theorem SpellsNumber.head {spelling : NumberSpelling} {text : Text}
    (spells : SpellsNumber spelling text) :
    exists first others, text = first :: others ∧
      (first = '-' ∨ Text.isDigit first = true) := by
  cases spells with
  | @intro negative whole fractionText exponentText fraction exponent isWhole _ _ =>
      cases negative with
      | true => exact ⟨_, _, rfl, Or.inl rfl⟩
      | false =>
          cases whole with
          | nil => exact absurd rfl isWhole.1.1
          | cons first others =>
              exact ⟨first, _, rfl, Or.inr (isWhole.1.2 first List.mem_cons_self)⟩

/-- The text of a value begins with a character that is no blank and closes no array. -/
theorem SpellsValue.head {document : Spelled} {text : Text} (spells : SpellsValue document text) :
    exists first others, text = first :: others ∧ isBlank first = false ∧ first ≠ ']' := by
  cases spells with
  | number number =>
      rcases number.head with ⟨first, others, rfl, begins⟩
      exact ⟨first, others, rfl, isBlank_of_number begins, ne_of_number begins ']' (by decide)⟩
  | _ => exact ⟨_, _, rfl, rfl, by decide⟩

theorem Spells.head {document : Spelled} {text : Text} (spells : Spells document text)
    (rest : Text) :
    exists first others, skipBlanks (text ++ rest) = first :: others ∧ first ≠ ']' := by
  cases spells with
  | @intro _ before inner after blanksBefore value _ =>
      rcases value.head with ⟨first, others, rfl, visible, opens⟩
      refine ⟨first, others ++ (after ++ rest), ?_, opens⟩
      simp only [List.append_assoc, List.cons_append]
      rw [skipBlanks_append blanksBefore, skipBlanks_cons visible]

theorem SpellsItems.head {items : List Spelled} {text : Text} (spells : SpellsItems items text)
    (rest : Text) :
    exists first others, skipBlanks (text ++ rest) = first :: others ∧ first ≠ ']' := by
  cases spells with
  | last value => exact value.head rest
  | more value _ =>
      rw [List.append_assoc]
      exact value.head _

/-- Where a key and the colon behind it end. -/
theorem SpellsKey.cut {key : List Letter} {name : Text} (spells : SpellsKey key name)
    (text : Text) : exists behind after, skipBlanks (name ++ ':' :: text) = '"' :: behind ∧
      readLetters behind = some (key, after) ∧ skipBlanks after = ':' :: text := by
  cases spells with
  | @intro before inner after blanksBefore letters blanksAfter =>
      refine ⟨inner ++ '"' :: (after ++ ':' :: text), after ++ ':' :: text, ?_, ?_, ?_⟩
      · simp only [List.append_assoc, List.cons_append]
        rw [skipBlanks_append blanksBefore, skipBlanks_cons rfl]
      · exact readLetters_eq_some_iff.mpr ⟨inner, rfl, letters⟩
      · rw [skipBlanks_append blanksAfter, skipBlanks_cons rfl]

theorem SpellsFields.head {fields : List (List Letter × Spelled)} {text : Text}
    (spells : SpellsFields fields text) (rest : Text) :
    exists others, skipBlanks (text ++ rest) = '"' :: others := by
  cases spells with
  | last isKey _ | more isKey _ _ =>
      rw [List.append_assoc]
      rcases isKey.cut _ with ⟨behind, -, quote, -⟩
      exact ⟨behind, quote⟩

/-! ## From the grammar to the reader -/

/-- What may follow a value with the blanks behind it: nothing, a comma or a closing bracket. -/
def Closes (rest : Text) : Prop :=
  forall letter, rest.head? = some letter -> letter ∈ [',', ']', '\x7d']

theorem closes_nil : Closes [] := by
  intro letter none
  cases none

theorem closes_cons {letter : Char} (listed : letter ∈ [',', ']', '\x7d']) (rest : Text) :
    Closes (letter :: rest) := by
  intro first same
  exact Option.some.inj same ▸ listed

theorem Closes.skipBlanks {rest : Text} (closes : Closes rest) : skipBlanks rest = rest := by
  cases rest with
  | nil => rfl
  | cons letter rest =>
      have listed := closes letter rfl
      simp only [List.mem_cons, List.not_mem_nil, or_false] at listed
      rcases listed with rfl | rfl | rfl <;> exact skipBlanks_cons rfl rest

/-- Neither a blank nor what closes a value continues a number. -/
theorem Closes.stops {blanks rest : Text} (closes : Closes rest) (allBlank : IsBlanks blanks) :
    Stops ['.', 'e', 'E'] (blanks ++ rest) := by
  cases blanks with
  | nil =>
      intro letter first
      have listed := closes letter first
      simp only [List.mem_cons, List.not_mem_nil, or_false] at listed
      rcases listed with rfl | rfl | rfl <;> decide
  | cons blank blanks =>
      have blank := allBlank blank List.mem_cons_self
      simp only [isBlank, Bool.or_eq_true, decide_eq_true_eq] at blank
      rcases blank with ((rfl | rfl) | rfl) | rfl <;> exact stops_cons (by decide) (by decide) _

theorem readValue_append {blanks : Text} (allBlank : IsBlanks blanks) (steps : Nat) (text : Text) :
    readValue steps (blanks ++ text) = readValue steps text := by
  cases steps with
  | zero => rfl
  | succ steps => rw [readValue, readValue, skipBlanks_append allBlank]

/-- A value is read with the blanks in front of it, and those behind it are left. -/
theorem exists_readValue {steps : Nat} {document : Spelled} {text rest : Text}
    (spells : Spells document text) (closes : Closes rest)
    (enough : 2 * text.length ≤ steps + 1)
    (value : forall {inner behind}, SpellsValue document inner -> Stops ['.', 'e', 'E'] behind ->
      2 * inner.length ≤ steps + 1 ->
      readValue steps (inner ++ behind) = some (document, behind)) :
    exists behind, readValue steps (text ++ rest) = some (document, behind) ∧
      skipBlanks behind = rest := by
  cases spells with
  | @intro _ before inner after blanksBefore isValue blanksAfter =>
      simp only [List.length_append] at enough
      refine ⟨after ++ rest, ?_, (skipBlanks_append blanksAfter rest).trans closes.skipBlanks⟩
      rw [List.append_assoc, readValue_append blanksBefore, List.append_assoc]
      exact value isValue (closes.stops blanksAfter) (by omega)

theorem readValue_number {first : Char} (begins : first = '-' ∨ Text.isDigit first = true)
    (steps : Nat) (rest : Text) :
    readValue (steps + 1) (first :: rest) =
      (readNumber (first :: rest)).map fun read => (.number read.1, read.2) := by
  have others := ne_of_number begins
  rw [readValue, skipBlanks_cons (isBlank_of_number begins)]
  split
  · next same => cases same
  · next same => exact absurd (List.cons.inj same).1 (others _ (by decide))
  · next same => exact absurd (List.cons.inj same).1 (others _ (by decide))
  · next same => exact absurd (List.cons.inj same).1 (others _ (by decide))
  · next same => exact absurd (List.cons.inj same).1 (others _ (by decide))
  · next same => exact absurd (List.cons.inj same).1 (others _ (by decide))
  · next same => exact absurd (List.cons.inj same).1 (others _ (by decide))
  · rfl

theorem readItems_last {steps : Nat} {text behind rest : Text} {item : Spelled}
    (read : readValue steps text = some (item, behind))
    (closing : skipBlanks behind = ']' :: rest) :
    readItems (steps + 1) text = some ([item], rest) := by
  simp only [readItems, read, closing]

theorem readItems_more {steps : Nat} {text behind more rest : Text} {item : Spelled}
    {items : List Spelled} (read : readValue steps text = some (item, behind))
    (comma : skipBlanks behind = ',' :: more)
    (further : readItems steps more = some (items, rest)) :
    readItems (steps + 1) text = some (item :: items, rest) := by
  simp only [readItems, read, comma, further, Option.map_some]

theorem readFields_last {steps : Nat} {key : List Letter} {name text behind rest : Text}
    {value : Spelled} (isKey : SpellsKey key name)
    (read : readValue steps text = some (value, behind))
    (closing : skipBlanks behind = '\x7d' :: rest) :
    readFields (steps + 1) (name ++ ':' :: text) = some ([(key, value)], rest) := by
  rcases isKey.cut text with ⟨quoted, after, quote, letters, colon⟩
  simp only [readFields, quote, letters, colon, read, closing]

theorem readFields_more {steps : Nat} {key : List Letter} {name text behind more rest : Text}
    {value : Spelled} {fields : List (List Letter × Spelled)} (isKey : SpellsKey key name)
    (read : readValue steps text = some (value, behind)) (comma : skipBlanks behind = ',' :: more)
    (further : readFields steps more = some (fields, rest)) :
    readFields (steps + 1) (name ++ ':' :: text) = some ((key, value) :: fields, rest) := by
  rcases isKey.cut text with ⟨quoted, after, quote, letters, colon⟩
  simp only [readFields, quote, letters, colon, read, comma, further, Option.map_some]

/-- An array whose items are read. -/
theorem readValue_array {steps : Nat} {text rest : Text} {items : List Spelled}
    (opens : exists first others, skipBlanks text = first :: others ∧ first ≠ ']')
    (read : readItems steps text = some (items, rest)) :
    readValue (steps + 1) ('[' :: text) = some (.array items, rest) := by
  rcases opens with ⟨first, others, begins, opens⟩
  rw [readValue, skipBlanks_cons rfl]
  simp only [begins, read, Option.map_some]
  split
  · next same => exact absurd (List.cons.inj same).1 opens
  · rfl

/-- An object whose fields are read. -/
theorem readValue_object {steps : Nat} {text rest : Text} {fields : List (List Letter × Spelled)}
    (opens : exists others, skipBlanks text = '"' :: others)
    (read : readFields steps text = some (fields, rest)) :
    readValue (steps + 1) ('\x7b' :: text) = some (.object fields, rest) := by
  rcases opens with ⟨others, begins⟩
  rw [readValue, skipBlanks_cons rfl]
  simp only [begins, read, Option.map_some]
  rfl

mutual

-- The recursion is on the steps and not on the grammar, where the blanks around a value make a
-- layer of their own for which the reader takes no step.

/-- The text of a value is read up to its end. -/
theorem readValue_of_spells : forall {steps : Nat} {document : Spelled} {text rest : Text},
    SpellsValue document text -> Stops ['.', 'e', 'E'] rest -> 2 * text.length ≤ steps + 1 ->
    readValue steps (text ++ rest) = some (document, rest)
  | 0, _, _, _, spells, _, enough => by
      rcases spells.head with ⟨first, others, rfl, -⟩
      rw [List.length_cons] at enough
      omega
  | steps + 1, _, _, rest, spells, stops, enough => by
      cases spells with
      | null | isTrue | isFalse => rfl
      | number number =>
          have read := readNumber_append number stops
          rcases number.head with ⟨first, others, rfl, begins⟩
          rw [List.cons_append] at read ⊢
          rw [readValue_number begins, read]
          rfl
      | @string letters text string =>
          have quoted : readLetters (text ++ '"' :: rest) = some (letters, rest) :=
            readLetters_eq_some_iff.mpr ⟨text, rfl, string⟩
          rw [← enclose_append, readValue, skipBlanks_cons rfl]
          simp only [quoted, Option.map_some]
      | @emptyArray blanks allBlank =>
          have closing : skipBlanks (blanks ++ ']' :: rest) = ']' :: rest :=
            (skipBlanks_append allBlank _).trans (skipBlanks_cons rfl rest)
          rw [← enclose_append, readValue, skipBlanks_cons rfl]
          simp only [closing]
      | @emptyObject blanks allBlank =>
          have closing : skipBlanks (blanks ++ '\x7d' :: rest) = '\x7d' :: rest :=
            (skipBlanks_append allBlank _).trans (skipBlanks_cons rfl rest)
          rw [← enclose_append, readValue, skipBlanks_cons rfl]
          simp only [closing]
      | array between =>
          simp only [List.length_cons, List.length_append, List.length_nil] at enough
          rw [← enclose_append]
          exact readValue_array (between.head _) (readItems_of_spells between (by omega))
      | object between =>
          simp only [List.length_cons, List.length_append, List.length_nil] at enough
          rw [← enclose_append]
          exact readValue_object (between.head _) (readFields_of_spells between (by omega))

/-- The items of an array are read together with the bracket behind them. -/
theorem readItems_of_spells : forall {steps : Nat} {items : List Spelled} {text rest : Text},
    SpellsItems items text -> 2 * text.length ≤ steps ->
    readItems steps (text ++ ']' :: rest) = some (items, rest)
  | 0, _, text, _, spells, enough => by
      rcases spells.head [] with ⟨first, others, begins, -⟩
      have empty : text = [] := List.length_eq_zero_iff.mp (by omega)
      subst empty
      cases begins
  | steps + 1, _, _, rest, spells, enough => by
      cases spells with
      | last value =>
          have closes : Closes (']' :: rest) := closes_cons (by decide) rest
          rcases exists_readValue value closes enough
            (fun isValue => readValue_of_spells isValue) with ⟨behind, read, closing⟩
          exact readItems_last read closing
      | @more _ _ text further value others =>
          rw [List.length_append, List.length_cons] at enough
          have closes : Closes (',' :: (further ++ ']' :: rest)) := closes_cons (by decide) _
          have valueEnough : 2 * text.length ≤ steps + 1 := by omega
          rcases exists_readValue value closes valueEnough
            (fun isValue => readValue_of_spells isValue) with ⟨behind, read, comma⟩
          rw [List.append_assoc, List.cons_append]
          exact readItems_more read comma (readItems_of_spells others (by omega))

/-- The fields of an object are read together with the brace behind them. -/
theorem readFields_of_spells : forall {steps : Nat} {fields : List (List Letter × Spelled)}
    {text rest : Text}, SpellsFields fields text -> 2 * text.length ≤ steps ->
    readFields steps (text ++ '\x7d' :: rest) = some (fields, rest)
  | 0, _, text, _, spells, enough => by
      rcases spells.head [] with ⟨others, begins⟩
      have empty : text = [] := List.length_eq_zero_iff.mp (by omega)
      subst empty
      cases begins
  | steps + 1, _, _, rest, spells, enough => by
      cases spells with
      | @last _ _ _ text isKey isValue =>
          rw [List.length_append, List.length_cons] at enough
          have closes : Closes ('\x7d' :: rest) := closes_cons (by decide) rest
          have valueEnough : 2 * text.length ≤ steps + 1 := by omega
          rcases exists_readValue isValue closes valueEnough
            (fun isValue => readValue_of_spells isValue) with ⟨behind, read, closing⟩
          rw [List.append_assoc, List.cons_append]
          exact readFields_last isKey read closing
      | @more _ _ _ _ text further isKey isValue others =>
          simp only [List.length_append, List.length_cons] at enough
          have closes : Closes (',' :: (further ++ '\x7d' :: rest)) := closes_cons (by decide) _
          have valueEnough : 2 * text.length ≤ steps + 1 := by omega
          rcases exists_readValue isValue closes valueEnough
            (fun isValue => readValue_of_spells isValue) with ⟨behind, read, comma⟩
          simp only [List.append_assoc, List.cons_append]
          exact readFields_more isKey read comma (readFields_of_spells others (by omega))

end

/-! ## From the reader to the grammar -/

/-- A value that is read is spelled together with the blanks on both sides of it. -/
theorem exists_spells {document : Spelled} {text inner behind : Text}
    (value : SpellsValue document inner) (split : skipBlanks text = inner ++ behind) :
    exists whole, text = whole ++ skipBlanks behind ∧ Spells document whole := by
  rcases exists_blanks text with ⟨before, textSplit, blanksBefore⟩
  rcases exists_blanks behind with ⟨after, behindSplit, blanksAfter⟩
  refine ⟨before ++ (inner ++ after), ?_, .intro blanksBefore value blanksAfter⟩
  calc
    text = before ++ (inner ++ behind) := split ▸ textSplit
    _ = before ++ (inner ++ (after ++ skipBlanks behind)) := by rw [← behindSplit]
    _ = before ++ (inner ++ after) ++ skipBlanks behind := by simp only [List.append_assoc]

theorem eq_append_of_afterWord {word text rest : Text} {meant document : Spelled}
    (read : ((afterWord word text).map fun rest => (meant, rest)) = some (document, rest)) :
    text = word ++ rest ∧ document = meant := by
  rcases Option.map_eq_some_iff.mp read with ⟨behind, wordRead, same⟩
  cases same
  rw [afterWord] at wordRead
  split at wordRead
  · next front =>
      cases wordRead
      exact ⟨(List.prefix_iff_eq_append.mp (List.isPrefixOf_iff_prefix.mp front)).symm, rfl⟩
  · cases wordRead

mutual

/-- A value that is read is one that the grammar allows. -/
theorem spells_of_readValue : forall {steps : Nat} {text rest : Text} {document : Spelled},
    readValue steps text = some (document, rest) ->
    exists inner, skipBlanks text = inner ++ rest ∧ SpellsValue document inner
  | 0, _, _, _, read => by cases read
  | steps + 1, text, rest, document, read => by
      rw [readValue] at read
      generalize skipBlanks text = visible at read ⊢
      split at read
      · cases read
      · next behind =>
          rcases exists_of_wrapped Spelled.string read with ⟨letters, lettersRead, rfl⟩
          rcases readLetters_eq_some_iff.mp lettersRead with ⟨inner, rfl, letters⟩
          exact ⟨_, enclose_append _ _ inner rest, .string letters⟩
      · next behind =>
          rcases exists_blanks behind with ⟨blanks, split, allBlank⟩
          split at read
          · next after closing =>
              cases read
              rw [split, closing]
              exact ⟨_, enclose_append _ _ blanks rest, .emptyArray allBlank⟩
          · rcases exists_of_wrapped Spelled.array read with ⟨items, itemsRead, rfl⟩
            rcases spells_of_readItems itemsRead with ⟨inner, rfl, items⟩
            exact ⟨_, enclose_append _ _ inner rest, .array items⟩
      · next behind =>
          rcases exists_blanks behind with ⟨blanks, split, allBlank⟩
          split at read
          · next after closing =>
              cases read
              rw [split, closing]
              exact ⟨_, enclose_append _ _ blanks rest, .emptyObject allBlank⟩
          · rcases exists_of_wrapped Spelled.object read with ⟨fields, fieldsRead, rfl⟩
            rcases spells_of_readFields fieldsRead with ⟨inner, rfl, fields⟩
            exact ⟨_, enclose_append _ _ inner rest, .object fields⟩
      · next behind =>
          rcases eq_append_of_afterWord read with ⟨rfl, rfl⟩
          exact ⟨_, rfl, .null⟩
      · next behind =>
          rcases eq_append_of_afterWord read with ⟨rfl, rfl⟩
          exact ⟨_, rfl, .isTrue⟩
      · next behind =>
          rcases eq_append_of_afterWord read with ⟨rfl, rfl⟩
          exact ⟨_, rfl, .isFalse⟩
      · rcases exists_of_wrapped Spelled.number read with ⟨spelling, numberRead, rfl⟩
        rcases spellsNumber_of_readNumber numberRead with ⟨inner, split, number⟩
        exact ⟨inner, split, .number number⟩

/-- Items that are read are such that the grammar allows, and a bracket is behind them. -/
theorem spells_of_readItems : forall {steps : Nat} {text rest : Text} {items : List Spelled},
    readItems steps text = some (items, rest) ->
    exists inner, text = inner ++ ']' :: rest ∧ SpellsItems items inner
  | 0, _, _, _, read => by cases read
  | steps + 1, text, rest, items, read => by
      rw [readItems] at read
      split at read
      · cases read
      · next item behind valueRead =>
          rcases spells_of_readValue valueRead with ⟨inner, split, value⟩
          rcases exists_spells value split with ⟨whole, rfl, spells⟩
          split at read
          · next after closing =>
              cases read
              exact ⟨whole, congrArg (whole ++ ·) closing, .last spells⟩
          · next more comma =>
              rcases exists_of_wrapped (item :: ·) read with ⟨others, othersRead, rfl⟩
              rcases spells_of_readItems othersRead with ⟨further, rfl, others⟩
              exact ⟨whole ++ ',' :: further, by simp [comma], .more spells others⟩
          · cases read

/-- Fields that are read are such that the grammar allows, and a brace is behind them. -/
theorem spells_of_readFields : forall {steps : Nat} {text rest : Text}
    {fields : List (List Letter × Spelled)}, readFields steps text = some (fields, rest) ->
    exists inner, text = inner ++ '\x7d' :: rest ∧ SpellsFields fields inner
  | 0, _, _, _, read => by cases read
  | steps + 1, text, rest, fields, read => by
      rcases exists_blanks text with ⟨before, textSplit, blanksBefore⟩
      rw [readFields] at read
      split at read
      · next behind quote =>
          split at read
          · cases read
          · next key afterKey keyRead =>
              rcases readLetters_eq_some_iff.mp keyRead with ⟨inner, rfl, letters⟩
              rcases exists_blanks afterKey with ⟨after, keySplit, blanksAfter⟩
              have isKey := SpellsKey.intro blanksBefore letters blanksAfter
              split at read
              · next afterColon colon =>
                  rw [quote, keySplit, colon] at textSplit
                  split at read
                  · cases read
                  · next value afterValue valueRead =>
                      rcases spells_of_readValue valueRead with ⟨inner, split, isValue⟩
                      rcases exists_spells isValue split with ⟨whole, rfl, spells⟩
                      split at read
                      · next rest closing =>
                          cases read
                          exact ⟨_, by simp [textSplit, closing], .last isKey spells⟩
                      · next more comma =>
                          rcases exists_of_wrapped ((key, value) :: ·) read with
                            ⟨others, othersRead, rfl⟩
                          rcases spells_of_readFields othersRead with ⟨further, rfl, others⟩
                          exact ⟨_, by simp [textSplit, comma], .more isKey spells others⟩
                      · cases read
              · cases read
      · cases read

end

/-- A text is read as the one document that it spells, and as none if it spells none. -/
theorem read_eq_some_iff {text : Text} {document : Spelled} :
    read text = some document ↔ Spells document text := by
  rw [read]
  constructor
  · intro isRead
    split at isRead
    · next found rest valueRead =>
        rcases spells_of_readValue valueRead with ⟨inner, split, value⟩
        rcases exists_spells value split with ⟨whole, rfl, spells⟩
        split at isRead
        · next nothing =>
            cases isRead
            rw [nothing, List.append_nil]
            exact spells
        · cases isRead
    · cases isRead
  · intro spells
    rcases exists_readValue spells closes_nil (Nat.le_succ_of_le (Nat.le_succ (2 * text.length)))
      (fun value => readValue_of_spells value) with ⟨behind, valueRead, nothing⟩
    rw [List.append_nil] at valueRead
    rw [valueRead]
    exact if_pos nothing

/-- A comma behind the last item is refused, and blanks make no difference. -/
example : (read "[1 ,]".toList).isNone = true ∧ (read " [1\t]\n".toList).isSome = true := by
  decide

end Json
end BuildInputs

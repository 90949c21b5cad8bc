import BuildInputs.Proofs.Json.Grammar
import BuildInputs.Proofs.Json.Integers
import BuildInputs.Proofs.Json.Letters

namespace BuildInputs
namespace Json

/-!
# Documents that are written and read

The reader finds in a written value exactly what was written, for every value without doubles.
The written text is one of those that the grammar allows for it, the one without blanks, and the
reader decides the grammar.
-/

mutual

/-- How the reader finds a value spelled after it was written, unless it holds a double. -/
def spell : Json -> Option Spelled
  | .null => some .null
  | .bool value => some (.bool value)
  | .number (.integer value) => some (.number (spellInteger value))
  | .number (.double _) => none
  | .string text => some (.string (spellText text))
  | .array items => (spellItems items).map .array
  | .object fields => (spellFields fields).map .object

/-- The spellings of items. -/
def spellItems : List Json -> Option (List Spelled)
  | [] => some []
  | item :: items =>
      (spell item).bind fun document => (spellItems items).map (document :: ·)

/-- The spellings of fields. -/
def spellFields : Fields -> Option (List (List Letter × Spelled))
  | [] => some []
  | (key, value) :: fields =>
      (spell value).bind fun document =>
        (spellFields fields).map ((spellText key, document) :: ·)

end

/-! ## What is written is in the grammar -/

theorem spellsKey_writeString (key : Text) : SpellsKey (spellText key) (writeString key) :=
  .intro isBlanks_nil (spellsLetters_write key) isBlanks_nil

/-- The text of a value is one with no blanks around it. -/
theorem SpellsValue.spells {document : Spelled} {text : Text} (spells : SpellsValue document text) :
    Spells document text := by
  have whole := Spells.intro isBlanks_nil spells isBlanks_nil
  rwa [List.nil_append, List.append_nil] at whole

mutual

/-- A written value spells the value. -/
theorem spellsValue_write : forall (value : Json) {document : Spelled},
    spell value = some document -> SpellsValue document (write value)
  | .null, _, spelled => by
      cases spelled
      exact .null
  | .bool true, _, spelled => by
      cases spelled
      exact .isTrue
  | .bool false, _, spelled => by
      cases spelled
      exact .isFalse
  | .number (.integer value), _, spelled => by
      cases spelled
      exact .number (spellsNumber_writeInteger value)
  | .number (.double _), _, spelled => by cases spelled
  | .string text, _, spelled => by
      cases spelled
      exact .string (spellsLetters_write text)
  | .array [], _, spelled => by
      cases spelled
      exact .emptyArray isBlanks_nil
  | .array (item :: items), _, spelled => by
      rcases Option.map_eq_some_iff.mp spelled with ⟨documents, itemsSpelled, rfl⟩
      exact .array (spellsItems_write item items itemsSpelled)
  | .object [], _, spelled => by
      cases spelled
      exact .emptyObject isBlanks_nil
  | .object ((key, value) :: fields), _, spelled => by
      rcases Option.map_eq_some_iff.mp spelled with ⟨documents, fieldsSpelled, rfl⟩
      exact .object (spellsFields_write key value fields fieldsSpelled)
termination_by value => sizeOf value

/-- Written items spell the items. -/
theorem spellsItems_write : forall (item : Json) (items : List Json) {documents : List Spelled},
    spellItems (item :: items) = some documents ->
    SpellsItems documents (writeItems (item :: items))
  | item, [], _, spelled => by
      rcases Option.bind_eq_some_iff.mp spelled with ⟨document, itemSpelled, same⟩
      cases same
      exact .last (spellsValue_write item itemSpelled).spells
  | item, next :: items, _, spelled => by
      rcases Option.bind_eq_some_iff.mp spelled with ⟨document, itemSpelled, further⟩
      rcases Option.map_eq_some_iff.mp further with ⟨others, othersSpelled, rfl⟩
      exact .more (spellsValue_write item itemSpelled).spells
        (spellsItems_write next items othersSpelled)
termination_by item items => sizeOf (item :: items)

/-- Written fields spell the fields. -/
theorem spellsFields_write : forall (key : Text) (value : Json) (fields : Fields)
    {documents : List (List Letter × Spelled)},
    spellFields ((key, value) :: fields) = some documents ->
    SpellsFields documents (writeFields ((key, value) :: fields))
  | key, value, [], _, spelled => by
      rcases Option.bind_eq_some_iff.mp spelled with ⟨document, valueSpelled, same⟩
      cases same
      exact .last (spellsKey_writeString key) (spellsValue_write value valueSpelled).spells
  | key, value, (nextKey, next) :: fields, _, spelled => by
      rcases Option.bind_eq_some_iff.mp spelled with ⟨document, valueSpelled, further⟩
      rcases Option.map_eq_some_iff.mp further with ⟨others, othersSpelled, rfl⟩
      rw [writeFields, List.append_assoc, List.cons_append]
      exact .more (spellsKey_writeString key) (spellsValue_write value valueSpelled).spells
        (spellsFields_write nextKey next fields othersSpelled)
termination_by key value fields => sizeOf ((key, value) :: fields)

end

/-- What was written is what is read. -/
theorem read_write {value : Json} {document : Spelled} (spelled : spell value = some document) :
    read (write value) = some document :=
  read_eq_some_iff.mpr (spellsValue_write value spelled).spells

end Json
end BuildInputs

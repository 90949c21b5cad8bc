import Mathlib.Data.List.Permutation
import BuildInputs.Package.Tree
import BuildInputs.Proofs.Json.Storing

namespace BuildInputs
namespace Package

/-!
# Package inputs that are stored as text

Reading an input never fails, because a text that is not JSON is taken for a type.  So it is not
enough that a written input is read: it has to be read as JSON, or it would come back wrapped up.
The main result says that it is, for every input that the reader could have met.  The written form
of what was read once is read as the same value from then on, whatever the first text was.
-/

theorem parse_of_parse {text : Text} {input : Json} (parsed : Json.parse text = some input) :
    parse text = input := by
  rw [parse, parsed]

/-- Whether or not a text is JSON, what is read from it repeats no key and does not nest deeper
than the reader goes. -/
theorem storable_parse (text : Text) :
    (parse text).KeysDistinct ∧ (parse text).NestsWithin Json.depthLimit := by
  cases parsed : Json.parse text with
  | some input =>
      rw [parse_of_parse parsed]
      exact Json.storable_of_parse parsed
  | none =>
      have wrapped : parse text = .object [(typeKey, .string text)] := by rw [parse, parsed]
      rw [wrapped, Json.keysDistinct_object, Json.nestsWithin_object]
      have flat : (Json.string text).NestsWithin 126 := Json.nestsWithin_leaf (fun _ => rfl) id
      refine ⟨⟨List.nodup_cons.mpr ⟨List.not_mem_nil, List.nodup_nil⟩, ?_⟩, 126, rfl, ?_⟩
      · simp
      · simpa using flat

/-- An input without doubles that nests at most 127 deep is read back from its text as it was, the
order of keys included, and from the text with sorted keys as it was but for that order.  What was
read from any text at all is such an input if it has no doubles.  Its written form is JSON, so that
it is not taken for a type, and gives the same input again. -/
theorem parse_write_stable :
    (forall input : Json, input.KeysDistinct -> input.IsExact -> input.NestsWithin 127 ->
      parse input.write = input ∧ Json.same (parse input.sorted.write) input = true) ∧
    forall text, (parse text).IsExact ->
      Json.parse (parse text).write = some (parse text) ∧
        parse (parse text).write = parse text := by
  refine ⟨?_, ?_⟩
  · intro input distinct exact nests
    have read := Json.parse_write distinct exact nests
    have sortedRead := Json.parse_write distinct.sorted exact.sorted nests.sorted
    refine ⟨parse_of_parse read, ?_⟩
    rw [parse_of_parse sortedRead]
    exact Json.same_sorted distinct
  · intro text exact
    rcases storable_parse text with ⟨distinct, nests⟩
    have read := Json.parse_write distinct exact nests
    exact ⟨read, parse_of_parse read⟩

/-- A text with blanks, a key that comes again and a control character. -/
def repeatedKey : Text :=
  " \x7b\"type\": \"rpm\", \"a\": [18446744073709551615],\n\"type\": \"\\u0001\"\x7d".toList

/-- What it spells. -/
def controlType : Json :=
  .object [(typeKey, .string ['\x01']),
    ("a".toList, .array [.number (.integer 18446744073709551615)])]

theorem parse_write_stable_repeatedKey :
    (controlType.KeysDistinct ∧ controlType.IsExact ∧ controlType.NestsWithin 127) ∧
      (parse controlType.write = controlType ∧
        Json.same (parse controlType.sorted.write) controlType = true) ∧
      parse repeatedKey = controlType ∧ (parse repeatedKey).IsExact ∧
      Json.parse (parse repeatedKey).write = some (parse repeatedKey) ∧
      parse (parse repeatedKey).write = parse repeatedKey := by
  have read : Json.read repeatedKey = some (.object [
      ("type".toList.map .plain, .string ("rpm".toList.map .plain)),
      ("a".toList.map .plain,
        .array [.number ⟨false, "18446744073709551615".toList, none, none⟩]),
      ("type".toList.map .plain, .string [.unit 1])]) := by
    cbv
  have parsed : parse repeatedKey = controlType := by
    apply parse_of_parse
    rw [Json.parse, read]
    rfl
  have storable := storable_parse repeatedKey
  rw [parsed] at storable
  have exact : controlType.IsExact := by
    simp only [controlType, Json.isExact_object, Json.isExact_array, Json.isExact_string,
      Json.isExact_number, List.forall_mem_cons, List.not_mem_nil, false_implies, implies_true,
      and_true, true_and]
    exact ⟨by decide, by decide⟩
  have exactParsed : (parse repeatedKey).IsExact := parsed.symm ▸ exact
  exact ⟨⟨storable.1, exact, storable.2⟩,
    parse_write_stable.1 controlType storable.1 exact storable.2, parsed, exactParsed,
    parse_write_stable.2 repeatedKey exactParsed⟩

end Package
end BuildInputs

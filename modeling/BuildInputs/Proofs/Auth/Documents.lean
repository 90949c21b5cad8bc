import Mathlib.Data.List.Permutation
import BuildInputs.Auth.Selection
import BuildInputs.Proofs.FileSystem.Writing
import BuildInputs.Proofs.Json.Grammar
import BuildInputs.Proofs.Json.Letters

namespace BuildInputs

/-!
# What auth files say

An auth file is read from any text that spells its document, with any blanks, escapes and members
of other names.  A name that comes again is treated in three ways.  A second member `auths` or
`auth` makes the file malformed, a second entry for a scope replaces the first, and of members with
other names there may be any number, whatever their values are.

The rows of a file are its scopes with their tokens, in the order in which they are written.
-/

open BuildInputs.Path (ofText)

namespace AuthFile

/-- The members of an object, as they are spelled. -/
abbrev Members := List (List Json.Letter × Json.Spelled)

/-- All members have names, and none of them the given one. -/
def Lacks (name : Text) (members : Members) : Prop :=
  forall member, member ∈ members -> exists other, Json.Means member.1 other ∧ other ≠ name

/-- One member has the name, and the given value.  The others have other names. -/
def HasSole (name : Text) (members : Members) (value : Json.Spelled) : Prop :=
  exists before letters after, members = before ++ (letters, value) :: after ∧
    Json.Means letters name ∧ Lacks name before ∧ Lacks name after

/-- Two members have the name, wherever they stand. -/
def Repeats (name : Text) (members : Members) : Prop :=
  exists before first between second after,
    members = before ++ first :: (between ++ second :: after) ∧
      Json.Means first.1 name ∧ Json.Means second.1 name

/-- What an entry says of its token, if it says anything. -/
inductive SpellsEntry : Option Text -> Json.Spelled -> Prop
  | silent {members : Members} (lacks : Lacks "auth".toList members) :
      SpellsEntry none (.object members)
  | token {members : Members} {letters : List Json.Letter} {token : Text}
      (sole : HasSole "auth".toList members (.string letters)) (means : Json.Means letters token) :
      SpellsEntry (some token) (.object members)

/-- The rows are spelled by the entries, one by one. -/
def SpellsRows (rows : List (Text × Option Text)) (entries : Members) : Prop :=
  List.Forall₂ (fun row entry => Json.Means entry.1 row.1 ∧ SpellsEntry row.2 entry.2) rows entries

/-- The last row for the scope gives the token, which is empty if the row gives none. -/
def GivesLast (rows : List (Text × Option Text)) (scope token : Text) : Prop :=
  exists before given after, rows = before ++ (scope, given) :: after ∧
    scope ∉ after.map Prod.fst ∧ token = given.getD []

/-! ## Members of an object -/

theorem lacks_nil (name : Text) : Lacks name [] :=
  fun _ none => absurd none List.not_mem_nil

theorem lacks_singleton {name other : Text} {letters : List Json.Letter}
    (means : Json.Means letters other) (different : other ≠ name) (value : Json.Spelled) :
    Lacks name [(letters, value)] :=
  List.forall_mem_singleton.mpr ⟨other, means, different⟩

theorem hasSole_singleton {name : Text} {letters : List Json.Letter}
    (means : Json.Means letters name) (value : Json.Spelled) :
    HasSole name [(letters, value)] value :=
  ⟨[], letters, [], rfl, means, lacks_nil name, lacks_nil name⟩

section

variable {name : Text} {members before after : Members} {letters : List Json.Letter}
  {value : Json.Spelled}

theorem valuesOf_append (name : Text) (members others : Members) :
    valuesOf name (members ++ others) =
      (valuesOf name members).bind fun front => (valuesOf name others).map (front ++ ·) := by
  induction members with
  | nil => simp [valuesOf]
  | cons member members ih =>
      rw [List.cons_append, valuesOf, ih, valuesOf]
      cases Json.decodeLetters member.1 with
      | none => rfl
      | some other =>
          cases valuesOf name members with
          | none => rfl
          | some front =>
              cases valuesOf name others with
              | none => rfl
              | some back =>
                  simp only [Option.bind_some, Option.map_some]
                  split <;> rfl

theorem valuesOf_cons (means : Json.Means letters name) (value : Json.Spelled)
    (members : Members) :
    valuesOf name ((letters, value) :: members) = (valuesOf name members).map (value :: ·) := by
  simp only [valuesOf, Json.decodeLetters_of_means means, Option.bind_some, if_true]

theorem valuesOf_of_lacks (lacks : Lacks name members) : valuesOf name members = some [] := by
  induction members with
  | nil => rfl
  | cons member members ih =>
      rcases lacks member List.mem_cons_self with ⟨other, means, different⟩
      rw [valuesOf, Json.decodeLetters_of_means means,
        ih fun member further => lacks member (List.mem_cons_of_mem _ further)]
      simp only [Option.bind_some, Option.map_some, if_neg different]

theorem soleField_of_lacks (lacks : Lacks name members) :
    soleField name (.object members) = some none := by
  rw [soleField, valuesOf_of_lacks lacks, Option.bind_some]

theorem soleField_of_hasSole (sole : HasSole name members value) :
    soleField name (.object members) = some (some value) := by
  rcases sole with ⟨before, letters, after, rfl, means, lacksBefore, lacksAfter⟩
  rw [soleField, valuesOf_append, valuesOf_of_lacks lacksBefore, valuesOf_cons means,
    valuesOf_of_lacks lacksAfter]
  rfl

/-- The values of a name around one of them. -/
theorem exists_valuesOf (means : Json.Means letters name) {values : List Json.Spelled}
    (collected : valuesOf name (before ++ (letters, value) :: after) = some values) :
    exists front back, valuesOf name after = some back ∧ values = front ++ value :: back := by
  rw [valuesOf_append, valuesOf_cons means] at collected
  rcases Option.bind_eq_some_iff.mp collected with ⟨front, -, collected⟩
  rw [Option.map_map] at collected
  rcases Option.map_eq_some_iff.mp collected with ⟨back, collectedBack, same⟩
  exact ⟨front, back, collectedBack, same.symm⟩

/-- If a name has a value and no other, it is the one that stands there. -/
theorem soleField_of_mem (means : Json.Means letters name) (member : (letters, value) ∈ members) :
    soleField name (.object members) = none ∨
      soleField name (.object members) = some (some value) := by
  rcases List.append_of_mem member with ⟨before, after, rfl⟩
  rw [soleField]
  cases collected : valuesOf name (before ++ (letters, value) :: after) with
  | none => exact .inl rfl
  | some values =>
      rcases exists_valuesOf means collected with ⟨front, back, -, rfl⟩
      rw [Option.bind_some]
      cases front with
      | nil =>
          cases back with
          | nil => exact .inr rfl
          | cons => exact .inl rfl
      | cons first front => cases front <;> exact .inl rfl

theorem soleField_of_repeats (repeats : Repeats name members) :
    soleField name (.object members) = none := by
  rcases repeats with ⟨before, first, between, second, after, rfl, meansFirst, meansSecond⟩
  rw [soleField]
  cases collected : valuesOf name (before ++ first :: (between ++ second :: after)) with
  | none => rfl
  | some values =>
      rcases exists_valuesOf meansFirst collected with ⟨front, back, collectedBack, rfl⟩
      rcases exists_valuesOf meansSecond collectedBack with ⟨middle, rest, -, rfl⟩
      rw [Option.bind_some]
      rcases front with - | ⟨head, - | ⟨next, front⟩⟩ <;> rcases middle with - | ⟨head, middle⟩ <;>
        rfl

end

/-! ## Entries and rows -/

theorem entryToken_of_spells {given : Option Text} {entry : Json.Spelled}
    (spells : SpellsEntry given entry) : entryToken entry = some (given.getD []) := by
  cases spells with
  | silent lacks =>
      rw [entryToken, soleField_of_lacks lacks]
      rfl
  | token sole means =>
      rw [entryToken, soleField_of_hasSole sole]
      exact Json.decodeLetters_of_means means

/-- Put rows into a file, from the left. -/
def insertRows (file : AuthFile) (rows : List (Text × Option Text)) : AuthFile :=
  rows.foldl (fun file row => file.insert row.1 (row.2.getD [])) file

theorem insertEntries_of_spells {rows : List (Text × Option Text)} {entries : Members}
    (spells : SpellsRows rows entries) (file : AuthFile) :
    insertEntries file entries = some (file.insertRows rows) := by
  induction spells generalizing file with
  | nil => rfl
  | cons first _ ih =>
      rw [insertEntries, Json.decodeLetters_of_means first.1, Option.bind_some,
        entryToken_of_spells first.2, Option.bind_some, ih]
      rfl

/-- One entry that cannot be read is enough. -/
theorem insertEntries_eq_none {entries : Members} {letters : List Json.Letter}
    {entry : Json.Spelled} (member : (letters, entry) ∈ entries)
    (unreadable : entryToken entry = none) (file : AuthFile) :
    insertEntries file entries = none := by
  induction entries generalizing file with
  | nil => cases member
  | cons first entries ih =>
      rw [insertEntries, Option.bind_eq_none_iff]
      intro scope _
      rw [Option.bind_eq_none_iff]
      intro token tokenRead
      rcases List.mem_cons.mp member with rfl | further
      · rw [unreadable] at tokenRead
        cases tokenRead
      · exact ih further _

section

variable {file : AuthFile} {scope other token : Text} {rows : List (Text × Option Text)}

theorem token?_insert (file : AuthFile) (scope token other : Text) :
    (file.insert scope token).token? other =
      if scope = other then some token else file.token? other := by
  rw [token?, insert, List.find?_cons]
  by_cases same : scope = other
  · rw [if_pos same, decide_eq_true same]
    rfl
  · rw [if_neg same, decide_eq_false same, token?, List.find?_filter]
    have kept : forall entry : Text × Text,
        decide (decide (entry.1 ≠ scope) = true ∧ decide (entry.1 = other) = true) =
          decide (entry.1 = other) := by
      intro entry
      rw [decide_eq_decide, decide_eq_true_eq, decide_eq_true_eq]
      exact and_iff_right_of_imp fun found is => same (is.symm.trans found)
    simp only [kept]

theorem nodup_insert (distinct : (file.scopes.map Prod.fst).Nodup) (scope token : Text) :
    ((file.insert scope token).scopes.map Prod.fst).Nodup := by
  rw [insert, List.map_cons, List.nodup_cons]
  refine ⟨?_, distinct.sublist (List.filter_sublist.map Prod.fst)⟩
  intro member
  rcases List.mem_map.mp member with ⟨entry, kept, same⟩
  exact of_decide_eq_true (List.mem_filter.mp kept).2 same

theorem nodup_insertRows (distinct : (file.scopes.map Prod.fst).Nodup)
    (rows : List (Text × Option Text)) :
    ((file.insertRows rows).scopes.map Prod.fst).Nodup := by
  induction rows generalizing file with
  | nil => exact distinct
  | cons row rows ih => exact ih (nodup_insert distinct row.1 (row.2.getD []))

theorem givesLast_cons_iff {given : Option Text} :
    GivesLast ((other, given) :: rows) scope token ↔
      GivesLast rows scope token ∨
        scope ∉ rows.map Prod.fst ∧ other = scope ∧ given.getD [] = token := by
  constructor
  · rintro ⟨before, decisive, after, whole, last, rfl⟩
    cases before with
    | nil =>
        cases whole
        exact .inr ⟨last, rfl, rfl⟩
    | cons row before =>
        cases whole
        exact .inl ⟨before, decisive, after, rfl, last, rfl⟩
  · rintro (⟨before, decisive, after, rfl, last, rfl⟩ | ⟨last, rfl, rfl⟩)
    · exact ⟨(other, given) :: before, decisive, after, rfl, last, rfl⟩
    · exact ⟨[], given, rows, rfl, last, rfl⟩

/-- The last row for a scope decides, and without one the file is as before. -/
theorem token?_insertRows : (file.insertRows rows).token? scope = some token ↔
    GivesLast rows scope token ∨
      scope ∉ rows.map Prod.fst ∧ file.token? scope = some token := by
  -- From the front: what a row puts into the file is what the rows behind it find there.
  induction rows generalizing file with
  | nil =>
      have none : ¬ GivesLast [] scope token := by
        rintro ⟨before, given, after, whole, -⟩
        exact absurd whole.symm (List.append_ne_nil_of_right_ne_nil before (List.cons_ne_nil _ _))
      rw [or_iff_right none]
      exact (and_iff_right List.not_mem_nil).symm
  | cons row rows ih =>
      rcases row with ⟨other, given⟩
      have step : file.insertRows ((other, given) :: rows) =
          (file.insert other (given.getD [])).insertRows rows :=
        rfl
      rw [step, ih, givesLast_cons_iff, or_assoc, token?_insert, List.map_cons]
      refine or_congr_right ?_
      by_cases same : other = scope
      · simp [same]
      · simp [same, Ne.symm same]

end

end AuthFile

namespace Auth

open AuthFile

/-- A file that holds the bytes of a text is loaded as what the text says. -/
theorem load_of_encode {workspace : Workspace} {path : Path} {text : Text} {file : AuthFile}
    (bytes : workspace.readBytes path = .ok (Utf8.encode text))
    (parsed : AuthFile.parse text = some file) : load workspace path = .ok file := by
  rw [load, Workspace.readText_of_encode bytes]
  dsimp only
  rw [parsed]

theorem load_of_spells {workspace : Workspace} {path : Path} {text : Text}
    {document : Json.Spelled} (readable : workspace.readText path = .ok text)
    (spells : Json.Spells document text) :
    load workspace path =
      ((AuthFile.ofSpelled document).map .ok).getD (.error (.authFileMalformed path)) := by
  rw [load, readable]
  dsimp only
  rw [AuthFile.parse, Json.read_eq_some_iff.mpr spells, Option.bind_some]
  cases AuthFile.ofSpelled document <;> rfl

/-- An auth file is what its text says, whichever way the text spells it.  Of the entries in its
member `auths` the last for each scope counts, and gives an empty token if it has no member `auth`.
Without that member it has no scopes.  It is malformed if the member comes again, or if one of its
entries has two members `auth`.  Members with other names make no difference. -/
theorem load_reads_entries {workspace : Workspace} {path : Path} {text : Text} {members : Members}
    (readable : workspace.readText path = .ok text)
    (spells : Json.Spells (.object members) text) :
    (forall entries rows, HasSole "auths".toList members (.object entries) ->
        SpellsRows rows entries ->
        exists file, load workspace path = .ok file ∧ (file.scopes.map Prod.fst).Nodup ∧
          forall scope token, file.token? scope = some token ↔ GivesLast rows scope token) ∧
      (Lacks "auths".toList members -> load workspace path = .ok AuthFile.empty) ∧
      (Repeats "auths".toList members -> load workspace path = .error (.authFileMalformed path)) ∧
      (forall letters entries scope fields, (letters, .object entries) ∈ members ->
        Json.Means letters "auths".toList -> (scope, .object fields) ∈ entries ->
        Repeats "auth".toList fields ->
        load workspace path = .error (.authFileMalformed path)) := by
  rw [load_of_spells readable spells, AuthFile.ofSpelled]
  refine ⟨?_, ?_, ?_, ?_⟩
  · intro entries rows sole rowsSpelled
    rw [soleField_of_hasSole sole, Option.bind_some]
    dsimp only
    rw [insertEntries_of_spells rowsSpelled]
    have distinct : (AuthFile.empty.scopes.map Prod.fst).Nodup := List.nodup_nil
    refine ⟨_, rfl, nodup_insertRows distinct rows, ?_⟩
    intro scope token
    rw [token?_insertRows]
    exact or_iff_left fun before => Option.some_ne_none token before.2.symm
  · intro lacks
    rw [soleField_of_lacks lacks]
    rfl
  · intro repeats
    rw [soleField_of_repeats repeats]
    rfl
  · intro letters entries scope fields member means entry repeats
    rcases soleField_of_mem means member with none | sole
    · rw [none]
      rfl
    · have unreadable : entryToken (.object fields) = none := by
        rw [entryToken, soleField_of_repeats repeats]
        rfl
      rw [sole, Option.bind_some]
      dsimp only
      rw [insertEntries_eq_none entry unreadable]
      rfl

/-- A workspace whose only file is an auth file with the given text. -/
def authFileOf (text : Text) : Workspace where
  files := ⟨[([⟨ofText "auth.json".toList, by decide⟩], .file (Utf8.encode text))]⟩
  directory := []

theorem readText_authFileOf (text : Text) :
    (authFileOf text).readText (ofText "auth.json".toList) = .ok text := by
  apply Workspace.readText_of_encode
  cbv

/-- The letters of a string without escapes. -/
def unescaped (text : Text) : List Json.Letter :=
  text.map .plain

theorem means_unescaped (text : Text) : Json.Means (unescaped text) text := by
  induction text with
  | nil => exact .nil
  | cons letter text ih => exact .plain ih

/-- Entries for two scopes.  The first scope comes again with its dot escaped, and then its token is
a character outside of the basic plane. -/
def sampleEntries : Members :=
  [(unescaped "quay.io".toList,
      .object [(unescaped "auth".toList, .string (unescaped "old".toList))]),
    (unescaped "ghcr.io".toList, .object [(unescaped "helper".toList, .null)]),
    (unescaped "quay".toList ++ .unit 46 :: unescaped "io".toList,
      .object [(unescaped "n".toList, .number ⟨true, "0".toList, none, none⟩),
        (unescaped "auth".toList, .string [.unit 0xd83d, .unit 0xde00])])]

/-- The entries among members of another name, which comes twice.  One of them holds half a
surrogate pair, and the other a further member `auths`. -/
def sampleMembers : Members :=
  [(unescaped "v".toList, .array [.string [.unit 0xd800]]),
    (unescaped "auths".toList, .object sampleEntries),
    (unescaped "v".toList, .object [(unescaped "auths".toList, .bool true)])]

def sampleText : Text :=
  "\n\x7b \"v\": [\"\\ud800\"], \"auths\" : \x7b\"quay.io\": \x7b\"auth\":\"old\"\x7d,".toList ++
    "\"ghcr.io\": \x7b\"helper\": null\x7d,".toList ++
    "\"quay\\u002eio\":\x7b\"n\":-0,\"auth\":\"\\uD83D\\ude00\"\x7d \x7d,".toList ++
    "\"v\": \x7b\"auths\": true\x7d\x7d".toList

theorem spells_sampleText : Json.Spells (.object sampleMembers) sampleText := by
  rw [← Json.read_eq_some_iff, sampleMembers, sampleEntries]
  cbv

/-- Members whose entry has two members `auth`. -/
def repeatingMembers : Members :=
  [(unescaped "auths".toList, .object [(unescaped "quay.io".toList,
    .object [(unescaped "auth".toList, .string []), (unescaped "auth".toList, .string [])])])]

def repeatingText : Text :=
  "\x7b\"auths\":\x7b\"quay.io\":\x7b\"auth\":\"\",\"auth\":\"\"\x7d\x7d\x7d".toList

theorem spells_repeatingText : Json.Spells (.object repeatingMembers) repeatingText := by
  rw [← Json.read_eq_some_iff, repeatingMembers]
  cbv

/-- The later token counts, and the missing one is empty.  One that is given twice is refused. -/
theorem load_reads_entries_sample :
    (exists file, load (authFileOf sampleText) (ofText "auth.json".toList) = .ok file ∧
      file.token? "quay.io".toList = some ['😀'] ∧ file.token? "ghcr.io".toList = some []) ∧
    load (authFileOf repeatingText) (ofText "auth.json".toList) =
      .error (.authFileMalformed (ofText "auth.json".toList)) := by
  have lacks : forall {name other value}, other ≠ name ->
      Lacks name [(unescaped other, value)] :=
    fun different => lacks_singleton (means_unescaped _) different _
  have sole : HasSole "auths".toList sampleMembers (.object sampleEntries) :=
    ⟨[_], _, [_], rfl, means_unescaped _, lacks (by decide), lacks (by decide)⟩
  have escaped : Json.Means (unescaped "quay".toList ++ .unit 46 :: unescaped "io".toList)
      "quay.io".toList :=
    .plain (.plain (.plain (.plain (@Json.Means.unit '.' _ _ (by decide)
      (means_unescaped "io".toList)))))
  have paired : Json.Means [.unit 0xd83d, .unit 0xde00] ['😀'] :=
    @Json.Means.pair '😀' _ _ (by decide) .nil
  have rows : SpellsRows [("quay.io".toList, some "old".toList), ("ghcr.io".toList, none),
      ("quay.io".toList, some ['😀'])] sampleEntries := by
    refine .cons ⟨means_unescaped _, .token ?_ (means_unescaped _)⟩
      (.cons ⟨means_unescaped _, .silent (lacks (by decide))⟩
        (.cons ⟨escaped, .token ?_ paired⟩ .nil))
    · exact hasSole_singleton (means_unescaped _) _
    · exact ⟨[_], _, [], rfl, means_unescaped _, lacks (by decide), lacks_nil _⟩
  rcases (load_reads_entries (readText_authFileOf _) spells_sampleText).1 _ _ sole rows with
    ⟨file, loaded, -, tokens⟩
  refine ⟨⟨file, loaded, (tokens _ _).mpr ?_, (tokens _ _).mpr ?_⟩, ?_⟩
  · exact ⟨[_, _], some ['😀'], [], rfl, List.not_mem_nil, rfl⟩
  · exact ⟨[_], none, [_], rfl, by decide, rfl⟩
  · exact (load_reads_entries (readText_authFileOf _) spells_repeatingText).2.2.2 _ _ _ _
      List.mem_cons_self (means_unescaped _) List.mem_cons_self
      ⟨[], _, [], _, [], rfl, means_unescaped _, means_unescaped _⟩

end Auth
end BuildInputs

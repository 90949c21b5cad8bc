import BuildInputs.Proofs.Image.Parts
import BuildInputs.Proofs.Text.Utf8
import BuildInputs.Proofs.Text.Words

namespace BuildInputs
namespace Image

open Text

/-!
# The grammar of names

A name is checked by what must not stand in it: ten runs of separators anywhere, and a separator
at either end of a part.  The main result is the grammar behind this list.  A part is a row of
words, with a full stop, a hyphen or one or two underscores between any two, and only the first of
several parts may be followed by a port.

That the list is long enough is seen by reading a part from the left.  A letter is followed by a
letter or by a separator, and of the pairs of separators only two underscores are allowed, which a
third may not follow.  That it is not too long is seen in one step: a run without letters that
stands in a row of words stands in one of the joints.
-/

/-- What may stand between two words of a part. -/
def joints : List Text :=
  [".".toList, "_".toList, "__".toList, "-".toList]

/-- One part of a name: words of lower-case letters and digits with joints between them. -/
abbrev IsNamePart (part : Text) : Prop :=
  IsRow isNameLetter joints part

/-- The end of a part that has none of the forbidden runs. -/
structure IsPartEnd (part : Text) : Prop where
  letters : part.all isPartLetter = true
  last : part.getLast?.any isNameLetter = true
  separate : forall run, run ∈ forbiddenRuns -> ¬ run <:+: part

/-! ## From the checks to words -/

section

variable {first second third : Char} {rest : Text}

theorem IsPartEnd.tail (isEnd : IsPartEnd (first :: second :: rest)) :
    IsPartEnd (second :: rest) where
  letters := (Bool.and_eq_true_iff.mp isEnd.letters).2
  last := by
    have last := isEnd.last
    rwa [List.getLast?_cons_cons] at last
  separate := fun run forbidden inside =>
    isEnd.separate run forbidden (List.infix_cons_iff.mpr (Or.inr inside))

/-- A part does not end with a separator. -/
theorem IsPartEnd.more (isEnd : IsPartEnd (first :: rest))
    (separator : isNameLetter first = false) : rest ≠ [] := by
  rintro rfl
  have last : isNameLetter first = true := isEnd.last
  rw [separator] at last
  cases last

theorem isSeparator_cases (isEnd : IsPartEnd (first :: rest))
    (separator : isNameLetter first = false) :
    first = '_' ∨ first = '.' ∨ first = '-' := by
  have letter : isPartLetter first = true := (Bool.and_eq_true_iff.mp isEnd.letters).1
  simpa [isPartLetter, separator, or_assoc] using letter

/-- The only pair of separators is a pair of underscores. -/
theorem IsPartEnd.underscores (isEnd : IsPartEnd (first :: second :: rest))
    (firstSeparator : isNameLetter first = false) (secondSeparator : isNameLetter second = false) :
    first = '_' ∧ second = '_' := by
  have allowed : [first, second] ∉ forbiddenRuns := fun forbidden =>
    isEnd.separate _ forbidden (List.prefix_append [first, second] rest).isInfix
  rcases isSeparator_cases isEnd firstSeparator with rfl | rfl | rfl <;>
    rcases isSeparator_cases isEnd.tail secondSeparator with rfl | rfl | rfl <;>
    first
    | exact ⟨rfl, rfl⟩
    | exact absurd (by decide) allowed

/-- No third separator follows. -/
theorem IsPartEnd.letter_of_underscores (isEnd : IsPartEnd ('_' :: '_' :: third :: rest)) :
    isNameLetter third = true := by
  apply Decidable.byContradiction
  intro refused
  obtain ⟨-, rfl⟩ := isEnd.tail.underscores rfl (Bool.eq_false_iff.mpr refused)
  have run : ['_', '_', '_'] ∈ forbiddenRuns := by decide
  exact isEnd.separate _ run (List.prefix_append ['_', '_', '_'] rest).isInfix

theorem mem_joints (isEnd : IsPartEnd (first :: rest)) (separator : isNameLetter first = false) :
    [first] ∈ joints := by
  rcases isSeparator_cases isEnd separator with rfl | rfl | rfl <;> decide

end

/-- A letter and what follows it in a part, read one letter or one joint at a time. -/
theorem isNamePart_of_isPartEnd : forall (first : Char) (rest : Text), IsPartEnd (first :: rest) ->
    isNameLetter first = true -> IsNamePart (first :: rest)
  | first, [], _, begins => .single begins
  | first, [second], isEnd, begins => .cons begins (.single isEnd.last)
  | first, second :: third :: rest, isEnd, begins => by
      by_cases secondLetter : isNameLetter second = true
      · exact .cons begins (isNamePart_of_isPartEnd second (third :: rest) isEnd.tail secondLetter)
      have secondSeparator := Bool.eq_false_iff.mpr secondLetter
      by_cases thirdLetter : isNameLetter third = true
      · exact .cons_joint begins (mem_joints isEnd.tail secondSeparator)
          (isNamePart_of_isPartEnd third rest isEnd.tail.tail thirdLetter)
      have thirdSeparator := Bool.eq_false_iff.mpr thirdLetter
      obtain ⟨rfl, rfl⟩ := isEnd.tail.underscores secondSeparator thirdSeparator
      match rest with
      | [] => exact absurd rfl (isEnd.tail.tail.more rfl)
      | fourth :: rest =>
          have fourthLetter := isEnd.tail.letter_of_underscores
          have isJoint : ['_', '_'] ∈ joints := by decide
          exact .cons_joint begins isJoint
            (isNamePart_of_isPartEnd fourth rest isEnd.tail.tail.tail fourthLetter)

/-! ## From words to the checks -/

theorem separators_of_mem_forbiddenRuns {run : Text} (forbidden : run ∈ forbiddenRuns) :
    run ≠ [] ∧ ':' ∉ run ∧ (run = "//".toList ∨ '/' ∉ run) ∧
      forall letter, letter ∈ run -> isNameLetter letter = false := by
  have nonempty : forall run, run ∈ forbiddenRuns -> run ≠ [] := by decide
  have noColon : forall run, run ∈ forbiddenRuns -> ':' ∉ run := by decide
  have slashes : forall run, run ∈ forbiddenRuns -> run = "//".toList ∨ '/' ∉ run := by decide
  have unlettered : forall run, run ∈ forbiddenRuns ->
      run.all (fun letter => !isNameLetter letter) = true := by
    decide
  refine ⟨nonempty run forbidden, noColon run forbidden, slashes run forbidden, ?_⟩
  intro letter member
  exact (Bool.not_eq_true' _).mp (List.all_eq_true.mp (unlettered run forbidden) letter member)

theorem not_infix_joint {run joint : Text} (forbidden : run ∈ forbiddenRuns)
    (isJoint : joint ∈ joints) : ¬ run <:+: joint := by
  have apart : forall run, run ∈ forbiddenRuns -> forall joint, joint ∈ joints ->
      ¬ run <:+: joint := by
    decide
  exact apart run forbidden joint isJoint

theorem not_infix_of_isNamePart {part run : Text} (isNamePart : IsNamePart part)
    (forbidden : run ∈ forbiddenRuns) : ¬ run <:+: part := by
  intro inside
  obtain ⟨nonempty, -, -, unlettered⟩ := separators_of_mem_forbiddenRuns forbidden
  obtain ⟨joint, isJoint, among⟩ := isNamePart.infix_joint nonempty unlettered inside
  exact not_infix_joint forbidden isJoint among

theorem all_isPartLetter {part : Text} (isNamePart : IsNamePart part) :
    part.all isPartLetter = true := by
  apply isNamePart.all
  · intro letter good
    simp only [isPartLetter, good, Bool.true_or]
  · decide

/-- A part passes the checks exactly if it is a row of words. -/
theorem isPart_iff {part : Text} :
    isPart part = true ∧ (forall run, run ∈ forbiddenRuns -> ¬ run <:+: part) ↔
      IsNamePart part := by
  constructor
  · rintro ⟨valid, separate⟩
    simp only [isPart, Bool.and_eq_true] at valid
    obtain ⟨⟨letters, head⟩, last⟩ := valid
    cases part with
    | nil => cases head
    | cons first rest => exact isNamePart_of_isPartEnd first rest ⟨letters, last, separate⟩ head
  · intro isNamePart
    refine ⟨?_, fun run => not_infix_of_isNamePart isNamePart⟩
    obtain ⟨first, rest, begins, firstLetter⟩ := isNamePart.exists_cons
    obtain ⟨front, last, ends, lastLetter⟩ := isNamePart.exists_concat
    have head : part.head?.any isNameLetter = true := by
      rw [begins]
      exact firstLetter
    have tail : part.getLast?.any isNameLetter = true := by
      rw [ends, List.getLast?_concat]
      exact lastLetter
    simp only [isPart, all_isPartLetter isNamePart, head, tail, Bool.and_self]

/-! ## The whole name -/

/-- Perhaps a port: digits, possibly with leading zeros, and not above 65535. -/
def IsOptionalPort (port : Option Text) : Prop :=
  forall digits, port = some digits ->
    digits ≠ [] ∧ digits.all isDigit = true ∧ digitsValue digits ≤ 65535

/-- A name as it is written.  A port stands behind the first of several parts. -/
structure IsSpelling (name host : Text) (port : Option Text) (others : List Text) : Prop where
  whole : name = joinWith '/' ((host ++ marked ':' port) :: others)
  host_part : IsNamePart host
  other_parts : forall part, part ∈ others -> IsNamePart part
  port_valid : IsOptionalPort port
  port_ahead : others = [] -> port = none

theorem isPort_iff {digits : Text} : isPort digits = true ↔ IsOptionalPort (some digits) := by
  simp [isPort, IsOptionalPort, and_assoc]

/-! ## From a name to its spelling -/

theorem not_infix_of_isName {name run : Text} (valid : isName name = true)
    (forbidden : run ∈ forbiddenRuns) : ¬ run <:+: name := by
  simp only [isName, Bool.and_eq_true, Bool.not_eq_true', List.any_eq_false] at valid
  exact fun inside => valid.1.2 run forbidden (hasWord_iff.mpr inside)

/-- What is checked of a piece of a name makes it a row of words. -/
theorem isNamePart_of_isName {name part : Text} (valid : isName name = true)
    (isPart : isPart part = true) (inside : part <:+: name) : IsNamePart part :=
  isPart_iff.mp ⟨isPart, fun _ forbidden among =>
    not_infix_of_isName valid forbidden (among.trans inside)⟩

theorem isRegistry_iff {first : Text} :
    isRegistry first = true ↔ exists host port, first = host ++ marked ':' port ∧
      isPart host = true ∧ IsOptionalPort port := by
  unfold isRegistry
  constructor
  · intro valid
    cases cut : cutFirst ':' first with
    | none =>
        rw [cut] at valid
        exact ⟨first, none, (List.append_nil first).symm, valid, nofun⟩
    | some sides =>
        obtain ⟨host, port⟩ := sides
        rw [cut] at valid
        obtain ⟨isHost, isPort⟩ := Bool.and_eq_true_iff.mp valid
        exact ⟨host, some port, (cutFirst_eq_some_iff.mp cut).1, isHost, isPort_iff.mp isPort⟩
  · rintro ⟨host, port, rfl, isHost, isPort⟩
    have free : ':' ∉ host := not_mem_part isHost (by decide)
    cases port with
    | none =>
        rw [marked, List.append_nil, cutFirst_of_free free]
        exact isHost
    | some port =>
        rw [marked, cutFirst_append free]
        exact Bool.and_eq_true_iff.mpr ⟨isHost, isPort_iff.mpr isPort⟩

theorem exists_spelling {name : Text} (valid : isName name = true) :
    exists host port others, IsSpelling name host port others := by
  obtain ⟨first, others, pieces, registry, otherParts, alone⟩ := exists_parts valid
  obtain ⟨host, port, rfl, isHost, isPort⟩ := isRegistry_iff.mp registry
  have inside : forall part, part ∈ (host ++ marked ':' port) :: others -> part <:+: name :=
    fun part member => infix_of_mem_fields (pieces ▸ member)
  have hostInside := (List.prefix_append host _).isInfix.trans (inside _ List.mem_cons_self)
  refine ⟨host, port, others, ?_, isNamePart_of_isName valid isHost hostInside, ?_, isPort, ?_⟩
  · rw [← pieces, joinWith_fields]
  · intro part member
    exact isNamePart_of_isName valid (List.all_eq_true.mp otherParts part member)
      (inside part (List.mem_cons_of_mem _ member))
  · intro single
    cases port with
    | none => rfl
    | some port =>
        have colon : ':' ∈ host ++ marked ':' (some port) :=
          List.mem_append_right host List.mem_cons_self
        exact absurd colon (not_mem_part (alone single) (by decide))

/-! ## From a spelling to a name -/

section

variable {name host : Text} {port : Option Text} {others : List Text}

theorem not_mem_of_isNamePart {part : Text} (isNamePart : IsNamePart part) {letter : Char}
    (refused : isPartLetter letter = false) : letter ∉ part :=
  not_mem_of_all (all_isPartLetter isNamePart) refused

theorem IsOptionalPort.not_mem (isPort : IsOptionalPort port) {letter : Char}
    (refused : isDigit letter = false) (notColon : letter ≠ ':') : letter ∉ marked ':' port :=
  not_mem_marked notColon fun digits same => not_mem_of_all (isPort digits same).2.1 refused

theorem IsSpelling.fields_eq (spelling : IsSpelling name host port others) :
    fields '/' name = (host ++ marked ':' port) :: others := by
  rw [spelling.whole]
  apply fields_joinWith (List.cons_ne_nil _ _)
  intro piece member slash
  rcases List.mem_cons.mp member with rfl | other
  · rcases List.mem_append.mp slash with inHost | inPort
    · exact not_mem_of_isNamePart spelling.host_part (by decide) inHost
    · exact spelling.port_valid.not_mem (by decide) (by decide) inPort
  · exact not_mem_of_isNamePart (spelling.other_parts piece other) (by decide) slash

theorem IsSpelling.piece_ne_nil (spelling : IsSpelling name host port others) :
    [] ∉ fields '/' name := by
  rw [spelling.fields_eq]
  intro member
  rcases List.mem_cons.mp member with first | other
  · obtain ⟨letter, rest, rfl, -⟩ := spelling.host_part.exists_cons
    cases first
  · obtain ⟨letter, rest, impossible, -⟩ := (spelling.other_parts [] other).exists_cons
    cases impossible

/-- A run of separators that stands in the first part stands in front of the port. -/
theorem infix_host {run : Text} (forbidden : run ∈ forbiddenRuns) (isPort : IsOptionalPort port)
    (inside : run <:+: host ++ marked ':' port) : run <:+: host := by
  cases port with
  | none => rwa [marked, List.append_nil] at inside
  | some digits =>
      obtain ⟨nonempty, noColon, -, unlettered⟩ := separators_of_mem_forbiddenRuns forbidden
      rcases infix_or_infix noColon inside with inHost | inPort
      · exact inHost
      · cases run with
        | nil => exact absurd rfl nonempty
        | cons separator run =>
            have refused := unlettered separator List.mem_cons_self
            have digit := List.all_eq_true.mp (isPort digits rfl).2.1 separator
              (inPort.subset List.mem_cons_self)
            simp only [isNameLetter, digit, Bool.or_true] at refused
            cases refused

theorem IsSpelling.not_infix (spelling : IsSpelling name host port others) {run : Text}
    (forbidden : run ∈ forbiddenRuns) : ¬ run <:+: name := by
  intro inside
  obtain ⟨nonempty, -, slashes | noSlash, -⟩ := separators_of_mem_forbiddenRuns forbidden
  · rw [slashes] at inside
    exact spelling.piece_ne_nil (nil_mem_fields inside)
  · rw [spelling.whole] at inside
    obtain ⟨piece, member, among⟩ := exists_infix_of_joinWith noSlash nonempty inside
    rcases List.mem_cons.mp member with rfl | other
    · exact not_infix_of_isNamePart spelling.host_part forbidden
        (infix_host forbidden spelling.port_valid among)
    · exact not_infix_of_isNamePart (spelling.other_parts piece other) forbidden among

theorem isName_of_spelling (spelling : IsSpelling name host port others)
    (nonempty : name ≠ []) (short : Utf8.size name ≤ longestName) : isName name = true := by
  have runs : (forbiddenRuns.any fun run => hasWord run name) = false :=
    List.any_eq_false.mpr fun run forbidden word =>
      spelling.not_infix forbidden (hasWord_iff.mp word)
  have isHost := (isPart_iff.mpr spelling.host_part).1
  have otherParts : others.all isPart = true := List.all_eq_true.mpr fun part member =>
    (isPart_iff.mpr (spelling.other_parts part member)).1
  simp only [isName, runs, spelling.fields_eq, decide_eq_true nonempty, decide_eq_true short,
    Bool.not_false, Bool.true_and]
  cases others with
  | nil =>
      rw [spelling.port_ahead rfl, marked, List.append_nil]
      exact isHost
  | cons next others =>
      have registry := isRegistry_iff.mpr ⟨host, port, rfl, isHost, spelling.port_valid⟩
      exact Bool.and_eq_true_iff.mpr ⟨registry, otherParts⟩

end

/-- The names are the texts of 1 to 128 bytes that can be spelled as parts, with nothing but a port
behind the first of several.  Every other text is refused. -/
theorem isName_iff_spelling (name : Text) :
    isName name = true ↔ (1 ≤ Utf8.size name ∧ Utf8.size name ≤ 128) ∧
      exists host port others, IsSpelling name host port others := by
  constructor
  · intro valid
    have checks := valid
    simp only [isName, Bool.and_eq_true, decide_eq_true_iff] at checks
    exact ⟨⟨Utf8.size_pos checks.1.1.1, checks.1.1.2⟩, exists_spelling valid⟩
  · rintro ⟨⟨nonempty, short⟩, host, port, others, spelling⟩
    have notNil : name ≠ [] := by
      rintro rfl
      cases nonempty
    exact isName_of_spelling spelling notNil short

example : isName "localhost:00080/a__b".toList = true ∧ isName "a/b:80".toList = false := by
  decide

end Image
end BuildInputs

import BuildInputs.Proofs.FileSystem.Listing
import BuildInputs.Proofs.FileSystem.Real
import BuildInputs.Proofs.Path.Pushing

namespace BuildInputs

/-!
# Walks that end at a directory

Whether a walk may stay where it is depends on being in a directory, so a path to a file leads
nowhere any more once a slash is put behind it.  Where the walk ends at a directory, or has further
steps to take, this makes no difference: it stays in directories all the way, and only the steps
that go somewhere decide.  So all spellings of one course lead to the same directory, with the same
listing.

Everything on the way to a directory is a directory as well.
-/

namespace FileSystem

/-- Whether a step goes anywhere. -/
def Step.moves (step : Step) : Bool :=
  step ≠ .stay && step ≠ .slash

/-- Only a walk to create a file is refused at a name with a slash after it. -/
theorem visit_allowed (rest : List Step) : ¬(Purpose.visit = .create ∧ rest = [.slash]) :=
  nofun

section

variable {files : FileSystem} {links : Nat} {here location : Location} {arrival : Arrival}

/-- In a directory, steps that go nowhere may be put in front of others. -/
theorem Leads.idle {idle rest : List Step} (directory : files.node? here = some .directory)
    (still : forall step, step ∈ idle -> ¬step.moves = true)
    (further : files.Leads .visit links here rest arrival) :
    files.Leads .visit links here (idle ++ rest) arrival := by
  induction idle with
  | nil => exact further
  | cons step idle ih =>
      rw [List.forall_mem_cons] at still
      have others := ih still.2
      cases step with
      | stay => exact .stay directory others
      | slash => exact .slash directory others
      | up => exact absurd rfl still.1
      | name => exact absurd rfl still.1
      | refused => exact absurd rfl still.1

/-- Whoever takes a step is in a directory. -/
theorem Leads.directory_of_ne_nil {purpose : Purpose} {steps : List Step}
    (leads : files.Leads purpose links here steps arrival) (nonempty : steps ≠ []) :
    files.node? here = some .directory := by
  cases leads with
  | arrive => exact absurd rfl nonempty
  | stay directory | slash directory | up directory => exact directory
  | vacant directory | enter directory | follow directory => exact directory

/-- In front of other steps, only the steps that go somewhere decide, if the other steps are taken
from a directory wherever they lead to the same end. -/
theorem Leads.of_same_moves_append {steps others tail : List Step}
    (leads : files.Leads .visit links here (steps ++ tail) arrival)
    (standing : forall links here, files.Leads .visit links here tail arrival ->
      files.node? here = some .directory)
    (vacancy : forall place name, arrival = .vacant place name -> tail ≠ [])
    (same : others.filter Step.moves = steps.filter Step.moves) :
    files.Leads .visit links here (others ++ tail) arrival := by
  -- Where the steps in front are used up, all that may be left of the others goes nowhere.
  have atTail : forall {links here idle}, files.Leads .visit links here tail arrival ->
      idle.filter Step.moves = [].filter Step.moves ->
        files.Leads .visit links here (idle ++ tail) arrival :=
    fun further still => .idle (standing _ _ further) (List.filter_eq_nil_iff.mp still) further
  clear standing
  generalize whole : steps ++ tail = all at leads
  induction leads generalizing steps others with
  | arrive =>
      obtain ⟨rfl, rfl⟩ := List.append_eq_nil_iff.mp whole
      exact atTail .arrive same
  | stay directory further ih =>
      obtain ⟨rfl, rfl⟩ | ⟨front, rfl, rfl⟩ := List.append_eq_cons_iff.mp whole
      · exact atTail (.stay directory further) same
      · have kept : others.filter Step.moves = front.filter Step.moves := same
        exact ih vacancy kept atTail rfl
  | slash directory further ih =>
      obtain ⟨rfl, rfl⟩ | ⟨front, rfl, rfl⟩ := List.append_eq_cons_iff.mp whole
      · exact atTail (.slash directory further) same
      · have kept : others.filter Step.moves = front.filter Step.moves := same
        exact ih vacancy kept atTail rfl
  | up directory further ih =>
      obtain ⟨rfl, rfl⟩ | ⟨front, rfl, rfl⟩ := List.append_eq_cons_iff.mp whole
      · exact atTail (.up directory further) same
      · obtain ⟨idle, rest, rfl, still, -, kept⟩ := List.filter_eq_cons_iff.mp same
        rw [List.append_assoc]
        exact .idle directory still (.up directory (ih vacancy kept atTail rfl))
  | vacant directory free =>
      obtain ⟨rfl, rfl⟩ | ⟨front, rfl, nothing⟩ := List.append_eq_cons_iff.mp whole
      · exact atTail (.vacant directory free) same
      · exact absurd (List.append_eq_nil_iff.mp nothing.symm).2 (vacancy _ _ rfl)
  | enter directory allowed entry notLink further ih =>
      obtain ⟨rfl, rfl⟩ | ⟨front, rfl, rfl⟩ := List.append_eq_cons_iff.mp whole
      · exact atTail (.enter directory allowed entry notLink further) same
      · obtain ⟨idle, rest, rfl, still, -, kept⟩ := List.filter_eq_cons_iff.mp same
        rw [List.append_assoc]
        exact .idle directory still
          (.enter directory (visit_allowed _) entry notLink (ih vacancy kept atTail rfl))
  | @follow _ _ _ _ _ target directory allowed entry nonempty further ih =>
      obtain ⟨rfl, rfl⟩ | ⟨front, rfl, rfl⟩ := List.append_eq_cons_iff.mp whole
      · exact atTail (.follow directory allowed entry nonempty further) same
      · obtain ⟨idle, rest, rfl, still, -, kept⟩ := List.filter_eq_cons_iff.mp same
        have onward : (FileSystem.steps target ++ rest).filter Step.moves =
            (FileSystem.steps target ++ front).filter Step.moves := by
          rw [List.filter_append, List.filter_append, kept]
        have walked := ih vacancy onward atTail (List.append_assoc _ _ _)
        rw [List.append_assoc] at walked ⊢
        exact .idle directory still (.follow directory (visit_allowed _) entry nonempty walked)

/-- Only the steps that go somewhere decide whether a directory is reached. -/
theorem Leads.of_same_moves {steps others : List Step}
    (leads : files.Leads .visit links here steps arrival) (arrived : arrival = .present location)
    (directory : files.node? location = some .directory)
    (same : others.filter Step.moves = steps.filter Step.moves) :
    files.Leads .visit links here others arrival := by
  subst arrival
  rw [← List.append_nil steps] at leads
  rw [← List.append_nil others]
  refine leads.of_same_moves_append (fun _ here atEnd => ?_) (fun _ _ same => nomatch same) same
  cases atEnd
  exact directory

/-- Where further steps follow, only the steps in front that go somewhere decide. -/
theorem Leads.of_same_moves_before {steps others tail : List Step}
    (leads : files.Leads .visit links here (steps ++ tail) arrival) (more : tail ≠ [])
    (same : others.filter Step.moves = steps.filter Step.moves) :
    files.Leads .visit links here (others ++ tail) arrival :=
  leads.of_same_moves_append (fun _ _ further => further.directory_of_ne_nil more)
    (fun _ _ _ => more) same

/-- The first steps of a walk to a directory lead to a directory. -/
theorem Leads.front {steps front back : List Step}
    (leads : files.Leads .visit links here steps arrival) (arrived : arrival = .present location)
    (directory : files.node? location = some .directory) (whole : steps = front ++ back) :
    exists middle, files.Leads .visit links here front (.present middle) ∧
      files.node? middle = some .directory := by
  induction leads generalizing front with
  | arrive =>
      cases arrived
      obtain ⟨rfl, -⟩ := List.append_eq_nil_iff.mp whole.symm
      exact ⟨_, .arrive, directory⟩
  | vacant => cases arrived
  | stay standing _ ih =>
      obtain ⟨rfl, -⟩ | ⟨front, rfl, rest⟩ := List.cons_eq_append_iff.mp whole
      · exact ⟨_, .arrive, standing⟩
      · exact (ih arrived rest).imp fun _ reached => reached.imp_left (.stay standing)
  | slash standing _ ih =>
      obtain ⟨rfl, -⟩ | ⟨front, rfl, rest⟩ := List.cons_eq_append_iff.mp whole
      · exact ⟨_, .arrive, standing⟩
      · exact (ih arrived rest).imp fun _ reached => reached.imp_left (.slash standing)
  | up standing _ ih =>
      obtain ⟨rfl, -⟩ | ⟨front, rfl, rest⟩ := List.cons_eq_append_iff.mp whole
      · exact ⟨_, .arrive, standing⟩
      · exact (ih arrived rest).imp fun _ reached => reached.imp_left (.up standing)
  | enter standing _ entry notLink _ ih =>
      obtain ⟨rfl, -⟩ | ⟨front, rfl, rest⟩ := List.cons_eq_append_iff.mp whole
      · exact ⟨_, .arrive, standing⟩
      · exact (ih arrived rest).imp fun _ reached =>
          reached.imp_left (.enter standing (visit_allowed _) entry notLink)
  | follow standing _ entry nonempty _ ih =>
      obtain ⟨rfl, -⟩ | ⟨front, rfl, rfl⟩ := List.cons_eq_append_iff.mp whole
      · exact ⟨_, .arrive, standing⟩
      · exact (ih arrived (List.append_assoc _ _ _).symm).imp fun _ reached =>
          reached.imp_left (.follow standing (visit_allowed _) entry nonempty)

end

theorem moves_ofPiece (piece : Path) :
    (Step.ofPiece piece).moves = decide (piece ≠ [Path.dot]) := by
  rw [Step.ofPiece]
  split
  · next current => simp [current, Step.moves]
  next notCurrent =>
  rw [decide_eq_true notCurrent]
  split
  · rfl
  split
  · rfl
  split <;> rfl

/-- The steps of some pieces that go somewhere are those of the pieces that count. -/
theorem filter_moves_pieces (pieces : List Path) :
    ((pieces.filter fun piece => piece ≠ []).map Step.ofPiece).filter Step.moves =
      (pieces.filter Path.counts).map Step.ofPiece := by
  have counting : forall piece : Path,
      ((Step.ofPiece piece).moves && decide (piece ≠ [])) = Path.counts piece := by
    intro piece
    rw [moves_ofPiece, Path.counts, Bool.and_comm]
  rw [List.filter_map, List.filter_filter]
  exact congrArg (List.map Step.ofPiece) (List.filter_congr fun piece _ => counting piece)

/-- The steps of a path that go somewhere are those of the pieces that count. -/
theorem filter_steps (path : Path) :
    (steps path).filter Step.moves = (Path.countingPieces path).map Step.ofPiece := by
  have slashes : (if path.getLast? = some Path.slash then [Step.slash] else []).filter Step.moves =
      [] := by
    split <;> rfl
  rw [steps, List.filter_append, slashes, List.append_nil, filter_moves_pieces,
    Path.countingPieces]

end FileSystem

namespace Workspace

open FileSystem

variable {workspace : Workspace} {path other : Path} {location : Location}

/-- A path to a directory leads there in each of its spellings. -/
theorem locate_of_sameCourse (same : Path.SameCourse path other)
    (located : workspace.locate path = .ok location)
    (directory : workspace.files.node? location = some .directory) :
    workspace.locate other = .ok location := by
  obtain ⟨free, -, leads⟩ := locate_eq_ok_iff.mp located
  refine locate_eq_ok_iff.mpr ⟨?_, same.otherNonempty, ?_⟩
  · rw [Path.mem_iff_of_counts (by decide) (by decide), ← same.counting,
      ← Path.mem_iff_of_counts (by decide) (by decide)]
    exact free
  · rw [start, ← same.absolute]
    apply leads.of_same_moves rfl directory
    rw [filter_steps, filter_steps, same.counting]

/-- What stands where a path leads. -/
theorem status_eq_ok_iff {node : Node} : workspace.status path = .ok node ↔
    exists location, workspace.locate path = .ok location ∧
      workspace.files.node? location = some node := by
  rw [status]
  cases workspace.locate path with
  | error failure => exact iff_of_false nofun nofun
  | ok location =>
      rw [Except.bind]
      cases standing : workspace.files.node? location with
      | none => simp [standing]
      | some node => simp [standing]

theorem isDirectory_iff : workspace.isDirectory path = true ↔
    exists location, workspace.locate path = .ok location ∧
      workspace.files.node? location = some .directory := by
  rw [← status_eq_ok_iff, isDirectory]
  split
  · next standing => exact iff_of_true rfl standing
  · next other => exact iff_of_false Bool.false_ne_true other

theorem list_of_sameCourse (same : Path.SameCourse path other) {entries : List (FileName × Node)}
    (listed : workspace.list path = .ok entries) : workspace.list other = .ok entries := by
  obtain ⟨location, located, directory, rfl⟩ := list_eq_ok_iff.mp listed
  exact list_eq_ok_iff.mpr ⟨location, locate_of_sameCourse same located directory, directory, rfl⟩

/-- A path can be listed if it leads to a directory. -/
theorem isDirectory_iff_list :
    workspace.isDirectory path = true ↔ exists entries, workspace.list path = .ok entries := by
  rw [isDirectory_iff]
  constructor
  · rintro ⟨location, located, directory⟩
    exact ⟨_, list_eq_ok_iff.mpr ⟨location, located, directory, rfl⟩⟩
  · rintro ⟨entries, listed⟩
    obtain ⟨location, located, directory, -⟩ := list_eq_ok_iff.mp listed
    exact ⟨location, located, directory⟩

/-- A directory is reached through directories. -/
theorem isDirectory_of_longer {more : List Path} (nonempty : path ≠ [])
    (absolute : Path.isAbsolute other = Path.isAbsolute path)
    (counting : Path.countingPieces other = Path.countingPieces path ++ more)
    (isDirectory : workspace.isDirectory other = true) : workspace.isDirectory path = true := by
  obtain ⟨location, located, directory⟩ := isDirectory_iff.mp isDirectory
  obtain ⟨free, -, leads⟩ := locate_eq_ok_iff.mp located
  have again : forall steps : List Step,
      (steps.filter Step.moves).filter Step.moves = steps.filter Step.moves := by
    intro steps
    rw [List.filter_filter]
    exact List.filter_congr fun step _ => Bool.and_self _
  have moving := leads.of_same_moves rfl directory (again _)
  rw [filter_steps, counting, List.map_append, ← filter_steps] at moving
  obtain ⟨middle, reached, isDirectory⟩ := moving.front rfl directory rfl
  refine isDirectory_iff.mpr ⟨middle, locate_eq_ok_iff.mpr ⟨?_, nonempty, ?_⟩, isDirectory⟩
  · rw [Path.mem_iff_of_counts (by decide) (by decide), counting] at free
    rw [Path.mem_iff_of_counts (by decide) (by decide)]
    rintro ⟨piece, among, inside⟩
    exact free ⟨piece, List.mem_append_left _ among, inside⟩
  · rw [start, ← absolute]
    exact reached.of_same_moves rfl isDirectory (again _).symm

end Workspace
end BuildInputs

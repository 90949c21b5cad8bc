import BuildInputs.Proofs.FileSystem.Directories
import BuildInputs.Proofs.Path.Absolute

namespace BuildInputs

/-!
# Paths to the entries of a directory

A name is pushed onto a path.  The walk to the entry is the walk along the path and one step more,
and since this step is taken from a directory, all spellings of the path have the same course: it
does not matter how it is spelled, nor whether it starts at the root or at the current directory.
Each spelling follows the same links, so that none of them can be refused for following too many
while another is not.
-/

namespace FileSystem

section

variable {files : FileSystem} {links : Nat} {here middle : Location} {arrival : Arrival}

/-- A walk goes on from where its first steps lead, if that takes no more links. -/
theorem Leads.append {steps more : List Step} {reached : Arrival}
    (leads : files.Leads .visit links here steps reached) (arrived : reached = .present middle)
    (further : forall links, files.Leads .visit links middle more arrival) :
    files.Leads .visit links here (steps ++ more) arrival := by
  induction leads with
  | arrive =>
      cases arrived
      exact further _
  | stay directory _ ih => exact .stay directory (ih arrived)
  | slash directory _ ih => exact .slash directory (ih arrived)
  | up directory _ ih => exact .up directory (ih arrived)
  | vacant => cases arrived
  | enter directory _ entry notLink _ ih =>
      exact .enter directory (visit_allowed _) entry notLink (ih arrived)
  | follow directory _ entry nonempty _ ih =>
      have walked := ih arrived
      rw [List.append_assoc] at walked
      exact .follow directory (visit_allowed _) entry nonempty walked

end

/-! ## Steps of a path with a name at its end -/

/-- The pieces that count stand for steps that go somewhere. -/
theorem filter_moves_course (path : Path) :
    ((Path.countingPieces path).map Step.ofPiece).filter Step.moves =
      (Path.countingPieces path).map Step.ofPiece := by
  rw [← filter_steps, List.filter_filter]
  exact List.filter_congr fun step _ => Bool.and_self _

/-- The last step is the name, and the ones before it have the course of the path. -/
theorem exists_steps_push (path : Path) (name : FileName) :
    exists front, steps (Path.push path name.bytes) = front ++ [.name name] ∧
      front.filter Step.moves = (Path.countingPieces path).map Step.ofPiece := by
  have plain := plain_of_name name
  have last : [name.bytes].filter (fun piece => piece ≠ []) = [name.bytes] :=
    List.filter_cons_of_pos (decide_eq_true plain.nonempty)
  refine ⟨((Path.stem path).filter fun piece => piece ≠ []).map Step.ofPiece, ?_, ?_⟩
  · rw [steps, Path.fields_push plain.free, if_neg (Path.getLast?_push plain.toIsPiece),
      List.append_nil, List.filter_append, List.map_append, last, List.map_singleton, ofPiece_bytes]
  · rw [filter_moves_pieces, Path.filter_stem]

/-- Names go somewhere. -/
theorem filter_moves_names (names : List FileName) :
    (names.map Step.name).filter Step.moves = names.map .name := by
  refine List.filter_eq_self.mpr fun step member => ?_
  obtain ⟨name, -, rfl⟩ := List.mem_map.mp member
  rfl

/-- A course leads from the root where it leads from a real directory, once the names of the
directory are put in front of it. -/
theorem Leads.from_root {files : FileSystem} {links : Nat} {here : Location} {path : Path}
    {front rooted tail : List Step} {arrival : Arrival} (real : files.IsReal here)
    (leads : files.Leads .visit links (start here path) (front ++ tail) arrival)
    (more : tail ≠ [])
    (course : front.filter Step.moves = (Path.countingPieces path).map Step.ofPiece)
    (whole : rooted.filter Step.moves =
      (Path.countingPieces (Path.absolute here.path path)).map Step.ofPiece) :
    files.Leads .visit links [] (rooted ++ tail) arrival := by
  have bare := leads.of_same_moves_before more ((filter_moves_course path).trans course.symm)
  rw [Path.countingPieces_absolute, List.map_append] at whole
  rw [start] at bare
  cases absolute : Path.isAbsolute path with
  | true =>
      rw [absolute, if_pos rfl] at bare whole
      exact bare.of_same_moves_before more (whole.trans (filter_moves_course path).symm)
  | false =>
      rw [absolute, if_neg Bool.false_ne_true] at bare whole
      have named := @Leads.after_names _ _ [] _ _ _ real bare
      rw [← List.append_assoc] at named
      refine named.of_same_moves_before more ?_
      rw [whole, here.countingPieces_path, map_ofPiece_bytes, List.filter_append,
        filter_moves_names, filter_moves_course]

end FileSystem

namespace Workspace

open FileSystem

variable {workspace : Workspace} {path : Path} {name : FileName} {location : Location}

/-- An entry that is no link is reached through its directory. -/
theorem locate_push {node : Node} (located : workspace.locate path = .ok location)
    (directory : workspace.files.node? location = some .directory)
    (entry : workspace.files.node? (location ++ [name]) = some node)
    (notLink : forall target, node ≠ .link target) :
    workspace.locate (Path.push path name.bytes) = .ok (location ++ [name]) := by
  obtain ⟨free, nonempty, leads⟩ := locate_eq_ok_iff.mp located
  have plain := plain_of_name name
  obtain ⟨front, steps, course⟩ := exists_steps_push path name
  refine locate_eq_ok_iff.mpr ⟨?_, Path.push_ne_nil nonempty plain.free, ?_⟩
  · rw [Path.mem_push_iff plain.free (by decide)]
    rintro (inPath | inName)
    · exact free inPath
    · exact name.isName.2.2.2.2.1 inName
  · have before := leads.of_same_moves rfl directory (course.trans (filter_steps path).symm)
    rw [steps, start, Path.isAbsolute_push plain.free]
    exact before.append rfl fun links =>
      .enter directory (visit_allowed _) entry notLink .arrive

/-- An entry is reached in the same way when its directory is spelled from the root, wherever
somebody stands. -/
theorem locate_push_absolute (real : workspace.files.IsReal workspace.directory)
    (located : workspace.locate (Path.push path name.bytes) = .ok location) (here : Location) :
    Workspace.locate ⟨workspace.files, here⟩
      (Path.push (Path.absolute workspace.directory.path path) name.bytes) = .ok location := by
  obtain ⟨free, -, leads⟩ := locate_eq_ok_iff.mp located
  have plain := plain_of_name name
  have begins : Path.isAbsolute (Path.absolute workspace.directory.path path) = true :=
    Path.isAbsolute_absolute rfl path
  obtain ⟨front, stepsHere, course⟩ := exists_steps_push path name
  obtain ⟨rooted, stepsRoot, whole⟩ :=
    exists_steps_push (Path.absolute workspace.directory.path path) name
  refine locate_eq_ok_iff.mpr ⟨?_, Path.push_ne_nil ?_ plain.free, ?_⟩
  · rw [Path.mem_push_iff plain.free (by decide)] at free ⊢
    rw [Path.mem_absolute_iff (by decide) (by decide)]
    rintro ((inPath | ⟨-, inDirectory⟩) | inName)
    · exact free (.inl inPath)
    · exact workspace.directory.nul_not_mem_path inDirectory
    · exact free (.inr inName)
  · rintro empty
    rw [empty] at begins
    cases begins
  · rw [start, Path.isAbsolute_push plain.free, stepsHere] at leads
    rw [start, Path.isAbsolute_push plain.free, begins, if_pos rfl, stepsRoot]
    exact leads.from_root real (List.cons_ne_nil _ _) course whole

end Workspace
end BuildInputs

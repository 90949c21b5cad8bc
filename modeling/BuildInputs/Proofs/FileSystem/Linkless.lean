import BuildInputs.Proofs.FileSystem.Real

namespace BuildInputs

/-!
# Walks that meet no link

A path from the root that is spelled without detours leads to the location that it spells, or
nowhere, as long as no link stands on its way.  Whether the location is real need not be known
beforehand: what is a file or a directory, and how many links could still be followed, makes no
difference to where the walk ends.

The ways are given by their pieces here, since a path may spell what cannot be the name of anything.
-/

namespace FileSystem

/-- No link stands on the way along some pieces, as far as they are names. -/
def Linkless (files : FileSystem) (here : Location) (pieces : List Path) : Prop :=
  forall names : List FileName, names ≠ [] -> names.map FileName.bytes <+: pieces ->
    forall target, files.node? (here ++ names) ≠ some (.link target)

section

variable {files : FileSystem} {here : Location} {pieces : List Path}

theorem Linkless.head {name : FileName} (linkless : files.Linkless here (name.bytes :: pieces))
    (target : Path) : files.node? (here ++ [name]) ≠ some (.link target) :=
  linkless [name] (List.cons_ne_nil _ _) (List.prefix_append [name.bytes] pieces) target

theorem Linkless.child {name : FileName} (linkless : files.Linkless here (name.bytes :: pieces)) :
    files.Linkless (here ++ [name]) pieces := by
  intro names nonempty start target
  rw [List.append_assoc, List.singleton_append]
  exact linkless (name :: names) (List.cons_ne_nil _ _)
    ((List.prefix_cons_inj name.bytes).mpr start) target

/-- A plain piece asks for an entry, if it can be the name of one. -/
theorem ofPiece_of_plain {piece : Path} (plain : Path.IsPlain piece) :
    (exists name : FileName, name.bytes = piece ∧ Step.ofPiece piece = .name name) ∨
      exists failure, Step.ofPiece piece = .refused failure := by
  rw [Step.ofPiece, if_neg plain.ne_current, if_neg plain.ne_parent]
  split
  · next isName => exact .inl ⟨⟨piece, isName⟩, rfl, rfl⟩
  · split
    · exact .inr ⟨_, rfl⟩
    · exact .inr ⟨_, rfl⟩

theorem Leads.of_linkless {links : Nat} {location : Location}
    (plain : forall piece, piece ∈ pieces -> Path.IsPlain piece)
    (linkless : files.Linkless here pieces)
    (leads : files.Leads .visit links here (pieces.map Step.ofPiece) (.present location)) :
    location.map FileName.bytes = here.map FileName.bytes ++ pieces := by
  induction pieces generalizing here with
  | nil =>
      cases leads
      exact (List.append_nil _).symm
  | cons piece pieces ih =>
      rw [List.forall_mem_cons] at plain
      rw [List.map_cons] at leads
      rcases ofPiece_of_plain plain.1 with ⟨name, rfl, step⟩ | ⟨failure, step⟩
      · rw [step] at leads
        generalize others : pieces.map Step.ofPiece = rest at leads
        cases leads with
        | enter _ _ _ _ further =>
            subst others
            rw [ih plain.2 linkless.child further, List.map_append, List.append_assoc]
            rfl
        | follow _ _ entry => exact absurd entry (linkless.head _)
      · rw [step] at leads
        cases leads

end

end FileSystem

namespace Workspace

open FileSystem

variable {workspace : Workspace} {pieces : List Path} {location : Location}

/-- Where no link stands on its way, a path without detours leads where it says. -/
theorem names_of_locate_linkless (plain : forall piece, piece ∈ pieces -> Path.IsPlain piece)
    (linkless : workspace.files.Linkless [] pieces)
    (located : workspace.locate (Path.rooted pieces) = .ok location) :
    location.map FileName.bytes = pieces := by
  obtain ⟨-, -, leads⟩ := locate_eq_ok_iff.mp located
  have fromRoot : start workspace.directory (Path.rooted pieces) = [] :=
    if_pos (Path.isAbsolute_rooted pieces)
  rw [fromRoot] at leads
  by_cases empty : pieces = []
  · subst pieces
    have still : steps (Path.rooted []) = [.slash] := by decide
    rw [still] at leads
    cases leads with
    | slash _ further =>
        cases further
        rfl
  · rw [steps_rooted plain empty] at leads
    exact leads.of_linkless plain linkless

end Workspace
end BuildInputs

import BuildInputs.FileSystem.Workspace

namespace BuildInputs

/-!
# What a directory lists

A listing has one entry for everything that stands directly in the directory, and nothing else,
in the order of the bytes of the names.  The order is strict, so no name comes twice, and it
does not depend on the order in which the table of the file system was put together.
-/

namespace FileName

/-- Names in the strict order of their bytes. -/
def Ordered (names : List FileName) : Prop :=
  names.Pairwise fun first second => first.bytes < second.bytes

theorem before_iff {first second : FileName} :
    first.before second = true ↔ first.bytes < second.bytes :=
  decide_eq_true_iff

/-- Of two different names one comes first. -/
theorem lt_of_not_before {first second : FileName} (different : first ≠ second)
    (later : ¬ first.before second = true) : second.bytes < first.bytes := by
  rw [before_iff] at later
  apply Decidable.byContradiction
  intro neither
  exact different (bytes_injective (List.le_antisymm neither later))

/-- The greatest of some names. -/
structure IsGreatest (names : FileName -> Prop) (name : FileName) : Prop where
  member : names name
  greatest : forall other, names other -> other.bytes ≤ name.bytes

theorem IsGreatest.unique {names : FileName -> Prop} {name other : FileName}
    (greatest : IsGreatest names name) (also : IsGreatest names other) : other = name :=
  bytes_injective (List.le_antisymm (greatest.greatest other also.member)
    (also.greatest name greatest.member))

/-- Of names in order the last is the greatest. -/
theorem Ordered.getLast?_eq_some_iff {names : List FileName} {name : FileName}
    (ordered : Ordered names) : names.getLast? = some name ↔ IsGreatest (· ∈ names) name := by
  have isGreatest : forall {last}, names.getLast? = some last -> IsGreatest (· ∈ names) last := by
    intro last ends
    obtain ⟨front, rfl⟩ := List.getLast?_eq_some_iff.mp ends
    refine ⟨List.mem_concat_self, fun other member => ?_⟩
    rcases List.mem_append.mp member with earlier | same
    · exact List.le_of_lt
        ((List.pairwise_append.mp ordered).2.2 other earlier last List.mem_cons_self)
    · rw [List.mem_singleton.mp same]
      exact List.le_refl _
  refine ⟨isGreatest, fun greatest => ?_⟩
  have ends := List.getLast?_eq_some_getLast (List.ne_nil_of_mem greatest.member)
  rw [ends, greatest.unique (isGreatest ends)]

end FileName

namespace FileSystem

theorem mem_insertName {name other : FileName} {names : List FileName} :
    other ∈ insertName name names ↔ other = name ∨ other ∈ names := by
  induction names with
  | nil => rw [insertName, List.mem_singleton, List.mem_nil_iff, or_false]
  | cons head tail ih =>
      rw [insertName]
      split
      · next same =>
          rw [same, List.mem_cons]
          exact ⟨Or.inr, fun member => member.elim Or.inl id⟩
      split
      · rw [List.mem_cons]
      · rw [List.mem_cons, ih, List.mem_cons]
        exact or_left_comm

theorem insertName_ordered {name : FileName} {names : List FileName}
    (ordered : FileName.Ordered names) : FileName.Ordered (insertName name names) := by
  induction names with
  | nil => exact List.pairwise_singleton _ _
  | cons head tail ih =>
      have parts := List.pairwise_cons.mp ordered
      rw [insertName]
      split
      · exact ordered
      next different =>
      split
      · next first =>
          have headLater := FileName.before_iff.mp first
          refine List.pairwise_cons.mpr ⟨fun other member => ?_, ordered⟩
          rcases List.mem_cons.mp member with same | member
          · exact same ▸ headLater
          · exact List.lt_trans headLater (parts.1 other member)
      · next later =>
          refine List.pairwise_cons.mpr ⟨fun other member => ?_, ih parts.2⟩
          rcases mem_insertName.mp member with same | member
          · exact same ▸ FileName.lt_of_not_before different later
          · exact parts.1 other member

theorem mem_foldr_insertName {name : FileName} {names : List FileName} :
    name ∈ names.foldr insertName [] ↔ name ∈ names := by
  induction names with
  | nil => rfl
  | cons head tail ih => rw [List.foldr_cons, mem_insertName, ih, List.mem_cons]

theorem names_ordered (files : FileSystem) (directory : Location) :
    FileName.Ordered (files.names directory) := by
  rw [names]
  induction files.rows.filterMap fun row => childName? directory row.1 with
  | nil => exact List.Pairwise.nil
  | cons head tail ih => exact insertName_ordered ih

theorem childName?_eq_some_iff {directory location : Location} {name : FileName} :
    childName? directory location = some name ↔ location = directory ++ [name] := by
  rw [childName?]
  constructor
  · intro child
    split at child
    · next parent =>
        rcases List.getLast?_eq_some_iff.mp child with ⟨front, same⟩
        rw [same, List.dropLast_concat] at parent
        rw [same, parent]
    · cases child
  · intro same
    rw [same, List.dropLast_concat, if_pos rfl, List.getLast?_concat]

/-- The names in a directory are those at which something stands. -/
theorem mem_names_iff {files : FileSystem} {directory : Location} {name : FileName} :
    name ∈ files.names directory ↔ (files.node? (directory ++ [name])).isSome := by
  have child : directory ++ [name] ≠ [] :=
    List.append_ne_nil_of_right_ne_nil _ (List.cons_ne_nil _ _)
  rw [names, mem_foldr_insertName, List.mem_filterMap, node?, if_neg child, Option.isSome_map,
    List.find?_isSome]
  constructor
  · rintro ⟨row, member, named⟩
    exact ⟨row, member, decide_eq_true (childName?_eq_some_iff.mp named)⟩
  · rintro ⟨row, member, same⟩
    exact ⟨row, member, childName?_eq_some_iff.mpr (of_decide_eq_true same)⟩

theorem mem_entries_iff {files : FileSystem} {directory : Location} {name : FileName}
    {node : Node} :
    (name, node) ∈ ((files.names directory).filterMap fun name =>
        (files.node? (directory ++ [name])).map fun node => (name, node)) ↔
      files.node? (directory ++ [name]) = some node := by
  rw [List.mem_filterMap]
  constructor
  · rintro ⟨listed, _, entry⟩
    rcases Option.map_eq_some_iff.mp entry with ⟨standing, found, same⟩
    cases same
    exact found
  · intro found
    refine ⟨name, mem_names_iff.mpr ?_, ?_⟩
    · rw [found, Option.isSome_some]
    · rw [found, Option.map_some]

theorem entries_ordered (files : FileSystem) (directory : Location) :
    FileName.Ordered (((files.names directory).filterMap fun name =>
      (files.node? (directory ++ [name])).map fun node => (name, node)).map (·.1)) := by
  rw [FileName.Ordered, List.pairwise_map]
  refine List.Pairwise.filterMap _ ?_ (names_ordered files directory)
  intro first second before firstEntry firstFound secondEntry secondFound
  rcases Option.map_eq_some_iff.mp firstFound with ⟨_, _, rfl⟩
  rcases Option.map_eq_some_iff.mp secondFound with ⟨_, _, rfl⟩
  exact before

end FileSystem

namespace Workspace

/-- What it means that entries are the listing of the directory to which a path leads. -/
structure IsListing (workspace : Workspace) (path : Path)
    (entries : List (FileName × Node)) : Prop where
  ordered : FileName.Ordered (entries.map (·.1))
  complete : exists location, workspace.locate path = .ok location ∧
    workspace.files.node? location = some .directory ∧
    forall name node, (name, node) ∈ entries ↔
      workspace.files.node? (location ++ [name]) = some node

/-- A listing succeeds at a directory, and has an entry for each of its names. -/
theorem list_eq_ok_iff {workspace : Workspace} {path : Path}
    {entries : List (FileName × Node)} :
    workspace.list path = .ok entries ↔ exists location, workspace.locate path = .ok location ∧
      workspace.files.node? location = some .directory ∧
        entries = (workspace.files.names location).filterMap fun name =>
          (workspace.files.node? (location ++ [name])).map fun node => (name, node) := by
  rw [list]
  cases workspace.locate path with
  | error failure => exact iff_of_false nofun nofun
  | ok location =>
      rw [Except.bind]
      cases standing : workspace.files.node? location with
      | none => simp [standing]
      | some node => cases node <;> simp [standing, eq_comm]

/-- A listing that succeeds lists the directory to which the path leads. -/
theorem isListing_of_list {workspace : Workspace} {path : Path}
    {entries : List (FileName × Node)} (listed : workspace.list path = .ok entries) :
    workspace.IsListing path entries := by
  obtain ⟨location, located, directory, rfl⟩ := list_eq_ok_iff.mp listed
  exact ⟨FileSystem.entries_ordered workspace.files location, location, located, directory,
    fun name node => FileSystem.mem_entries_iff⟩

end Workspace
end BuildInputs

import BuildInputs.FileSystem.Workspace
import BuildInputs.Proofs.FileSystem.Arrival
import BuildInputs.Proofs.Path.Rooted

namespace BuildInputs
namespace FileSystem

/-!
# Real locations

A location is a list of names, and a table of nodes may hold rows that no walk can reach, such
as an entry below a file or below a link.  A location is real if a walk can stand at it without
having passed through a link: every location on the way to it is a directory, and it holds
something that is not a link itself.

Walking keeps this property, whatever links it follows.  A link is only ever replaced by the
steps of its target, taken from the directory of the link or from the root, and both of these
are real when the link was met at a real place.  So a walk that starts at a real location ends
at one, and since it follows no link on the way, walking along the names of a real location
leads back to that location.
-/

/-- A location that passes through directories only and holds something that is no link. -/
structure IsReal (files : FileSystem) (location : Location) : Prop where
  throughDirectories : forall before, before <+: location -> before ≠ location ->
    files.node? before = some .directory
  present : exists node, files.node? location = some node
  notLink : forall target, files.node? location ≠ some (.link target)

theorem node?_root (files : FileSystem) : files.node? [] = some .directory :=
  if_pos rfl

theorem isReal_root (files : FileSystem) : files.IsReal [] where
  throughDirectories before start proper := absurd (List.prefix_nil.mp start) proper
  present := ⟨.directory, files.node?_root⟩
  notLink target link := by
    rw [files.node?_root] at link
    cases link

namespace IsReal

variable {files : FileSystem} {location : Location}

/-- Everything on the way to a real location is real. -/
theorem of_prefix (real : files.IsReal location) {before : Location}
    (start : before <+: location) : files.IsReal before := by
  by_cases same : before = location
  · exact same ▸ real
  · have directory := real.throughDirectories before start same
    refine ⟨fun earlier earlierStart proper => ?_, ⟨_, directory⟩, fun target link => ?_⟩
    · apply real.throughDirectories earlier (earlierStart.trans start)
      intro equal
      exact proper (earlierStart.eq_of_length_le (equal ▸ start.length_le))
    · rw [directory] at link
      cases link

theorem child (real : files.IsReal location) (directory : files.node? location = some .directory)
    {name : FileName} {node : Node} (entry : files.node? (location ++ [name]) = some node)
    (notLink : forall target, node ≠ .link target) : files.IsReal (location ++ [name]) := by
  refine ⟨fun before start proper => ?_, ⟨node, entry⟩, fun target link => ?_⟩
  · rcases List.prefix_concat_iff.mp start with same | start
    · exact absurd same proper
    · by_cases same : before = location
      · exact same ▸ directory
      · exact real.throughDirectories before start same
  · rw [entry] at link
    exact notLink target (Option.some.inj link)

end IsReal

/-- The directory in which a link stands and the root are where its target may start. -/
theorem isReal_start {files : FileSystem} {here : Location} (real : files.IsReal here)
    (path : Path) : files.IsReal (start here path) := by
  rw [start]
  split
  · exact files.isReal_root
  · exact real

/-- A walk from a real location ends at a real location. -/
theorem Leads.isReal {files : FileSystem} {purpose : Purpose} {links : Nat} {here : Location}
    {steps : List Step} {arrival : Arrival} (leads : files.Leads purpose links here steps arrival)
    (real : files.IsReal here) {location : Location} (arrived : arrival = .present location) :
    files.IsReal location := by
  induction leads with
  | arrive =>
      cases arrived
      exact real
  | stay _ _ ih => exact ih real arrived
  | slash _ _ ih => exact ih real arrived
  | up _ _ ih => exact ih (real.of_prefix (List.dropLast_prefix _)) arrived
  | vacant => cases arrived
  | enter directory _ entry notLink _ ih => exact ih (real.child directory entry notLink) arrived
  | follow _ _ _ _ _ ih => exact ih (isReal_start real _) arrived

/-- The names of a real location lead to it, without a link being followed, and from there on as
any steps do. -/
theorem Leads.after_names {files : FileSystem} {links : Nat} {here : Location}
    {names : List FileName} {rest : List Step} {arrival : Arrival}
    (real : files.IsReal (here ++ names))
    (further : files.Leads .visit links (here ++ names) rest arrival) :
    files.Leads .visit links here (names.map .name ++ rest) arrival := by
  induction names generalizing here with
  | nil => rwa [List.append_nil] at further
  | cons name names ih =>
      have whole : here ++ name :: names = (here ++ [name]) ++ names := by
        rw [List.append_assoc, List.singleton_append]
      have directory : files.node? here = some .directory :=
        real.throughDirectories here (List.prefix_append _ _) fun same =>
          List.cons_ne_nil name names (List.self_eq_append_right.mp same)
      rw [whole] at real further
      have child := real.of_prefix (List.prefix_append (here ++ [name]) names)
      rcases child.present with ⟨node, entry⟩
      exact .enter directory (fun refused => Purpose.noConfusion refused.1) entry
        (fun target link => child.notLink target (link ▸ entry)) (ih real further)

theorem leads_names {files : FileSystem} {links : Nat} {here : Location} {names : List FileName}
    (real : files.IsReal (here ++ names)) :
    files.Leads .visit links here (names.map .name) (.present (here ++ names)) := by
  have whole := Leads.after_names real (@Leads.arrive files .visit links _)
  rwa [List.append_nil] at whole

/-! ## The path of a location -/

theorem plain_of_name (name : FileName) : Path.IsPlain name.bytes where
  nonempty := name.isName.1
  ne_current := name.isName.2.1
  ne_parent := name.isName.2.2.1
  free := name.isName.2.2.2.1

theorem ofPiece_bytes (name : FileName) : Step.ofPiece name.bytes = .name name := by
  have plain := plain_of_name name
  rw [Step.ofPiece, if_neg plain.ne_current, if_neg plain.ne_parent, dif_pos name.isName]

/-- The names of a location are the steps that it is spelled by. -/
theorem map_ofPiece_bytes (location : Location) :
    (location.map FileName.bytes).map Step.ofPiece = location.map .name := by
  rw [List.map_map]
  exact List.map_congr_left fun name _ => ofPiece_bytes name

/-- The pieces of a path without detours are the steps that it is walked by. -/
theorem steps_rooted {pieces : List Path}
    (plain : forall piece, piece ∈ pieces -> Path.IsPlain piece) (nonempty : pieces ≠ []) :
    steps (Path.rooted pieces) = pieces.map Step.ofPiece := by
  have kept : pieces.filter (fun piece => piece ≠ []) = pieces :=
    List.filter_eq_self.mpr fun piece member => decide_eq_true (plain piece member).nonempty
  rw [steps, Path.fields_rooted nonempty plain, if_neg (Path.getLast?_rooted nonempty plain),
    List.append_nil, List.filter_cons_of_neg (by decide), kept]

end FileSystem

namespace Location

theorem plain_of_mem {location : Location} :
    forall piece, piece ∈ location.map FileName.bytes -> Path.IsPlain piece := by
  intro piece member
  rcases List.mem_map.mp member with ⟨name, _, rfl⟩
  exact FileSystem.plain_of_name name

theorem path_eq_rooted (location : Location) :
    location.path = Path.rooted (location.map FileName.bytes) :=
  rfl

theorem components_path (location : Location) :
    Path.components location.path = .root :: location.map fun name => .name name.bytes := by
  rw [path_eq_rooted, Path.components_rooted plain_of_mem, List.map_map]
  rfl

/-- A path lies below another exactly when the names of the other come first. -/
theorem isContained_path_iff {location boundary : Location} :
    Path.isContained location.path boundary.path = true ↔ boundary <+: location := by
  rw [Path.isContained, Path.startsWith, List.isPrefixOf_iff_prefix, components_path,
    components_path, List.cons_prefix_cons]
  have injective : Function.Injective fun name : FileName => Path.Component.name name.bytes :=
    fun first second same => FileName.bytes_injective (Path.Component.name.inj same)
  constructor
  · intro start
    exact (List.prefix_map_iff_of_injective injective).mp start.2
  · intro start
    exact ⟨rfl, (List.prefix_map_iff_of_injective injective).mpr start⟩

theorem path_ne_nil (location : Location) : location.path ≠ [] :=
  List.cons_ne_nil _ _

theorem nul_not_mem_path (location : Location) : 0 ∉ location.path := by
  intro member
  rcases List.mem_cons.mp member with same | member
  · cases same
  · rcases Text.mem_of_mem_joinWith member with same | ⟨piece, among, inside⟩
    · cases same
    · rcases List.mem_map.mp among with ⟨name, _, rfl⟩
      exact name.isName.2.2.2.2.1 inside

theorem steps_path {location : Location} (nonempty : location ≠ []) :
    FileSystem.steps location.path = location.map .name := by
  have pieces : location.map FileName.bytes ≠ [] :=
    fun same => nonempty (List.map_eq_nil_iff.mp same)
  rw [path_eq_rooted, FileSystem.steps_rooted plain_of_mem pieces, FileSystem.map_ofPiece_bytes]

end Location

namespace Workspace

/-- A path leads where its steps lead, from the root or from the current directory. -/
theorem locate_eq_ok_iff {workspace : Workspace} {path : Path} {location : Location} :
    workspace.locate path = .ok location ↔
      0 ∉ path ∧ path ≠ [] ∧
        workspace.files.Leads .visit FileSystem.linkLimit
          (FileSystem.start workspace.directory path) (FileSystem.steps path)
          (.present location) := by
  rw [← FileSystem.walk_eq_ok_iff, locate, walk]
  by_cases nul : 0 ∈ path
  · simp [nul]
  by_cases empty : path = []
  · simp [empty]
  rw [if_neg nul, if_neg empty]
  constructor
  · intro located
    refine ⟨nul, empty, ?_⟩
    split at located
    · next walked =>
        cases located
        exact walked
    · cases located
    · cases located
  · intro walked
    rw [walked.2.2]

/-- Where a path leads is real, as long as it starts at a real place. -/
theorem isReal_of_locate {workspace : Workspace} {path : Path} {location : Location}
    (real : workspace.files.IsReal (FileSystem.start workspace.directory path))
    (located : workspace.locate path = .ok location) : workspace.files.IsReal location :=
  (locate_eq_ok_iff.mp located).2.2.isReal real rfl

/-- A real location is where its own path leads. -/
theorem locate_path {workspace : Workspace} {location : Location}
    (real : workspace.files.IsReal location) : workspace.locate location.path = .ok location := by
  refine locate_eq_ok_iff.mpr ⟨location.nul_not_mem_path, location.path_ne_nil, ?_⟩
  by_cases empty : location = []
  · subst location
    exact .slash workspace.files.node?_root .arrive
  · rw [Location.steps_path empty]
    exact FileSystem.leads_names real

end Workspace
end BuildInputs

import BuildInputs.Proofs.FileSystem.Real
import BuildInputs.Proofs.Report
import BuildInputs.Proofs.Text.Utf8

namespace BuildInputs

/-!
# Reading what was written

Writing a file changes what stands at one location, and that location held a file or nothing.
So no directory and no link changes, and the walk that found where to write is a walk to the
written file, along the same links.  Reading along the same path therefore gives what was
written.
-/

namespace FileSystem

/-- A location where a file may be put: it holds one, or nothing. -/
def Writable (files : FileSystem) (location : Location) : Prop :=
  files.node? location = none ∨ exists contents, files.node? location = some (.file contents)

variable {files : FileSystem} {spot : Location} {contents : List UInt8}

theorem node?_put_same (nonempty : spot ≠ []) (node : Node) :
    (files.put spot node).node? spot = some node := by
  rw [node?, if_neg nonempty, put, List.find?_cons, decide_eq_true rfl]
  rfl

theorem node?_put_other {location : Location} (different : spot ≠ location) (node : Node) :
    (files.put spot node).node? location = files.node? location := by
  rw [node?, node?, put, List.find?_cons, decide_eq_false different]

/-- Putting a node where it stands already changes nothing. -/
theorem node?_put_standing {node : Node} (standing : files.node? spot = some node)
    (nonempty : spot ≠ []) (location : Location) :
    (files.put spot node).node? location = files.node? location := by
  by_cases same : spot = location
  · subst location
    rw [node?_put_same nonempty, standing]
  · exact node?_put_other same node

theorem Writable.ne_root (writable : files.Writable spot) : spot ≠ [] := by
  rintro rfl
  rcases writable with free | ⟨contents, standing⟩
  · cases free
  · cases standing

/-- Directories, links and pipes stay as they are. -/
theorem Writable.kept (writable : files.Writable spot) {location : Location} {standing : Node}
    (found : files.node? location = some standing)
    (notFile : forall contents, standing ≠ .file contents) (node : Node) :
    (files.put spot node).node? location = some standing := by
  rw [node?_put_other _ node, found]
  rintro rfl
  rcases writable with free | ⟨contents, file⟩
  · rw [found] at free
    cases free
  · rw [found] at file
    exact notFile contents (Option.some.inj file)

/-- Everything that was no link is none afterwards. -/
theorem Writable.entry (writable : files.Writable spot) {location : Location} {node : Node}
    (entry : files.node? location = some node) (notLink : forall target, node ≠ .link target) :
    exists later, (files.put spot (.file contents)).node? location = some later ∧
      forall target, later ≠ .link target := by
  by_cases same : spot = location
  · subst location
    exact ⟨_, node?_put_same writable.ne_root _, fun _ => Node.noConfusion⟩
  · exact ⟨node, by rw [node?_put_other same, entry], notLink⟩

/-- Where an arrival lets a file be put. -/
def Arrival.place : Arrival -> Location
  | .present location => location
  | .vacant directory name => directory ++ [name]

/-- The walk that finds where to write leads to the file once it is written, and finds it again if
it is to be written once more. -/
theorem Leads.put_file {links : Nat} {here : Location} {steps : List Step} {arrival : Arrival}
    (leads : files.Leads .create links here steps arrival)
    (writable : files.Writable arrival.place) (purpose : Purpose) :
    (files.put arrival.place (.file contents)).Leads purpose links here steps
      (.present arrival.place) := by
  have going : forall {rest : List Step}, ¬ (Purpose.create = .create ∧ rest = [.slash]) ->
      ¬ (purpose = .create ∧ rest = [.slash]) := fun allowed refused => allowed ⟨rfl, refused.2⟩
  induction leads with
  | arrive => exact .arrive
  | stay directory _ ih =>
      exact .stay (writable.kept directory (fun _ => Node.noConfusion) _) (ih writable)
  | slash directory _ ih =>
      exact .slash (writable.kept directory (fun _ => Node.noConfusion) _) (ih writable)
  | up directory _ ih =>
      exact .up (writable.kept directory (fun _ => Node.noConfusion) _) (ih writable)
  | vacant directory free =>
      have still := writable.kept directory (fun _ => Node.noConfusion) (.file contents)
      exact .enter still (fun refused => List.cons_ne_nil _ _ refused.2.symm)
        (node?_put_same writable.ne_root _) (fun _ => Node.noConfusion) .arrive
  | enter directory allowed entry notLink _ ih =>
      have still := writable.kept directory (fun _ => Node.noConfusion) (.file contents)
      rcases writable.entry entry notLink with ⟨later, entry, notLink⟩
      exact .enter still (going allowed) entry notLink (ih writable)
  | follow directory allowed entry nonempty _ ih =>
      have still := writable.kept directory (fun _ => Node.noConfusion) (.file contents)
      have link := writable.kept entry (fun _ => Node.noConfusion) (.file contents)
      exact .follow still (going allowed) link nonempty (ih writable)

/-- A walk that ended somewhere ends there still, wherever a file was put. -/
theorem Leads.still {links : Nat} {here : Location} {steps : List Step} {arrival : Arrival}
    (leads : files.Leads .visit links here steps arrival) (writable : files.Writable spot)
    {location : Location} (arrived : arrival = .present location) :
    (files.put spot (.file contents)).Leads .visit links here steps (.present location) := by
  induction leads with
  | arrive =>
      cases arrived
      exact .arrive
  | stay directory _ ih =>
      exact .stay (writable.kept directory (fun _ => Node.noConfusion) _) (ih arrived)
  | slash directory _ ih =>
      exact .slash (writable.kept directory (fun _ => Node.noConfusion) _) (ih arrived)
  | up directory _ ih =>
      exact .up (writable.kept directory (fun _ => Node.noConfusion) _) (ih arrived)
  | vacant => cases arrived
  | enter directory allowed entry notLink _ ih =>
      have kept := writable.kept directory (fun _ => Node.noConfusion) (.file contents)
      rcases writable.entry entry notLink with ⟨later, entry, notLink⟩
      exact .enter kept allowed entry notLink (ih arrived)
  | follow directory allowed entry nonempty _ ih =>
      have kept := writable.kept directory (fun _ => Node.noConfusion) (.file contents)
      have link := writable.kept entry (fun _ => Node.noConfusion) (.file contents)
      exact .follow kept allowed link nonempty (ih arrived)

/-- A free name is free. -/
theorem Leads.free {purpose : Purpose} {links : Nat} {here : Location} {steps : List Step}
    {arrival : Arrival} (leads : files.Leads purpose links here steps arrival)
    {directory : Location} {name : FileName} (arrived : arrival = .vacant directory name) :
    files.node? (directory ++ [name]) = none := by
  induction leads with
  | arrive => cases arrived
  | vacant _ free =>
      cases arrived
      exact free
  | stay _ _ ih => exact ih arrived
  | slash _ _ ih => exact ih arrived
  | up _ _ ih => exact ih arrived
  | enter _ _ _ _ _ ih => exact ih arrived
  | follow _ _ _ _ _ ih => exact ih arrived

end FileSystem

namespace Workspace

/-- Writing takes place where a walk arrives, at a file or a free name. -/
theorem leads_of_placeToWrite {workspace : Workspace} {path : Path} {location : Location}
    (placed : workspace.placeToWrite path = .ok location) :
    0 ∉ path ∧ path ≠ [] ∧
      exists arrival : FileSystem.Arrival, arrival.place = location ∧
        workspace.files.Writable location ∧
        workspace.files.Leads .create FileSystem.linkLimit
          (FileSystem.start workspace.directory path) (FileSystem.steps path) arrival := by
  rw [placeToWrite, walk] at placed
  by_cases nul : 0 ∈ path
  · rw [if_pos nul] at placed
    cases placed
  by_cases empty : path = []
  · rw [if_neg nul, if_pos empty] at placed
    cases placed
  rw [if_neg nul, if_neg empty] at placed
  refine ⟨nul, empty, ?_⟩
  split at placed
  · cases placed
  · next directory name walked =>
      cases placed
      have leads := FileSystem.leads_of_walk walked
      exact ⟨.vacant directory name, rfl, Or.inl (leads.free rfl), leads⟩
  · next found walked =>
      have leads := FileSystem.leads_of_walk walked
      split at placed
      · next contents standing =>
          cases placed
          exact ⟨.present _, rfl, Or.inr ⟨contents, standing⟩, leads⟩
      · cases placed
      · cases placed
      · cases placed
      · cases placed

/-- The same location is found again, with the file that was put there. -/
theorem placeToWrite_of_leads {workspace : Workspace} {path : Path} {location : Location}
    {contents : List UInt8} (nul : 0 ∉ path) (nonempty : path ≠ [])
    (leads : workspace.files.Leads .create FileSystem.linkLimit
      (FileSystem.start workspace.directory path) (FileSystem.steps path) (.present location))
    (standing : workspace.files.node? location = some (.file contents)) :
    workspace.placeToWrite path = .ok location := by
  rw [placeToWrite, walk, if_neg nul, if_neg nonempty, FileSystem.walk_of_leads leads]
  dsimp only
  rw [standing]

/-- Writing puts a file at one location, to which the path leads from then on. -/
theorem exists_written {workspace later : Workspace} {path : Path} {contents : List UInt8}
    (written : workspace.writeBytes path contents = .ok later) :
    exists location, workspace.files.Writable location ∧
      later = { workspace with files := workspace.files.put location (.file contents) } ∧
      later.locate path = .ok location ∧ later.placeToWrite path = .ok location := by
  rcases Report.map_eq_ok_iff.mp written with ⟨location, placed, rfl⟩
  rcases leads_of_placeToWrite placed with ⟨nul, nonempty, arrival, rfl, writable, leads⟩
  refine ⟨arrival.place, writable, rfl, ?_, ?_⟩
  · exact locate_eq_ok_iff.mpr ⟨nul, nonempty, leads.put_file writable .visit⟩
  · exact placeToWrite_of_leads nul nonempty (leads.put_file writable .create)
      (FileSystem.node?_put_same writable.ne_root _)

/-- Every path that led somewhere leads there still. -/
theorem locate_of_written {workspace later : Workspace} {path other : Path}
    {contents : List UInt8} {there : Location}
    (written : workspace.writeBytes path contents = .ok later)
    (located : workspace.locate other = .ok there) : later.locate other = .ok there := by
  rcases exists_written written with ⟨location, writable, rfl, -, -⟩
  rcases locate_eq_ok_iff.mp located with ⟨nul, nonempty, leads⟩
  exact locate_eq_ok_iff.mpr ⟨nul, nonempty, leads.still writable rfl⟩

/-- The path that was written leads to a file with these contents. -/
theorem status_writeBytes {workspace later : Workspace} {path : Path} {contents : List UInt8}
    (written : workspace.writeBytes path contents = .ok later) :
    later.status path = .ok (.file contents) := by
  rcases exists_written written with ⟨location, writable, rfl, located, -⟩
  rw [status, located, Except.bind]
  dsimp only
  rw [FileSystem.node?_put_same writable.ne_root]

/-- A file that holds the bytes of a text is read as this text. -/
theorem readText_of_encode {workspace : Workspace} {path : Path} {text : Text}
    (bytes : workspace.readBytes path = .ok (Utf8.encode text)) :
    workspace.readText path = .ok text := by
  rw [readText, bytes, Except.bind, Utf8.decode_encode]

/-- Reading along the path that was written gives what was written. -/
theorem readText_writeText {workspace later : Workspace} {path : Path} {text : Text}
    (written : workspace.writeText path text = .ok later) : later.readText path = .ok text := by
  apply readText_of_encode
  rw [readBytes, status_writeBytes written]
  rfl

end Workspace
end BuildInputs

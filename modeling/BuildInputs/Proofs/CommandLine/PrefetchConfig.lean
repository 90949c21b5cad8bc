import Mathlib.Data.List.Permutation
import BuildInputs.CommandLine.Outcome
import BuildInputs.Proofs.FileSystem.Writing
import BuildInputs.Proofs.GoProxy.Lines

namespace BuildInputs

/-!
# Configurations that are written to a file

The `prefetch-config` command is the only one that writes.  It reads a configuration as a whole,
takes the Go proxies out and writes the rest to a file, which may be the one that was read, by
the same path or through links.  One location changes, the one to which the output leads, and every
path that led somewhere leads to the same place afterwards.  Nothing is left to take out of the
result, so the same command on its own output writes what is there already.

Both steps that can fail come before the change: the input is not a file with a text in it, or the
output is not a place for a file.
-/

open BuildInputs.Path (ofText)

namespace Workspace

/-- The same entry at every location, seen from the same directory. -/
structure SameEntries (first second : Workspace) : Prop where
  directory : first.directory = second.directory
  entries : forall location, first.files.node? location = second.files.node? location

/-- The workspace `after` is what `before` becomes when a text is written along a path that leads to
`spot`.  A path that led to this spot reads as the text, and any other path as before. -/
structure IsRewritten (before : Workspace) (path : Path) (text : Text) (spot : Location)
    (after : Workspace) : Prop where
  directory : after.directory = before.directory
  others : forall other, other ≠ spot -> after.files.node? other = before.files.node? other
  arrives : after.locate path = .ok spot
  reads : after.readText path = .ok text
  paths : forall path there, before.locate path = .ok there -> after.locate path = .ok there
  sameFile : forall path, before.locate path = .ok spot -> after.readText path = .ok text
  otherFile : forall path there, before.locate path = .ok there -> there ≠ spot ->
    after.readText path = before.readText path

variable {workspace later : Workspace} {path : Path} {text : Text}

/-- What a path reads depends on where it leads and on what stands there. -/
theorem readText_congr {first second : Workspace} {path other : Path} {there : Location}
    (located : first.locate path = .ok there) (otherLocated : second.locate other = .ok there)
    (same : first.files.node? there = second.files.node? there) :
    first.readText path = second.readText other := by
  rw [readText, readText, readBytes, readBytes, status, status, located, otherLocated]
  dsimp only [Except.bind]
  rw [same]

theorem exists_isRewritten (written : workspace.writeText path text = .ok later) :
    exists spot, workspace.IsRewritten path text spot later := by
  have reads := readText_writeText written
  have paths := fun other there => @locate_of_written _ _ _ other _ there written
  rcases exists_written written with ⟨spot, writable, rfl, arrives, -⟩
  have others : forall other, other ≠ spot ->
      (workspace.files.put spot (.file (Utf8.encode text))).node? other =
        workspace.files.node? other :=
    fun other different => FileSystem.node?_put_other (Ne.symm different) _
  refine ⟨spot, rfl, others, arrives, reads, paths, ?_, ?_⟩
  · intro other located
    rw [← reads]
    exact readText_congr (paths other spot located) arrives rfl
  · intro other there located different
    exact readText_congr (paths other there located) located (others there different)

/-- What was written can be written again along the same path, and changes nothing then. -/
theorem exists_sameEntries (written : workspace.writeText path text = .ok later) :
    exists again, later.writeText path text = .ok again ∧ SameEntries later again := by
  rcases exists_written written with ⟨spot, writable, rfl, -, placed⟩
  refine ⟨_, Report.map_eq_ok_iff.mpr ⟨spot, placed, rfl⟩, rfl, fun location => ?_⟩
  exact (FileSystem.node?_put_standing (FileSystem.node?_put_same writable.ne_root _)
    writable.ne_root location).symm

end Workspace

namespace CommandLine

variable {workspace changed : Workspace} {config output : Path} {content : Text}
  {environment : Settings.Environment}

/-- What a run of the command leaves behind. -/
def configOutcome (workspace : Workspace) (environment : Settings.Environment)
    (config output : Path) : Outcome :=
  Outcome.ofWork workspace (run workspace environment (.prefetchConfig config (some output)))

/-- Reading and writing decide how the command ends. -/
theorem result_run_prefetchConfig (workspace : Workspace) (environment : Settings.Environment)
    (config output : Path) :
    (run workspace environment (.prefetchConfig config (some output))).result =
      ((workspace.readText config).mapError (.configUnreadable config)).bind fun content =>
        (workspace.writeText output (GoProxy.drop content)).mapError
          (.configUnwritable output) := by
  simp only [run, runPrefetchConfig, Report.result_bind, Report.result_ofExcept]
  cases workspace.readText config with
  | error failure => rfl
  | ok content =>
      simp only [Except.mapError, Except.bind]
      cases workspace.writeText output (GoProxy.drop content) with
      | error failure => rfl
      | ok written => rfl

/-- The command ends in one of two ways: it writes, or a step fails and the files stay as they
were. -/
theorem configOutcome_cases (workspace : Workspace) (environment : Settings.Environment)
    (config output : Path) :
    (exists content changed, workspace.readText config = .ok content ∧
      workspace.writeText output (GoProxy.drop content) = .ok changed ∧
      (configOutcome workspace environment config output).code = 0 ∧
      (configOutcome workspace environment config output).workspace = changed) ∨
    ((forall content, workspace.readText config ≠ .ok content) ∨
      forall spot, workspace.placeToWrite output ≠ .ok spot) ∧
      (configOutcome workspace environment config output).code = 1 ∧
      (configOutcome workspace environment config output).workspace = workspace := by
  have result := result_run_prefetchConfig workspace environment config output
  rw [configOutcome, Outcome.ofWork]
  cases read : workspace.readText config with
  | error failure =>
      rw [read] at result
      rw [result]
      refine .inr ⟨.inl fun _ same => ?_, rfl, rfl⟩
      cases same
  | ok content =>
      rw [read, Except.mapError, Except.bind] at result
      cases written : workspace.writeText output (GoProxy.drop content) with
      | error failure =>
          rw [written] at result
          rw [result]
          have unplaced : forall spot, workspace.placeToWrite output ≠ .ok spot := by
            intro spot placed
            cases (Report.map_eq_error_iff.mp written).symm.trans placed
          exact .inr ⟨.inr unplaced, rfl, rfl⟩
      | ok changed =>
          rw [written] at result
          rw [result]
          exact .inl ⟨content, changed, rfl, written, rfl, rfl⟩

/-- The command succeeds exactly if there is a text in its input and its output is a place for a
file. -/
theorem configOutcome_code_iff :
    (configOutcome workspace environment config output).code = 0 ↔
      (exists content, workspace.readText config = .ok content) ∧
        exists spot, workspace.placeToWrite output = .ok spot := by
  rcases configOutcome_cases workspace environment config output with
    ⟨content, changed, read, written, code, -⟩ | ⟨failed, code, -⟩
  · rcases Report.map_eq_ok_iff.mp written with ⟨spot, placed, -⟩
    exact iff_of_true code ⟨⟨content, read⟩, spot, placed⟩
  · rw [code]
    refine iff_of_false Nat.one_ne_zero ?_
    rintro ⟨⟨content, read⟩, spot, placed⟩
    exact failed.elim (fun unread => unread content read) fun unplaced => unplaced spot placed

/-- A run of the command on its own output finds nothing to take out, and writes what is there. -/
theorem configOutcome_again
    (written : workspace.writeText output (GoProxy.drop content) = .ok changed) :
    (configOutcome changed environment output output).code = 0 ∧
      changed.SameEntries (configOutcome changed environment output output).workspace := by
  have reads := Workspace.readText_writeText written
  rcases Workspace.exists_sameEntries written with ⟨again, rewritten, same⟩
  rcases configOutcome_cases changed environment output output with
    ⟨other, last, read, lastWritten, code, left⟩ | ⟨failed, -, -⟩
  · cases reads.symm.trans read
    rw [GoProxy.drop_drop, rewritten] at lastWritten
    cases lastWritten
    exact ⟨code, left ▸ same⟩
  · rcases Report.map_eq_ok_iff.mp rewritten with ⟨spot, placed, -⟩
    exact absurd placed (failed.elim (fun unread => absurd reads (unread _)) fun unplaced =>
      unplaced spot)

/-- Writing a configuration without Go proxies to a file changes that file alone, and every path
that leads to it reads as the result, whether or not it is the path of the configuration or linked
with it.  A second run on the result changes nothing.  A run that fails changes no file, and it
fails if and only if there is no text in its input or its output is no place for a file. -/
theorem prefetchConfig_rewrites (workspace : Workspace) (environment : Settings.Environment)
    (config output : Path) :
    ((configOutcome workspace environment config output).code = 0 ->
      exists content spot changed, workspace.readText config = .ok content ∧
        (configOutcome workspace environment config output).workspace = changed ∧
        workspace.IsRewritten output (GoProxy.drop content) spot changed ∧
        (configOutcome changed environment output output).code = 0 ∧
        changed.SameEntries (configOutcome changed environment output output).workspace) ∧
    ((configOutcome workspace environment config output).code ≠ 0 ->
      (configOutcome workspace environment config output).workspace = workspace) ∧
    ((configOutcome workspace environment config output).code = 0 ↔
      (exists content, workspace.readText config = .ok content) ∧
        exists spot, workspace.placeToWrite output = .ok spot) := by
  refine ⟨?_, ?_, configOutcome_code_iff⟩
  · intro success
    rcases configOutcome_cases workspace environment config output with
      ⟨content, changed, read, written, -, left⟩ | ⟨-, code, -⟩
    · rcases Workspace.exists_isRewritten written with ⟨spot, rewritten⟩
      exact ⟨content, spot, changed, read, left, rewritten, configOutcome_again written⟩
    · rw [code] at success
      cases success
  · intro fails
    rcases configOutcome_cases workspace environment config output with
      ⟨content, changed, -, -, code, -⟩ | ⟨-, -, left⟩
    · exact absurd code fails
    · exact left

/-- A configuration, and a link to it. -/
def linkedConfig : Workspace where
  files := ⟨[([⟨ofText "config".toList, by decide⟩],
      .file (Utf8.encode "goproxy_url: direct\npip: 1\n".toList)),
    ([⟨ofText "link".toList, by decide⟩], .link (ofText "config".toList))]⟩
  directory := []

/-- The configuration is written over through the link. -/
theorem prefetchConfig_rewrites_linked :
    (configOutcome linkedConfig (fun _ => none) (ofText "config".toList)
        (ofText "link".toList)).code = 0 ∧
      exists spot, linkedConfig.locate (ofText "config".toList) = .ok spot ∧
        linkedConfig.IsRewritten (ofText "link".toList) "pip: 1\n".toList spot
          (configOutcome linkedConfig (fun _ => none) (ofText "config".toList)
            (ofText "link".toList)).workspace := by
  have read : linkedConfig.readText (ofText "config".toList) =
      .ok "goproxy_url: direct\npip: 1\n".toList := by
    apply Workspace.readText_of_encode
    cbv
  have placed : linkedConfig.placeToWrite (ofText "link".toList) =
      .ok [⟨ofText "config".toList, by decide⟩] := by
    cbv
  have success : (configOutcome linkedConfig (fun _ => none) (ofText "config".toList)
      (ofText "link".toList)).code = 0 :=
    configOutcome_code_iff.mpr ⟨⟨_, read⟩, _, placed⟩
  have located : linkedConfig.locate (ofText "config".toList) =
      .ok [⟨ofText "config".toList, by decide⟩] := by
    cbv
  rcases (prefetchConfig_rewrites linkedConfig (fun _ => none) (ofText "config".toList)
    (ofText "link".toList)).1 success with ⟨content, spot, changed, isRead, rfl, rewritten, -⟩
  cases read.symm.trans isRead
  have arrives : linkedConfig.locate (ofText "link".toList) =
      .ok [⟨ofText "config".toList, by decide⟩] := by
    cbv
  cases (rewritten.paths _ _ arrives).symm.trans rewritten.arrives
  exact ⟨success, _, located, rewritten⟩

end CommandLine
end BuildInputs

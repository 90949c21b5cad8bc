import BuildInputs.CommandLine.Outcome
import BuildInputs.Proofs.Auth.Narrowing
import BuildInputs.Proofs.Auth.Users

namespace BuildInputs
namespace CommandLine

/-!
# Passwords are not given away

Somebody who sees everything that the `auth` command gives out learns the user name of the chosen
token and nothing about its password, as long as the command is not asked for the token itself.
This is a statement about two runs.  They may work on any files, as long as the two auth files
differ in nothing but passwords, and then nobody can tell one run from the other: not by what they
print, not by an error, not by the log and not by the exit code.
-/

open BuildInputs.Path (ofText)

/-- The auth file that the command reads: the one that is named, or the default one. -/
def authFilePath (environment : Settings.Environment) :
    Option Path -> Except InputError Path
  | some path => .ok path
  | none => Auth.defaultFile environment

/-- The lines that the command prints about a user. -/
def sayUser (path : Path) (registry username : Text) : Work Unit := do
  tell ("認証ファイル: ".toList ++ path.display)
  say ("registry: ".toList ++ registry)
  say ("username: ".toList ++ username)

/-- What the command does about an auth file, once it is read, in terms of the user that was
chosen. -/
def showUser (path : Path) (chosen : Except InputError (Text × Except InputError Text)) :
    Work Unit := do
  let (registry, user) ← ofCheck chosen
  let username ← ofCheck user
  sayUser path registry username

section

variable {environment : Settings.Environment} {image : Text} {authFile : Option Path} {path : Path}

theorem ofCheck_map_bind {α β γ : Type} (check : Except InputError α) (change : α -> β)
    (next : β -> Work γ) :
    ofCheck (check.map change) >>= next = ofCheck check >>= fun value => next (change value) := by
  cases check <;> rfl

/-- Of the chosen token only its user is looked at. -/
theorem showUser_chosenUser (path : Path) (file : AuthFile) (repository : Text) :
    showUser path (Auth.chosenUser file repository) =
      ofCheck (Auth.choose file repository) >>= fun auth =>
        ofCheck auth.credentials >>= fun credentials =>
          sayUser path auth.registry credentials.username := by
  unfold showUser Auth.chosenUser Auth.userOf
  rw [ofCheck_map_bind]
  simp only [ofCheck_map_bind]
  rfl

theorem ofReport_select {workspace : Workspace} {file : AuthFile}
    (loaded : Auth.load workspace path = .ok file) :
    ofReport (Auth.select workspace path image) =
      if Image.name image = [] then Report.fail (.input (.badReference image))
      else
        noteEvent (.selectingAuth (Image.name image) path) >>= fun _ =>
          ofCheck (Auth.choose file (Image.name image)) := by
  rw [Auth.select, loaded]
  split
  · rfl
  · have read : (Report.ofExcept (Except.ok file) >>= fun file =>
        Report.ofExcept (Auth.choose file (Image.name image))) =
          (Report.ofExcept (Auth.choose file (Image.name image)) :
            Report Event InputError Auth.RegistryAuth) :=
      rfl
    rw [read]
    cases Auth.choose file (Image.name image) <;> rfl

/-- The whole command, for an auth file that can be read. -/
theorem runAuth_eq {workspace : Workspace} {file : AuthFile}
    (named : authFilePath environment authFile = .ok path)
    (loaded : Auth.load workspace path = .ok file) :
    runAuth workspace environment image authFile false =
      if Image.name image = [] then Report.fail (.input (.badReference image))
      else
        noteEvent (.selectingAuth (Image.name image) path) >>= fun _ =>
          showUser path (Auth.chosenUser file (Image.name image)) := by
  have start : runAuth workspace environment image authFile false =
      ofReport (Auth.select workspace path image) >>= fun auth =>
        ofCheck auth.credentials >>= fun credentials =>
          sayUser path auth.registry credentials.username := by
    cases authFile with
    | some given =>
        cases named
        rfl
    | none =>
        have default : Auth.defaultFile environment = .ok path := named
        rw [runAuth, default]
        rfl
  rw [start, ofReport_select loaded, showUser_chosenUser]
  split
  · rfl
  · rw [bind_assoc]

/-- Auth files that differ in passwords only make no difference to the command. -/
theorem runAuth_sameUsers {first second : Workspace} {file other : AuthFile}
    (named : authFilePath environment authFile = .ok path)
    (loaded : Auth.load first path = .ok file) (otherLoaded : Auth.load second path = .ok other)
    (alike : file.SameUsers other) :
    runAuth first environment image authFile false =
      runAuth second environment image authFile false := by
  rw [runAuth_eq named loaded, runAuth_eq named otherLoaded,
    Auth.chosenUser_eq alike (Image.name image)]

end

/-! ## What is seen of a run -/

/-- Everything that a run gives out, without the files that it leaves. -/
structure Outcome.LooksLike (first second : Outcome) : Prop where
  code : first.code = second.code
  output : first.output = second.output
  notices : first.notices = second.notices
  events : first.events = second.events

/-- What is seen of work that leaves the files as they are does not depend on these. -/
theorem looksLike_ofWork (first second : Workspace) (work : Work Unit) :
    (Outcome.ofWork first (work >>= fun _ => pure first)).LooksLike
      (Outcome.ofWork second (work >>= fun _ => pure second)) := by
  rcases work with ⟨notes, error | done⟩
  · exact ⟨rfl, rfl, rfl, rfl⟩
  · exact ⟨rfl, rfl, rfl, rfl⟩

/-- Two runs of the command for the same image look alike if the auth files that they read have the
same scopes and these differ in the passwords only.  Whether the runs succeed, and which error they
end with, is part of what is seen.  It does not matter which arguments ask for the command. -/
theorem auth_keeps_passwords {environment : Settings.Environment} {image : Text}
    {authFile : Option Path} {path : Path} {first second : Workspace} {file other : AuthFile}
    (named : authFilePath environment authFile = .ok path)
    (loaded : Auth.load first path = .ok file) (otherLoaded : Auth.load second path = .ok other)
    (alike : file.SameUsers other) :
    (Outcome.ofWork first (run first environment (.auth image authFile false))).LooksLike
        (Outcome.ofWork second (run second environment (.auth image authFile false))) ∧
      forall arguments, Command.read environment arguments = .ok (.auth image authFile false) ->
        (Outcome.ofArguments first environment arguments).LooksLike
          (Outcome.ofArguments second environment arguments) := by
  have seen := looksLike_ofWork first second (runAuth first environment image authFile false)
  have same : runAuth first environment image authFile false =
      runAuth second environment image authFile false :=
    runAuth_sameUsers named loaded otherLoaded alike
  have runs : (Outcome.ofWork first (run first environment (.auth image authFile false))).LooksLike
      (Outcome.ofWork second (run second environment (.auth image authFile false))) := by
    rw [run, run, ← same]
    exact seen
  refine ⟨runs, ?_⟩
  intro arguments asked
  rw [Outcome.ofArguments, Outcome.ofArguments, asked]
  exact runs

/-- A file with a token for a registry and the given token for one of its repositories. -/
def quayTokens (token : Text) : Workspace where
  files := ⟨[([⟨ofText "tokens".toList, by decide⟩], .file (Utf8.encode
    ("\x7b\"auths\":\x7b\"quay.io\":\x7b\"auth\":\"eDp5\"\x7d,\"quay.io/app\":".toList ++
      "\x7b\"auth\":\"".toList ++ token ++ "\"\x7d\x7d\x7d".toList)))]⟩
  directory := []

theorem readBytes_quayTokens (token : Text) :
    (quayTokens token).readBytes (ofText "tokens".toList) = .ok (Utf8.encode
      ("\x7b\"auths\":\x7b\"quay.io\":\x7b\"auth\":\"eDp5\"\x7d,\"quay.io/app\":".toList ++
        "\x7b\"auth\":\"".toList ++ token ++ "\"\x7d\x7d\x7d".toList)) := by
  cbv

/-- Arguments that ask for the user of an image in that repository. -/
def userArguments : List Text :=
  ["auth".toList, "quay.io/app:1".toList, "--authfile".toList, "tokens".toList]

/-- The second password holds a colon and a letter outside of ASCII. -/
theorem auth_keeps_passwords_colon :
    Auth.credentialsOf "dTpw".toList = .ok ⟨"u".toList, "p".toList⟩ ∧
      Auth.credentialsOf "dTrDvDo=".toList = .ok ⟨"u".toList, "ü:".toList⟩ ∧
      (Outcome.ofArguments (quayTokens "dTpw".toList) (fun _ => none) userArguments).output =
        "registry: quay.io\nusername: u\n".toList ∧
      (Outcome.ofArguments (quayTokens "dTpw".toList) (fun _ => none) userArguments).LooksLike
        (Outcome.ofArguments (quayTokens "dTrDvDo=".toList) (fun _ => none) userArguments) := by
  have firstUser : Auth.credentialsOf "dTpw".toList = .ok ⟨"u".toList, "p".toList⟩ := by
    rfl
  have secondUser : Auth.credentialsOf "dTrDvDo=".toList = .ok ⟨"u".toList, "ü:".toList⟩ := by
    rfl
  have asked : Command.read (fun _ => none) userArguments =
      .ok (.auth "quay.io/app:1".toList (some (ofText "tokens".toList)) false) := by
    rfl
  have loaded : Auth.load (quayTokens "dTpw".toList) (ofText "tokens".toList) =
      .ok ⟨[("quay.io/app".toList, "dTpw".toList), ("quay.io".toList, "eDp5".toList)]⟩ :=
    Auth.load_of_encode (readBytes_quayTokens _) (by cbv)
  have otherLoaded : Auth.load (quayTokens "dTrDvDo=".toList) (ofText "tokens".toList) =
      .ok ⟨[("quay.io/app".toList, "dTrDvDo=".toList), ("quay.io".toList, "eDp5".toList)]⟩ :=
    Auth.load_of_encode (readBytes_quayTokens _) (by cbv)
  have shown : (Outcome.ofArguments (quayTokens "dTpw".toList) (fun _ => none)
      userArguments).output = "registry: quay.io\nusername: u\n".toList := by
    rw [Outcome.ofArguments, asked]
    dsimp only
    rw [run, runAuth_eq rfl loaded]
    rfl
  have alike : AuthFile.SameUsers
      ⟨[("quay.io/app".toList, "dTpw".toList), ("quay.io".toList, "eDp5".toList)]⟩
      ⟨[("quay.io/app".toList, "dTrDvDo=".toList), ("quay.io".toList, "eDp5".toList)]⟩ :=
    .of_scopes (.cons ⟨rfl, .inr ⟨_, _, _, firstUser, secondUser⟩⟩ (.cons ⟨rfl, .inl rfl⟩ .nil))
  exact ⟨firstUser, secondUser, shown,
    (auth_keeps_passwords rfl loaded otherLoaded alike).2 userArguments asked⟩

end CommandLine
end BuildInputs

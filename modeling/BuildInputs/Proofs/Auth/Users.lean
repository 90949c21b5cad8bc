import Mathlib.Data.List.Forall2
import Mathlib.Data.Option.Basic
import BuildInputs.Auth.Selection

namespace BuildInputs

/-!
# Tokens of the same user

Two tokens that differ in the password only have the same user.  If that is all that two auth files
differ in, the same scope answers in both of them for any repository, since a scope is chosen by
its name, and a token that holds credentials is never empty.  What can be told apart afterwards is
the token that was chosen, and not the user.
-/

namespace Auth

/-- The same token, or two tokens with the same user and any two passwords. -/
def SameUser (first second : Text) : Prop :=
  first = second ∨
    exists username firstPassword secondPassword,
      credentialsOf first = .ok ⟨username, firstPassword⟩ ∧
        credentialsOf second = .ok ⟨username, secondPassword⟩

/-- The user of a token, or why it has none. -/
def userOf (token : Text) : Except InputError Text :=
  (credentialsOf token).map Credentials.username

theorem SameUser.userOf_eq {first second : Text} (same : SameUser first second) :
    userOf first = userOf second := by
  rcases same with rfl | ⟨username, firstPassword, secondPassword, isFirst, isSecond⟩
  · rfl
  · rw [userOf, userOf, isFirst, isSecond]
    rfl

theorem ne_nil_of_credentialsOf {token : Text} {credentials : Credentials}
    (holds : credentialsOf token = .ok credentials) : token ≠ [] := by
  rintro rfl
  cases holds

/-- A token is empty, which counts as missing, only if every token of the same user is. -/
theorem SameUser.nil_iff {first second : Text} (same : SameUser first second) :
    first = [] ↔ second = [] := by
  rcases same with rfl | ⟨username, firstPassword, secondPassword, isFirst, isSecond⟩
  · exact Iff.rfl
  · exact iff_of_false (ne_nil_of_credentialsOf isFirst) (ne_nil_of_credentialsOf isSecond)

end Auth

namespace AuthFile

/-- The same scopes, each with tokens of the same user. -/
def SameUsers (first second : AuthFile) : Prop :=
  forall scope, Option.Rel Auth.SameUser (first.token? scope) (second.token? scope)

variable {first second : AuthFile}

/-- The first answer in a list comes from the same place in both lists. -/
theorem rel_findSome? {α β : Type} {related : β -> β -> Prop} {ask other : α -> Option β}
    (alike : forall question, Option.Rel related (ask question) (other question))
    (questions : List α) :
    Option.Rel related (questions.findSome? ask) (questions.findSome? other) := by
  induction questions with
  | nil => exact .none
  | cons question questions ih =>
      rw [List.findSome?_cons, List.findSome?_cons]
      have here := alike question
      generalize ask question = answer at here
      generalize other question = otherAnswer at here
      cases here with
      | none => exact ih
      | some same => exact .some same

/-- The same scopes in the same order, each with tokens of the same user. -/
theorem SameUsers.of_scopes
    (alike : List.Forall₂ (fun entry other => entry.1 = other.1 ∧ Auth.SameUser entry.2 other.2)
      first.scopes second.scopes) : first.SameUsers second := by
  intro scope
  rw [token?, token?]
  generalize first.scopes = entries at alike
  generalize second.scopes = others at alike
  induction alike with
  | nil => exact .none
  | cons here _ ih =>
      rw [List.find?_cons, List.find?_cons, ← here.1]
      split
      · exact .some here.2
      · exact ih

theorem SameUsers.find? (alike : SameUsers first second) (repository : Text) :
    Option.Rel Auth.SameUser (first.find? repository) (second.find? repository) := by
  have walked := rel_findSome? alike (scopesFor repository)
  rw [AuthFile.find?, AuthFile.find?]
  generalize (scopesFor repository).findSome? first.token? = answer at walked
  generalize (scopesFor repository).findSome? second.token? = otherAnswer at walked
  cases walked with
  | some same => exact .some same
  | none =>
      dsimp only
      split
      · exact alike Settings.dockerIndex
      · exact .none

end AuthFile

namespace Auth

theorem choose_of_nonempty {file : AuthFile} {repository token : Text}
    (found : file.find? repository = some token) (nonempty : token ≠ []) :
    choose file repository = .ok ⟨AuthFile.registryOf repository, token⟩ := by
  rw [choose, found]
  cases token with
  | nil => exact absurd rfl nonempty
  | cons first rest => rfl

theorem choose_of_empty {file : AuthFile} {repository : Text}
    (found : file.find? repository = some []) :
    choose file repository = .error (.authNotConfigured repository) := by
  rw [choose, found]

theorem choose_of_missing {file : AuthFile} {repository : Text}
    (missing : file.find? repository = none) :
    choose file repository = .error (.authNotConfigured repository) := by
  rw [choose, missing]

/-- What is chosen for a repository, with its user in the place of the token. -/
def chosenUser (file : AuthFile) (repository : Text) :
    Except InputError (Text × Except InputError Text) :=
  (choose file repository).map fun auth => (auth.registry, userOf auth.token)

/-- Whether something is chosen does not depend on the passwords, and neither does its user. -/
theorem chosenUser_eq {first second : AuthFile} (alike : first.SameUsers second)
    (repository : Text) : chosenUser first repository = chosenUser second repository := by
  have found := alike.find? repository
  unfold chosenUser
  cases answer : first.find? repository with
  | none =>
      rw [answer] at found
      cases other : second.find? repository with
      | none => rw [choose_of_missing answer, choose_of_missing other]
      | some token =>
          rw [other] at found
          cases found
  | some token =>
      rw [answer] at found
      cases other : second.find? repository with
      | none =>
          rw [other] at found
          cases found
      | some otherToken =>
          rw [other] at found
          cases found with
          | some same =>
              by_cases empty : token = []
              · have otherEmpty := same.nil_iff.mp empty
                subst empty otherEmpty
                rw [choose_of_empty answer, choose_of_empty other]
              · have nonempty := fun nil => empty (same.nil_iff.mpr nil)
                rw [choose_of_nonempty answer empty, choose_of_nonempty other nonempty]
                exact congrArg (fun user => Except.ok (_, user)) same.userOf_eq

end Auth
end BuildInputs

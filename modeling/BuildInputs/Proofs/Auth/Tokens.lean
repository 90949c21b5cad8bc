import Mathlib.Logic.ExistsUnique
import BuildInputs.Auth.Credentials
import BuildInputs.Proofs.Text.Base64
import BuildInputs.Proofs.Text.Cuts

namespace BuildInputs
namespace Auth

open Text

/-!
# Tokens are written in one way

Reading a token undoes writing one.  Each of its three steps is exact, since base64 with required
padding and UTF-8 have one form each, and since the first colon is where a user name without a colon
ends.  So credentials are read from the one token that is written for them, and every other token
is refused.
-/

/-- What is read from a token are the credentials that it is written for. -/
theorem readToken_eq_ok_iff {token : Text} {credentials : Credentials} :
    readToken token = .ok credentials ↔
      ':' ∉ credentials.username ∧ Utf8.encode token = encodeToken credentials := by
  constructor
  · intro isRead
    unfold readToken at isRead
    split at isRead
    · cases isRead
    next bytes decoded =>
    split at isRead
    · cases isRead
    next text isText =>
    split at isRead
    · next username password cut =>
        cases isRead
        obtain ⟨whole, free⟩ := cutFirst_eq_some_iff.mp cut
        rw [Base64.decode_eq_ok_iff.mp decoded, Utf8.decode_eq_ok_iff.mp isText, whole]
        exact ⟨free, rfl⟩
    · cases isRead
  · rintro ⟨free, written⟩
    have decoded := Base64.decode_eq_ok_iff.mpr written
    have isText := Utf8.decode_encode (credentials.username ++ ':' :: credentials.password)
    have cut := cutFirst_append free credentials.password
    simp only [readToken, decoded, isText, cut]

theorem credentialsOf_eq_ok_iff {token : Text} {credentials : Credentials} :
    credentialsOf token = .ok credentials ↔
      ':' ∉ credentials.username ∧ Utf8.encode token = encodeToken credentials := by
  rw [← readToken_eq_ok_iff, credentialsOf]
  cases readToken token with
  | error error => exact iff_of_false nofun nofun
  | ok read =>
      change (.ok read : Except InputError Credentials) = .ok credentials ↔ _
      rw [Except.ok.injEq, Except.ok.injEq]

/-- A token holds credentials exactly if it is their written form: base64 with padding of the user
name, a colon and the password in UTF-8, with no colon in the user name.  Every user name without a
colon has just one token with any password, and every token that holds no credentials is refused
for its form. -/
theorem credentialsOf_inverts_writing :
    (forall (token username password : Text),
      credentialsOf token = .ok ⟨username, password⟩ ↔
        ':' ∉ username ∧
          Utf8.encode token = Base64.encode (Utf8.encode (username ++ ':' :: password))) ∧
    (forall username password : Text,
      (∃! token, credentialsOf token = .ok ⟨username, password⟩) ↔ ':' ∉ username) ∧
    (forall token : Text,
      (exists credentials, credentialsOf token = .ok credentials) ∨
        exists error : TokenError, credentialsOf token = .error (.badCredential error.message)) := by
  refine ⟨fun token username password => credentialsOf_eq_ok_iff, ?_, ?_⟩
  · intro username password
    constructor
    · rintro ⟨token, holds, -⟩
      exact (credentialsOf_eq_ok_iff.mp holds).1
    · intro free
      obtain ⟨token, written⟩ := Base64.exists_text (Utf8.encode (username ++ ':' :: password))
      refine ⟨token, credentialsOf_eq_ok_iff.mpr ⟨free, written⟩, ?_⟩
      intro other holds
      exact Utf8.encode_injective ((credentialsOf_eq_ok_iff.mp holds).2.trans written.symm)
  · intro token
    rw [credentialsOf]
    cases readToken token with
    | error error => exact Or.inr ⟨error, rfl⟩
    | ok credentials => exact Or.inl ⟨credentials, rfl⟩

/-- The second form leaves bits over that belong to no byte. -/
example : credentialsOf "dTo=".toList = .ok ⟨"u".toList, []⟩ ∧
    credentialsOf "dTp=".toList = .error
      (.badCredential (TokenError.notBase64 (.invalidLastSymbol 112 2)).message) :=
  ⟨rfl, rfl⟩

end Auth
end BuildInputs

import BuildInputs.InputError
import BuildInputs.Text.Base64
import BuildInputs.Text.Utf8

namespace BuildInputs
namespace Auth

/-!
# Credentials

A token is the base64 form of a user name, a colon and a password.  The user name ends at the
first colon, so a password may hold further ones, and either may be empty.
-/

structure Credentials where
  username : Text
  password : Text
  deriving DecidableEq, Repr

/-- Why a token holds no credentials. -/
inductive TokenError where
  | notBase64 (error : Base64.Error)
  | notUtf8 (error : Utf8.Error)
  | noColon
  deriving DecidableEq, Repr

def TokenError.message : TokenError -> Text
  | .notBase64 error => "failed to decode token: ".toList ++ error.message
  | .notUtf8 error => "invalid UTF-8 in token: ".toList ++ error.message
  | .noColon => "expected 'username:password'".toList

def encodeToken (credentials : Credentials) : List UInt8 :=
  Base64.encode (Utf8.encode (credentials.username ++ ':' :: credentials.password))

/-- The credentials in a token, or why there are none. -/
def readToken (token : Text) : Except TokenError Credentials :=
  match Base64.decode (Utf8.encode token) with
  | .error error => .error (.notBase64 error)
  | .ok bytes =>
      match Utf8.decode bytes with
      | .error error => .error (.notUtf8 error)
      | .ok text =>
          match Text.cutFirst ':' text with
          | some (username, password) => .ok ⟨username, password⟩
          | none => .error .noColon

def credentialsOf (token : Text) : Except InputError Credentials :=
  (readToken token).mapError fun error => .badCredential error.message

end Auth
end BuildInputs

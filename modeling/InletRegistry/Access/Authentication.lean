import InletRegistry.Access.Token
import InletRegistry.Text.Blank
import InletRegistry.Text.Pieces

/-!
# Who is calling

The caller of a request is the subject of its bearer token. Where authentication is off, or the path
is public, it is the anonymous principal whatever the request carries. A path is public if a public
path is the path itself or ends where one of the path's slashes stands.
-/

namespace InletRegistry.Access

open InletRegistry.Text

/-- How callers are told apart. -/
structure AuthSettings where
  enabled : Bool
  jwtSecret : Option String
  anonymousPrincipal : String
  publicPaths : List String
  deriving DecidableEq, Repr

namespace AuthSettings

def default : AuthSettings := ⟨false, none, "anonymous", ["/health", "/cluster/status"]⟩

def isPublic (a : AuthSettings) (path : String) : Bool :=
  a.publicPaths.any fun p => reaches p path

end AuthSettings

/-- A letter of ASCII in lower case, and any other character as it is. -/
def lowerAscii (c : Char) : Char := if 'A' ≤ c ∧ c ≤ 'Z' then Char.ofNat (c.toNat + 32) else c

/-- Whether a word names the bearer scheme, in any letter case. -/
def isBearer (scheme : List Char) : Bool := scheme.map lowerAscii == "bearer".toList

/-- What the nodes share to sign tokens, which may be any octets. -/
abbrev Secret := List UInt8

namespace Secret

def validate (secret : Secret) (now : Nat) (token : List Char) : Except Failure String :=
  match Token.accept secret now token with
  | .ok subject => .ok subject
  | .error fault => .error fault.toFailure

/-- The caller that an authorization names: a scheme, a space and a token, which blanks may
surround. -/
def authenticate (secret : Secret) (now : Nat) (authorization : List Char) :
    Except Failure String :=
  let scheme := authorization.takeWhile (· ≠ ' ')
  match authorization.dropWhile (· ≠ ' ') with
  | [] => .error (.unauthenticated "invalid Authorization header format")
  | _ :: token =>
    if isBearer scheme then validate secret now (trimList token)
    else .error (.unauthenticated ("unsupported auth scheme: " ++ String.ofList scheme))

end Secret

/-- Whom a token is for, under a secret that is a text. -/
def validate (secret : String) (now : Nat) (token : List Char) : Except Failure String :=
  Secret.validate (Utf8.encode secret) now token

/-- The caller that an authorization names, under a secret that is a text. -/
def authenticate (secret : String) (now : Nat) (authorization : List Char) :
    Except Failure String :=
  Secret.authenticate (Utf8.encode secret) now authorization

/-- The caller of a request for a path; `authorization` is the text of its first authorization
header, if that is readable. -/
def callerOf (a : AuthSettings) (now : Nat) (path : String) (authorization : Option (List Char)) :
    Except Failure String :=
  if !a.enabled || a.isPublic path then .ok a.anonymousPrincipal
  else match a.jwtSecret with
    | none => .error (.internal "authentication enabled without a token secret")
    | some secret =>
      match authorization with
      | none =>
        .error (.unauthenticated "provide an Authorization header with 'Bearer <token>'")
      | some text => authenticate secret now text

end InletRegistry.Access

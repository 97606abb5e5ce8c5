import InletRegistry.Digest.Sha256
import InletRegistry.Failure
import InletRegistry.Json.Printer
import InletRegistry.Json.Reader
import InletRegistry.Json.Record
import InletRegistry.Text.Base64

/-!
# Bearer tokens

A token is a header, claims and a signature in URL-safe Base64 with dots between them; the signature
is the digest of the first two parts under the secret that the nodes share. A token is read from
the right, so only its last two dots divide it. It is accepted if its header names the algorithm,
its signature is the one that the secret gives, its claims can be read, it has not expired for more
than the leeway, and it is not meant for a particular audience.
-/

namespace InletRegistry.Access

open InletRegistry.Text InletRegistry.Digest

/-- Why a token is not accepted. -/
inductive TokenFault where
  | malformed
  | encoding
  | contents
  | algorithm
  | signature
  | expired
  | audience
  deriving DecidableEq, Repr

namespace TokenFault

def message : TokenFault → String
  | malformed => "InvalidToken"
  | encoding => "Base64 error: not an encoding of octets"
  | contents => "JSON error: not of the expected form"
  | algorithm => "InvalidAlgorithm"
  | signature => "InvalidSignature"
  | expired => "ExpiredSignature"
  | audience => "InvalidAudience"

/-- A fault as a failure of the request that carried the token. -/
def toFailure (f : TokenFault) : Failure := .unauthenticated ("invalid token: " ++ f.message)

end TokenFault

/-- What a token claims; times are in seconds since the start of 1970. -/
structure Claims where
  subject : String
  expires : Nat
  issued : Nat
  deriving DecidableEq, Repr

namespace Token

/-! ## Issuing -/

def header : Json := .object [("typ", .text "JWT"), ("alg", .text "HS256")]

def claimsJson (c : Claims) : Json :=
  .object [("sub", .text c.subject), ("exp", .natural c.expires), ("iat", .natural c.issued)]

/-- Seconds for which a token is good if nothing else is asked for: one day. -/
def defaultLifetime : Nat := 86400

def claimsFor (now : Nat) (identity : String) (lifetime : Option Nat) : Claims :=
  ⟨identity, now + lifetime.getD defaultLifetime, now⟩

def signature (secret : List UInt8) (text : List Char) : List Char :=
  Base64.encode (Hmac.sign secret (Utf8.encodeList text))

def issue (secret : List UInt8) (now : Nat) (identity : String) (lifetime : Option Nat) :
    List Char :=
  let signed := Base64.encode header.octets ++
    '.' :: Base64.encode (claimsJson (claimsFor now identity lifetime)).octets
  signed ++ '.' :: signature secret signed

/-! ## Reading -/

/-- A token's parts. -/
structure Parts where
  header : List Char
  claims : List Char
  signature : List Char
  deriving DecidableEq, Repr

def splitLast? (cs : List Char) : Option (List Char × List Char) :=
  match cs.reverse.dropWhile (· ≠ '.') with
  | [] => none
  | _ :: front => some (front.reverse, (cs.reverse.takeWhile (· ≠ '.')).reverse)

def parts? (cs : List Char) : Option Parts :=
  match splitLast? cs with
  | none => none
  | some (signed, signature) =>
    (splitLast? signed).map fun (header, claims) => ⟨header, claims, signature⟩

/-- The algorithms that a header may name; only `HS256` is accepted. -/
def algorithms : List String :=
  ["HS256", "HS384", "HS512", "ES256", "ES384", "RS256", "RS384", "RS512", "PS256", "PS384",
    "PS512", "EdDSA"]

/-- The curves that a public key may be on. -/
def curves : List String := ["P-256", "P-384", "P-521", "Ed25519"]

/-- Whether a document is one of some names. -/
def isAmong (names : List String) (s : Json.Source) : Bool :=
  (s.toChoice? (names.map fun n => (n, n))).isSome

def isText (s : Json.Source) : Bool := s.toText?.isSome

def isTexts (s : Json.Source) : Bool := (Document.toList? Json.Source.toText? s).isSome

/-- Whether a field that may be left out is what it must be. -/
def fitsIfGiven (isValid : Json.Source → Bool) (field : Option Json.Source) : Bool :=
  (field.filter fun s => !Document.isAbsent s).all isValid

/-- What a public key may say of itself, whatever kind it is of. -/
def keyFields : List (String × (Json.Source → Bool)) :=
  [("use", isText), ("key_ops", isTexts),
    ("alg", isAmong (algorithms ++ ["RSA1_5", "RSA-OAEP", "RSA-OAEP-256"])), ("kid", isText),
    ("x5u", isText), ("x5c", isTexts), ("x5t", isText), ("x5t#S256", isText)]

/-- The kinds of public keys, with what a key of each kind must have. -/
def keyKinds : List (List (String × (Json.Source → Bool))) :=
  [[("kty", isAmong ["EC"]), ("crv", isAmong curves), ("x", isText), ("y", isText)],
    [("kty", isAmong ["RSA"]), ("n", isText), ("e", isText)],
    [("kty", isAmong ["oct"]), ("k", isText)],
    [("kty", isAmong ["OKP"]), ("crv", isAmong curves), ("x", isText)]]

/-- Whether the fields of a document are what they must be, each one alone. -/
def hasFields (fits : (Json.Source → Bool) → Option Json.Source → Bool)
    (fields : List (String × (Json.Source → Bool))) (s : Json.Source) : Bool :=
  match s.fields? (fields.map (·.1)) 0 with
  | some found => (fields.zip found).all fun (field, given) => fits field.2 given
  | none => false

/-- Whether a document is a public key: an object without anything undecodable in it, which is a key of
one of the kinds. Nothing else is asked of the key, for it is not used. -/
def isKey (s : Json.Source) : Bool :=
  match s with
  | .object _ =>
    (s.value? (Json.Source.greatestDepth - 1)).isSome &&
      hasFields fitsIfGiven keyFields s &&
      keyKinds.any fun kind => hasFields (fun isValid field => field.any isValid) kind s
  | _ => false

/-- The algorithm that a header names, if the header can be read. -/
def algorithmOf? (s : Json.Source) : Option String :=
  match s.fields?
      ["typ", "alg", "cty", "jku", "jwk", "kid", "x5u", "x5c", "x5t", "x5t#S256"] 10 with
  | some [typ, alg, cty, jku, jwk, kid, x5u, x5c, x5t, thumbprint] =>
    let texts := [typ, cty, jku, kid, x5u, x5t, thumbprint]
    if texts.all (fitsIfGiven isText) && fitsIfGiven isTexts x5c && fitsIfGiven isKey jwk then
      Document.required (Json.Source.toChoice? (algorithms.map fun a => (a, a))) alg
    else none
  | _ => none

/-- Whether a claim that is not used can be passed over: it is absent or holds nothing
undecodable. -/
def isPassable (claim : Option Json.Source) : Bool :=
  match claim with
  | none => true
  | some s => (s.value? (Json.Source.greatestDepth - 1)).isSome

/-- Whether a time can be passed over: it is not a list or an object that holds anything. -/
def isPassableTime : Option Json.Source → Bool
  | some (.list (_ :: _)) => false
  | some (.object (_ :: _)) => false
  | _ => true

/-- Whether a claim is an audience: a text or a list of texts. -/
def isAudience : Option Json.Source → Bool
  | some (.text _) => true
  | some (.list items) => items.all fun i => i.toText?.isSome
  | _ => false

/-- The claims of a document, and whether it names an audience. -/
def claimsOf? (s : Json.Source) : Option (Claims × Bool) :=
  match s with
  | .object _ =>
    match s.fields? ["sub", "exp", "iat", "aud", "iss", "nbf"] 6 with
    | some [sub, exp, iat, aud, iss, nbf] =>
      match Document.required Json.Source.toText? sub,
          Document.required (Json.Source.toNatural? Decimal.word64) exp,
          Document.required (Json.Source.toNatural? Decimal.word64) iat with
      | some s, some e, some i =>
        if isPassable aud && isPassable iss && isPassableTime nbf then
          some (⟨s, e, i⟩, isAudience aud)
        else none
      | _, _, _ => none
    | _ => none
  | _ => none

def document (part : List Char) : Except TokenFault Json.Source :=
  match Base64.decode? part with
  | none => .error .encoding
  | some bs =>
    match Json.Source.read? bs with
    | none => .error .contents
    | some s => .ok s

/-- Seconds for which an expired token is still accepted. -/
def leeway : Nat := 60

/-- The subject of an accepted token, read from its parts. -/
def acceptParts (secret : List UInt8) (now : Nat) (p : Parts) : Except TokenFault String :=
  match document p.header with
  | .error f => .error f
  | .ok header =>
    match algorithmOf? header with
    | none => .error .contents
    | some algorithm =>
      if algorithm ≠ "HS256" then .error .algorithm
      else if signature secret (p.header ++ '.' :: p.claims) ≠ p.signature then .error .signature
      else match document p.claims with
        | .error f => .error f
        | .ok claims =>
          match claimsOf? claims with
          | none => .error .contents
          | some (c, hasAudience) =>
            if c.expires + leeway < now then .error .expired
            else if hasAudience then .error .audience
            else .ok c.subject

def accept (secret : List UInt8) (now : Nat) (token : List Char) : Except TokenFault String :=
  match parts? token with
  | none => .error .malformed
  | some p => acceptParts secret now p

end Token

end InletRegistry.Access

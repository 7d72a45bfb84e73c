import Krabka.Lib.ByteStream

/-!
# `Security.Principal` — mechanisms, principals and errors

The types that every SASL mechanism of the `krabka-security` crate shares. Texts are lists of characters
throughout the crate's model.
-/

namespace Krabka.Security

inductive SaslMechanism where
  | plain
  | scramSha256
  | scramSha512
  | oAuthBearer
  | gssapi
deriving DecidableEq, Repr

def SaslMechanism.isScram : SaslMechanism → Bool
  | .scramSha256 => true
  | .scramSha512 => true
  | _ => false

/-- How a principal was authenticated. -/
inductive AuthMethod where
  | anonymous
  | saslPlain
  | saslScramSha256
  | saslScramSha512
  | saslOAuthBearer
  | saslGssapi
  | mTls
deriving DecidableEq, Repr

def AuthMethod.fromSasl : SaslMechanism → AuthMethod
  | .plain => .saslPlain
  | .scramSha256 => .saslScramSha256
  | .scramSha512 => .saslScramSha512
  | .oAuthBearer => .saslOAuthBearer
  | .gssapi => .saslGssapi

structure Principal where
  name : List Char
  authMethod : AuthMethod
  groups : List (List Char)
deriving DecidableEq, Repr

inductive AuthError where
  | unknownUser
  | badPassword
  | badProof
  | malformedMessage
  | unsupportedMechanism
  | authorizationIdMismatch
  | invalidToken
  | introspectionTransport (text : List Char)
  | insufficientScope (requiredScope : List (List Char))
deriving DecidableEq, Repr

end Krabka.Security

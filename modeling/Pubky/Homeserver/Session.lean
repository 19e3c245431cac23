import Pubky.Common.Jws

/-!
# Resolved sessions

`client_server/auth/session.rs`: the authentication context that the middleware attaches to
a request, from a cookie or from a grant bearer.
-/

namespace Pubky.Homeserver

/-- A deprecated cookie session, `auth/cookie/persistence.rs`. -/
structure SessionEntity where
  id : ℕ
  secret : Text
  userId : ℕ
  userPubkey : PublicKey
  capabilities : Capabilities
  deriving DecidableEq

/-- A session resolved from a grant bearer, `auth/grant/session.rs`. -/
structure GrantSession where
  userKey : PublicKey
  capabilities : Capabilities
  grantId : GrantId
  tokenExpiresAt : UInt64
  tokenHash : Bytes
  deriving DecidableEq

inductive AuthSession where
  | cookie (session : SessionEntity)
  | grant (session : GrantSession)
  deriving DecidableEq

namespace AuthSession

/-- Capabilities regardless of auth method. -/
def capabilities : AuthSession → Capabilities
  | cookie c => c.capabilities
  | grant b => b.capabilities

/-- User public key regardless of auth method. -/
def userKey : AuthSession → PublicKey
  | cookie c => c.userPubkey
  | grant b => b.userKey

end AuthSession

end Pubky.Homeserver

import Pubky.Homeserver.Session
import Pubky.Homeserver.Storage.Entities

/-!
# Cookie sessions

`client_server/auth/cookie/persistence.rs` and the lookups of `cookie/service.rs`: the deprecated
sessions that a cookie holds the secret of.
-/

namespace Pubky.Homeserver.Cookie

open Storage

/-- A row of `sessions`. -/
structure SessionRow where
  id : ℕ
  secret : Text
  user : ℕ
  capabilities : Text
  deriving DecidableEq

/-- `SessionSecret::new`, which looks at the length only. -/
def newSessionSecret (secret : Text) : Option Text :=
  if Text.byteLen secret = 26 then some secret else none

/-- A row of `sessions LEFT JOIN users`. -/
def SessionRow.decode (C : Crates) (users : List UserRow) (r : SessionRow) :
    Except SqlError SessionEntity := do
  let secret ← decodedOption (newSessionSecret r.secret)
  let user ← decodedOption (users.find? fun u => u.id = r.user)
  let userPubkey ← decodedOption (PublicKey.tryFrom C user.publicKey)
  let capabilities ← decoded (Capabilities.fromStr r.capabilities)
  return { id := r.id, secret, userId := r.user, userPubkey, capabilities }

variable (C : Crates) (users : List UserRow) (sessions : List SessionRow)

/-- `SessionRepository::get_by_secret` -/
def getBySecret (secret : Text) : Except SqlError SessionEntity := do
  let row ← found (sessions.find? fun r => r.secret = secret)
  row.decode C users

/-- The session with this secret, if it is one of the user. -/
def resolveActiveSessionForUser (secret : Text) (publicKey : PublicKey) :
    Except SqlError (Option SessionEntity) := do
  let session ← getBySecret C users sessions secret
  return if session.userPubkey = publicKey then some session else none

/-- `CookieAuthService::resolve_session_from_cookie`; an error counts as no session. -/
def resolveSessionFromCookie (cookieValue : Option Text) (publicKey : PublicKey) :
    Option AuthSession := do
  let value ← cookieValue
  let secret ← newSessionSecret value
  let session ← (resolveActiveSessionForUser C users sessions secret publicKey).toOption.join
  return .cookie session

end Pubky.Homeserver.Cookie

import Pubky.Homeserver.Grant.Database
import Pubky.Homeserver.Session

/-!
# The grant service

`client_server/auth/grant/{service.rs,crypto/*.rs}` and `client_server/auth/signup_service.rs`
as programs of atomic operations. Every `await` on the database, every reading of the clock
and every random draw is one operation, in the order of the source; the verification of
tokens between them is pure.
-/

namespace Pubky.Homeserver.Grant

open Conc

/-! ## Constants -/

def defaultSessionTokenLifetimeSecs : UInt64 := 3600

def signupClientId : Text := "pubky.signup".toList

def maxSignupGrantLifetimeSecs : UInt64 := 5 * 60

def popMaxAgeSecs : UInt64 := 180

def popNonceGcThresholdSecs : UInt64 := 2 * popMaxAgeSecs

/-! ## Errors and results -/

inductive GrantVerifierError where
  | invalidFormat
  | invalidHeaderType
  | invalidSignature
  | expired
  deriving DecidableEq, Repr

inductive PopVerifierError where
  | invalidFormat
  | invalidHeaderType
  | invalidSignature
  | audienceMismatch
  | grantIdMismatch
  | timestampOutOfRange
  | invalidTimestamp
  deriving DecidableEq, Repr

inductive AuthServiceError where
  | invalidGrant (e : GrantVerifierError)
  | invalidPopProof (e : PopVerifierError)
  | userNotFound
  | userAlreadyExists
  | grantNotFound
  | signupTokenRequired
  | invalidSignupToken
  | signupTokenAlreadyUsed
  | nonceReplay
  | grantRevoked
  | grantExpired
  | invalidSignupGrant (message : Text)
  | sessionNotFound
  | sessionExpired
  | grantOwnershipMismatch
  | grantClaimsMismatch
  | rootCapabilityRequired
  | internal (e : SqlError)
  deriving DecidableEq, Repr

inductive SignupServiceError where
  | userAlreadyExists
  | signupTokenRequired
  | invalidSignupToken
  | signupTokenAlreadyUsed
  | internal (e : SqlError)
  deriving DecidableEq, Repr

inductive SessionIssueError where
  | revoked
  | expired
  | database (e : SqlError)
  deriving DecidableEq, Repr

def AuthServiceError.ofGrantStatus : GrantStatus → AuthServiceError
  | .revoked => .grantRevoked
  | .expired => .grantExpired

def AuthServiceError.ofSignup : SignupServiceError → AuthServiceError
  | .userAlreadyExists => .userAlreadyExists
  | .signupTokenRequired => .signupTokenRequired
  | .invalidSignupToken => .invalidSignupToken
  | .signupTokenAlreadyUsed => .signupTokenAlreadyUsed
  | .internal e => .internal e

def AuthServiceError.ofSessionIssue : SessionIssueError → AuthServiceError
  | .revoked => .grantRevoked
  | .expired => .grantExpired
  | .database e => .internal e

/-- Map a missing row to a specific domain error. -/
def AuthServiceError.orNotFound (notFound : AuthServiceError) : SqlError → AuthServiceError
  | .rowNotFound => notFound
  | e => .internal e

/-- Session metadata returned alongside the bearer. -/
structure GrantSessionInfo where
  homeserver : PublicKey
  pubky : PublicKey
  clientId : ClientId
  capabilities : List Capability
  grantId : GrantId
  tokenExpiresAt : UInt64
  grantExpiresAt : UInt64
  createdAt : UInt64
  deriving DecidableEq

/-- The answer to a grant exchange. -/
structure GrantSessionResponse where
  token : Text
  session : GrantSessionInfo
  deriving DecidableEq

/-! ## Compact tokens -/

/-- A JWS in compact serialization: exactly three dot separated parts. -/
structure JwsCompact where
  asStr : Text
  three_parts : (Text.splitn '.' 4 asStr).length = 3
  deriving DecidableEq

/-! ## Verification of grants -/

/-- The `iss` claim, read before the signature can be verified. -/
def extractIssuerKey (C : Crates) (compact : Text) : Except GrantVerifierError PublicKey :=
  match GrantClaims.decode C compact with
  | .ok raw => .ok raw.iss
  | .error _ => .error .invalidFormat

/-- The claims of a grant whose signature is valid for the issuer's key. -/
def verifyGrantSignature (C : Crates) (compact : Text) (issuerKey : PublicKey) :
    Except GrantVerifierError GrantClaims :=
  match C.jwtDecode compact issuerKey with
  | none => .error .invalidSignature
  | some payload =>
    match C.grantFromJson payload with
    | .ok claims => .ok claims
    | .error _ => .error .invalidSignature

/-- The header has the expected `typ`. -/
def checkHeaderType {ε : Type} (C : Crates) (typ : Text) (invalidFormat invalidHeaderType : ε)
    (compact : Text) : Except ε Unit :=
  match C.jwtDecodeHeader compact with
  | none => .error invalidFormat
  | some header => if header.typ = some typ then .ok () else .error invalidHeaderType

/-- Verify the grant's signature and header; expired grants pass. -/
def verifyGrantForRevocation (C : Crates) (compact : JwsCompact) :
    Except GrantVerifierError GrantClaims := do
  let issuerKey ← extractIssuerKey C compact.asStr
  let claims ← verifyGrantSignature C compact.asStr issuerKey
  checkHeaderType C grantJwsTyp .invalidFormat .invalidHeaderType compact.asStr
  return claims

def checkExpiry (claims : GrantClaims) (now : UInt64) : Except GrantVerifierError Unit :=
  if claims.exp ≤ now then .error .expired else .ok ()

/-- `verify_grant` at a reading of the clock. -/
def verifyGrantAt (C : Crates) (compact : JwsCompact) (now : UInt64) :
    Except GrantVerifierError GrantClaims := do
  let claims ← verifyGrantForRevocation C compact
  checkExpiry claims now
  return claims

/-! ## Verification of proofs of possession -/

/-- A verified proof of possession. -/
structure PopProof where
  grantId : GrantId
  nonce : PopNonce
  issuedAt : Int64
  deriving DecidableEq

/-- What a proof of possession is verified against. -/
structure PopVerificationContext where
  cnfKey : PublicKey
  expectedAudience : Text
  expectedGrantId : GrantId

def verifyPopSignature (C : Crates) (compact : Text) (cnfKey : PublicKey) :
    Except PopVerifierError PopProofClaims :=
  match C.jwtDecode compact cnfKey with
  | none => .error .invalidSignature
  | some payload =>
    match C.popFromJson payload with
    | .ok claims => .ok claims
    | .error _ => .error .invalidSignature

def checkAudience (C : Crates) (raw : PopProofClaims) (expected : Text) :
    Except PopVerifierError Unit :=
  if C.z32 raw.aud ≠ expected then .error .audienceMismatch else .ok ()

def checkGrantBinding (raw : PopProofClaims) (expected : GrantId) : Except PopVerifierError Unit :=
  if raw.gid ≠ expected then .error .grantIdMismatch else .ok ()

/-- `u64::abs_diff` -/
def absDiff (a b : UInt64) : UInt64 :=
  if a < b then b - a else a - b

def checkTimestamp (raw : PopProofClaims) (now : UInt64) : Except PopVerifierError Unit :=
  if popMaxAgeSecs < absDiff now raw.iat then .error .timestampOutOfRange else .ok ()

def parseVerifiedPop (C : Crates) (raw : PopProofClaims) : Except PopVerifierError PopProof :=
  if C.isTimestamp raw.iat.toInt64 then .ok ⟨raw.gid, raw.nonce, raw.iat.toInt64⟩
  else .error .invalidTimestamp

/-- The checks of `PopProof::verify` before it reads the clock. -/
def PopProof.verifyClaims (C : Crates) (compact : JwsCompact) (context : PopVerificationContext) :
    Except PopVerifierError PopProofClaims := do
  let raw ← verifyPopSignature C compact.asStr context.cnfKey
  checkHeaderType C popJwsTyp .invalidFormat .invalidHeaderType compact.asStr
  checkAudience C raw context.expectedAudience
  checkGrantBinding raw context.expectedGrantId
  return raw

/-- The checks of `PopProof::verify` from its reading of the clock on. -/
def PopProof.verifyFresh (C : Crates) (raw : PopProofClaims) (now : UInt64) :
    Except PopVerifierError PopProof := do
  checkTimestamp raw now
  parseVerifiedPop C raw

/-- `PopProof::verify` at a reading of the clock. -/
def PopProof.verify (C : Crates) (compact : JwsCompact) (context : PopVerificationContext)
    (now : UInt64) : Except PopVerifierError PopProof := do
  let raw ← PopProof.verifyClaims C compact context
  PopProof.verifyFresh C raw now

/-! ## Programs -/

section Programs

variable {τ : Type} [Field τ] [LinearOrder τ] {ε ε' α : Type}

/-- A procedure of the service: a program that can fail with `ε`. -/
abbrev Proc (τ : Type) [Field τ] [LinearOrder τ] (ε α : Type) :=
  ExceptT ε (Prog (Op τ) (Op.Res τ)) α

/-- Issue one operation. -/
def perform (o : Op τ) : Prog (Op τ) (Op.Res τ) (o.Res τ) :=
  Prog.perform o

/-- Issue a statement, mapping its error. -/
def sql (f : SqlError → ε) (p : Prog (Op τ) (Op.Res τ) (Except SqlError α)) : Proc τ ε α :=
  ExceptT.mk (p >>= fun r => .ret (r.mapError f))

/-- Go on only if a pure check succeeds. -/
def check (f : ε → ε') (x : Except ε α) : Proc τ ε' α :=
  ExceptT.mk (.ret (x.mapError f))

/-- `Utc::now()` -/
def utcNow : Proc τ ε (Instant τ) :=
  ExceptT.mk (perform .now >>= fun t => .ret (.ok t))

/-- Dropping an open transaction rolls it back. -/
def dropTransaction : Proc τ ε Unit :=
  ExceptT.mk (perform .rollback >>= fun _ => .ret (.ok ()))

/-- `begin`, a body that works in the transaction, `commit`. A body that fails returns early
and drops the transaction. -/
def inTransaction (f : SqlError → ε) (body : Proc τ ε α) : Proc τ ε α := do
  sql f (perform .begin)
  let a ← tryCatch body fun e => do
    dropTransaction
    throw e
  sql f (perform .commit)
  return a

end Programs

/-- The configuration of a service instance. -/
structure GrantAuthService where
  homeserverPublicKey : PublicKey
  /-- `SignupMode::TokenRequired` -/
  tokenRequired : Bool

section Service

variable {τ : Type} [Field τ] [LinearOrder τ] [FloorRing τ] (C : Crates) (svc : GrantAuthService)

/-! ### Signup service -/

/-- `SignupService::ensure_user_not_exists` -/
def ensureUserNotExists (publicKey : PublicKey) : Proc τ SignupServiceError Unit :=
  ExceptT.mk (perform (.getUser publicKey) >>= fun
    | .ok _ => .ret (.error .userAlreadyExists)
    | .error .rowNotFound => .ret (.ok ())
    | .error e => .ret (.error (.internal e)))

/-- `SignupService::validate_and_consume_signup_token` -/
def validateAndConsumeSignupToken (signupToken : Option SignupCode) (publicKey : PublicKey) :
    Proc τ SignupServiceError Quota.UserQuota := do
  let codeId ← check id (signupToken.elim (.error .signupTokenRequired) .ok)
  let code ← sql (fun | .rowNotFound => .invalidSignupToken | e => .internal e)
    (perform (.getSignupCode codeId))
  if code.usedBy.isSome then throw .signupTokenAlreadyUsed
  let _ ← sql .internal (perform (.markAsUsed codeId publicKey))
  return code.quota

/-- `SignupService::create_user_in_tx` -/
def createUserInTx (publicKey : PublicKey) (signupToken : Option SignupCode) :
    Proc τ SignupServiceError UserEntity := do
  ensureUserNotExists publicKey
  let quota ← (if svc.tokenRequired then validateAndConsumeSignupToken signupToken publicKey
    else pure .default)
  let user ← sql .internal (perform (.createUser publicKey))
  sql .internal (perform (.setQuota user.id quota))

/-- `SignupService::create_new_user`, the user creation of cookie signup. -/
def createNewUser (publicKey : PublicKey) (signupToken : Option SignupCode) :
    Proc τ SignupServiceError UserEntity :=
  inTransaction .internal (createUserInTx svc publicKey signupToken)

/-! ### Private helpers of the grant service -/

/-- Look up a grant by its id. -/
def getGrant (id : GrantId) : Proc τ AuthServiceError (GrantEntity τ) :=
  sql (.orNotFound .grantNotFound) (perform (.getGrant id))

/-- Verify the grant's signature, type header and expiry. -/
def verifyGrant (compact : JwsCompact) : Proc τ AuthServiceError GrantClaims := do
  let claims ← check .invalidGrant (verifyGrantForRevocation C compact)
  let now ← utcNow
  check .invalidGrant (checkExpiry claims now.timestampU64)
  return claims

/-- Look up the user identified by the grant's `iss` claim. -/
def findUser (grant : GrantClaims) : Proc τ AuthServiceError UserEntity :=
  sql (.orNotFound .userNotFound) (perform (.getUser grant.iss))

/-- What a proof of possession for `grant` has to be bound to. -/
def popContext (grant : GrantClaims) : PopVerificationContext where
  cnfKey := grant.cnf
  expectedAudience := C.z32 svc.homeserverPublicKey
  expectedGrantId := grant.jti

/-- Verify the proof's signature, audience, grant binding and timestamp window. -/
def verifyPopProof (compact : JwsCompact) (grant : GrantClaims) :
    Proc τ AuthServiceError PopProof := do
  let raw ← check .invalidPopProof (PopProof.verifyClaims C compact (popContext C svc grant))
  let now ← utcNow
  check .invalidPopProof (PopProof.verifyFresh C raw now.timestampU64)

/-- Reject replayed nonces, after collecting expired ones; a failed collection is ignored. -/
def checkNonceReplay (pop : PopProof) : Proc τ AuthServiceError Unit := do
  let now ← utcNow
  let cutoff := now.secs - (popNonceGcThresholdSecs.toNat : τ)
  let _ ← ExceptT.lift (perform (.garbageCollect cutoff))
  let rowsAffected ← sql .internal (perform (.trackNonce pop.nonce))
  if rowsAffected = 0 then throw .nonceReplay

/-- The grant has not been revoked; a grant that is not stored yet passes. -/
def checkGrantNotRevoked (grant : GrantClaims) : Proc τ AuthServiceError Unit := do
  let isRevoked ← ExceptT.mk (perform (.isRevoked grant.jti) >>= fun
    | .ok b => .ret (.ok b)
    | .error .rowNotFound => .ret (.ok false)
    | .error e => .ret (.error (.internal e)))
  if isRevoked then throw .grantRevoked

def requireSignupClientId (grant : GrantClaims) : Except AuthServiceError Unit :=
  if grant.clientId.asStr = signupClientId then .ok ()
  else .error (.invalidSignupGrant "signup grants must use client_id pubky.signup".toList)

def requireRootCapabilityClaim (grant : GrantClaims) : Except AuthServiceError Unit :=
  if grant.caps.any Capability.isRoot then .ok () else .error .rootCapabilityRequired

def requireShortSignupLifetime (grant : GrantClaims) (now : UInt64) :
    Except AuthServiceError Unit :=
  if now + popMaxAgeSecs < grant.iat then
    .error (.invalidSignupGrant "signup grant iat is too far in the future".toList)
  -- `saturating_sub`
  else if maxSignupGrantLifetimeSecs < (if grant.exp < grant.iat then 0 else grant.exp - grant.iat)
  then .error (.invalidSignupGrant "signup grant lifetime exceeds 5 minutes".toList)
  else .ok ()

/-- Verify the grant, check revocation, verify the proof, check its nonce. -/
def verifyGrantAndPop (grantJws popJws : JwsCompact) : Proc τ AuthServiceError GrantClaims := do
  let grant ← verifyGrant C grantJws
  checkGrantNotRevoked grant
  let pop ← verifyPopProof C svc popJws grant
  checkNonceReplay pop
  return grant

def verifySignupGrantAndPop (grantJws popJws : JwsCompact) :
    Proc τ AuthServiceError GrantClaims := do
  let grant ← verifyGrant C grantJws
  check id (requireSignupClientId grant)
  check id (requireRootCapabilityClaim grant)
  let now ← utcNow
  check id (requireShortSignupLifetime grant now.timestampU64)
  let pop ← verifyPopProof C svc popJws grant
  checkNonceReplay pop
  return grant

/-- Persist the grant, keeping an existing row with its id. -/
def storeGrant (grant : GrantClaims) (user : UserEntity) : Proc τ AuthServiceError Unit :=
  sql .internal (perform (.createGrant
    { id := grant.jti
      userId := user.id
      clientId := grant.clientId
      clientCnfKey := C.z32 grant.cnf
      capabilities := ⟨grant.caps⟩
      issuedAt := grant.iat
      expiresAt := grant.exp }))

/-- The stored grant is the one that is presented. -/
def GrantEntity.matchesClaims (stored : GrantEntity τ) (grant : GrantClaims) : Bool :=
  stored.userPubkey = grant.iss
    && stored.clientId = grant.clientId
    && stored.clientCnfKey = C.z32 grant.cnf
    && stored.capabilities = ⟨grant.caps⟩
    && stored.issuedAt = grant.iat.toInt64
    && stored.expiresAt = grant.exp.toInt64

/-- Refuse to mint from a row that the presented grant does not describe. -/
def requireStoredGrantMatches (grant : GrantClaims) : Proc τ AuthServiceError Unit := do
  let stored ← getGrant grant.jti
  if !stored.matchesClaims C grant then throw .grantClaimsMismatch

/-- `GrantSessionRepository::delete_all_for_grant` -/
def deleteAllForGrant (ε : Type) (f : SqlError → ε) (grantId : GrantId) : Proc τ ε Unit := do
  let keys ← sql f (perform (.scanSessions grantId))
  sql f (perform (.deleteSessions grantId keys))

/-- `GrantSessionRepository::replace_for_grant` -/
def replaceForGrant (session : NewGrantSession) : Proc τ SessionIssueError Unit :=
  inTransaction .database do
    let (revokedAt, expiresAt) ← sql .database (perform (.lockGrant session.grantId))
    if revokedAt.isSome then throw .revoked
    let now ← utcNow
    if expiresAt ≤ now.timestamp then throw .expired
    deleteAllForGrant SessionIssueError .database session.grantId
    sql .database (perform (.insertSession session))

/-- Draw a fresh bearer, persist its hash and return the wire response. -/
def mintSession (grant : GrantClaims) : Proc τ AuthServiceError GrantSessionResponse := do
  let now ← utcNow
  let expiresAt := min (now.timestampU64 + defaultSessionTokenLifetimeSecs) grant.exp
  let bearer ← ExceptT.lift (perform .generateBearer)
  ExceptT.adapt .ofSessionIssue (replaceForGrant ⟨bearer.hash C, grant.jti, expiresAt⟩)
  return {
    token := bearer.asStr
    session := {
      homeserver := svc.homeserverPublicKey
      pubky := grant.iss
      clientId := grant.clientId
      capabilities := grant.caps
      grantId := grant.jti
      tokenExpiresAt := expiresAt
      grantExpiresAt := grant.exp
      createdAt := now.timestampU64 } }

/-- Revoke a grant and delete all its sessions atomically. -/
def revokeGrant (grantId : GrantId) : Proc τ AuthServiceError Unit :=
  inTransaction .internal do
    let now ← utcNow
    sql .internal (perform (.revoke grantId now.timestamp))
    deleteAllForGrant AuthServiceError .internal grantId
    sql .internal (perform (.notifyGrant grantId))

/-- The session row has not expired and its grant is active. -/
def validateActiveGrantSessionEntity (session : GrantSessionEntity) :
    Proc τ AuthServiceError (GrantEntity τ) := do
  let now ← utcNow
  if session.expiresAt ≤ now.timestamp then throw .sessionExpired
  let grant ← getGrant session.grantId
  check .ofGrantStatus (grant.requireActive now.timestamp)
  return grant

/-! ### The service's procedures -/

/-- Verify the grant and proof, then replace the grant's current bearer. -/
def createGrantSession (grantJws popJws : JwsCompact) :
    Proc τ AuthServiceError GrantSessionResponse := do
  let grant ← verifyGrantAndPop C svc grantJws popJws
  let user ← findUser grant
  storeGrant C grant user
  requireStoredGrantMatches C grant
  mintSession C svc grant

/-- Verify the grant and proof, then create the user. -/
def signupGrantAccount (grantJws popJws : JwsCompact) (signupToken : Option SignupCode) :
    Proc τ AuthServiceError Unit := do
  let grant ← verifySignupGrantAndPop C svc grantJws popJws
  let _ ← inTransaction .internal
    (ExceptT.adapt .ofSignup (createUserInTx svc grant.iss signupToken))

/-- Revoke with grant and proof, even after the bearer or the grant expired. -/
def signoutWithProof (grantJws popJws : JwsCompact) : Proc τ AuthServiceError Unit := do
  let grant ← check .invalidGrant (verifyGrantForRevocation C grantJws)
  let pop ← verifyPopProof C svc popJws grant
  checkNonceReplay pop
  let stored ← getGrant grant.jti
  if stored.userPubkey ≠ grant.iss ∨ stored.clientCnfKey ≠ C.z32 grant.cnf then
    throw .grantOwnershipMismatch
  revokeGrant grant.jti

/-- The database id of the session's user. -/
def resolveUserId : AuthSession → Proc τ AuthServiceError ℕ
  | .grant b => do
    let grant ← getGrant b.grantId
    return grant.userId
  | .cookie c => return c.userId

/-- Revoke a grant after verifying that it belongs to the authenticated user. -/
def revokeUserGrant (grantId : GrantId) (auth : AuthSession) : Proc τ AuthServiceError Unit := do
  let userId ← resolveUserId auth
  let grant ← getGrant grantId
  if grant.userId ≠ userId then throw .grantOwnershipMismatch
  revokeGrant grantId

/-- Resolve an opaque bearer into a session. -/
def resolveGrantSessionByBearer (bearer : SessionBearer) :
    Proc τ AuthServiceError GrantSession := do
  let session ← sql (.orNotFound .sessionNotFound) (perform (.getSession (bearer.hash C)))
  let grant ← validateActiveGrantSessionEntity session
  return {
    userKey := grant.userPubkey
    capabilities := grant.capabilities
    grantId := session.grantId
    tokenExpiresAt := session.expiresAt.toUInt64
    tokenHash := session.tokenHash }

/-- Sign out: revoke the session's grant. -/
def signoutGrantSession (session : GrantSession) : Proc τ AuthServiceError Unit :=
  revokeGrant session.grantId

/-- `DELETE /auth/grant/session` with a bearer: the middleware resolves it and the handler
signs the session out; a bearer that does not resolve makes it a no-op. -/
def signout (bearer : SessionBearer) : Proc τ AuthServiceError Unit :=
  ExceptT.mk ((resolveGrantSessionByBearer C bearer).run >>= fun
    | .ok session => (signoutGrantSession session).run
    | .error _ => .ret (.ok ()))

/-- Recheck that exactly this bearer session still exists. -/
def validateActiveGrantSession (session : GrantSession) :
    Proc τ AuthServiceError (GrantEntity τ) := do
  let persisted ← sql (.orNotFound .sessionNotFound) (perform (.getSession session.tokenHash))
  if persisted.grantId ≠ session.grantId then throw .sessionNotFound
  validateActiveGrantSessionEntity persisted

def listActiveGrants (userId : ℕ) : Proc τ AuthServiceError (List (GrantEntity τ)) := do
  let now ← utcNow
  sql .internal (perform (.listActiveForUser userId now.timestamp))

/-- Session info for a grant session. -/
def getGrantSessionInfo (session : GrantSession) : Proc τ AuthServiceError GrantSessionInfo := do
  let grant ← getGrant session.grantId
  return {
    homeserver := svc.homeserverPublicKey
    pubky := session.userKey
    clientId := grant.clientId
    capabilities := session.capabilities.toVec
    grantId := session.grantId
    tokenExpiresAt := session.tokenExpiresAt
    grantExpiresAt := grant.expiresAt.toUInt64
    createdAt := (Int64.ofInt ⌊grant.createdAt⌋).toUInt64 }

end Service

/-! ## The system -/

/-- The calls that run against the service. -/
inductive Call where
  | createGrantSession (grantJws popJws : JwsCompact)
  | signupGrantAccount (grantJws popJws : JwsCompact) (signupToken : Option SignupCode)
  | signoutWithProof (grantJws popJws : JwsCompact)
  | revokeUserGrant (grantId : GrantId) (auth : AuthSession)
  | signout (bearer : SessionBearer)
  | resolveGrantSessionByBearer (bearer : SessionBearer)
  | validateActiveGrantSession (session : GrantSession)
  | listActiveGrants (userId : ℕ)
  | getGrantSessionInfo (session : GrantSession)
  | createNewUser (publicKey : PublicKey) (signupToken : Option SignupCode)
  deriving DecidableEq

/-- What the calls return. -/
inductive Out (τ : Type) where
  | created (r : Except AuthServiceError GrantSessionResponse)
  | done (r : Except AuthServiceError Unit)
  | resolved (r : Except AuthServiceError GrantSession)
  | validated (r : Except AuthServiceError (GrantEntity τ))
  | grants (r : Except AuthServiceError (List (GrantEntity τ)))
  | info (r : Except AuthServiceError GrantSessionInfo)
  | user (r : Except SignupServiceError UserEntity)
  deriving DecidableEq

section System

variable (τ : Type) [Field τ] [LinearOrder τ] [FloorRing τ] (C : Crates) (svc : GrantAuthService)

/-- The program of a call. -/
def callProgram : Call → Prog (Op τ) (Op.Res τ) (Out τ)
  | .createGrantSession g p => (createGrantSession C svc g p).run >>= fun r => .ret (.created r)
  | .signupGrantAccount g p t => (signupGrantAccount C svc g p t).run >>= fun r => .ret (.done r)
  | .signoutWithProof g p => (signoutWithProof C svc g p).run >>= fun r => .ret (.done r)
  | .revokeUserGrant g a => (revokeUserGrant g a).run >>= fun r => .ret (.done r)
  | .signout b => (signout C b).run >>= fun r => .ret (.done r)
  | .resolveGrantSessionByBearer b =>
    (resolveGrantSessionByBearer C b).run >>= fun r => .ret (.resolved r)
  | .validateActiveGrantSession s =>
    (validateActiveGrantSession s).run >>= fun r => .ret (.validated r)
  | .listActiveGrants u => (listActiveGrants u).run >>= fun r => .ret (.grants r)
  | .getGrantSessionInfo s => (getGrantSessionInfo svc s).run >>= fun r => .ret (.info r)
  | .createNewUser k t => (createNewUser svc k t).run >>= fun r => .ret (.user r)

/-- The service as a machine: calls of any number of clients interleave over one database. -/
def machine : Machine (State τ) (Op τ) Choice (Env τ) Call (Out τ) (Op.Res τ) where
  exec := exec C
  env := env
  abort := fun i s => s.rollback i
  prog := callProgram τ C svc

end System

end Pubky.Homeserver.Grant

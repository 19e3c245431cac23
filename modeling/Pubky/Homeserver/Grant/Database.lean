import Mathlib.Algebra.Order.Floor.Ring
import Pubky.Homeserver.Quota
import Pubky.Lib.Machine

/-!
# The database of the grant service

The tables that `client_server/auth/grant` and the signup service work on, and the SQL
statements of their repositories as atomic operations on them:

* `persistence/grant.rs`, `persistence/grant_session.rs`, `persistence/pop_nonce.rs` for the
  tables `grants`, `grant_sessions` and `pop_nonces`,
* `persistence/sql/entities/{user,signup_code}.rs` for `users` and `signup_codes`.

Rows hold what the columns hold; reading an entity parses the text columns again. The columns of
`users` that hold a quota are a table of their own, by user id. Next to the tables the state keeps the clock, the log of committed transactions, the bearers drawn
and the readings of the clock so far.
-/

namespace Pubky.Homeserver.Grant

open Sql

/-! ## Time -/

section Time

/-- `chrono` cannot represent this instant (in Unix seconds) or any later one. -/
def endOfTime : ℕ := 8210266876800

/-- A reading of `Utc::now()` in Unix seconds: not before the epoch and within the range of
`DateTime<Utc>`. -/
structure Instant (τ : Type) [Field τ] [LinearOrder τ] where
  secs : τ
  nonneg : 0 ≤ secs
  lt_endOfTime : secs < (endOfTime : τ)

variable {τ : Type} [Field τ] [LinearOrder τ] [FloorRing τ]

/-- `DateTime::timestamp`, whole seconds. -/
def Instant.timestamp (t : Instant τ) : Int64 :=
  Int64.ofInt ⌊t.secs⌋

/-- `timestamp() as u64` -/
def Instant.timestampU64 (t : Instant τ) : UInt64 :=
  t.timestamp.toUInt64

end Time

/-! ## Rows -/

variable {τ : Type}

structure UserRow where
  id : ℕ
  publicKey : Text
  deriving DecidableEq, Repr

/-- The quota columns of a row of `users`. -/
structure QuotaRow where
  userId : ℕ
  columns : Quota.Columns
  deriving DecidableEq, Repr

structure SignupCodeRow where
  id : Text
  usedBy : Option Text
  quota : Quota.Columns
  deriving DecidableEq, Repr

structure GrantRow (τ : Type) where
  id : Text
  user : ℕ
  clientId : Text
  clientCnfKey : Text
  capabilities : Text
  issuedAt : Int64
  expiresAt : Int64
  revokedAt : Option Int64
  createdAt : τ
  deriving DecidableEq

structure GrantSessionRow where
  tokenHash : Bytes
  grantId : Text
  expiresAt : Int64
  deriving DecidableEq, Repr

structure PopNonceRow (τ : Type) where
  nonce : Text
  createdAt : τ
  deriving DecidableEq

instance : Keyed UserRow Text := ⟨UserRow.publicKey⟩
instance : Keyed QuotaRow ℕ := ⟨QuotaRow.userId⟩
instance : Keyed SignupCodeRow Text := ⟨SignupCodeRow.id⟩
instance : Keyed (GrantRow τ) Text := ⟨GrantRow.id⟩
instance : Keyed GrantSessionRow Bytes := ⟨GrantSessionRow.tokenHash⟩

@[simp] theorem key_userRow (r : UserRow) : key r = r.publicKey := rfl
@[simp] theorem key_quotaRow (r : QuotaRow) : key r = r.userId := rfl
@[simp] theorem key_signupCodeRow (r : SignupCodeRow) : key r = r.id := rfl
@[simp] theorem key_grantRow (r : GrantRow τ) : key r = r.id := rfl
@[simp] theorem key_sessionRow (r : GrantSessionRow) : key r = r.tokenHash := rfl

/-! ## Entities -/

structure UserEntity where
  id : ℕ
  publicKey : PublicKey
  deriving DecidableEq

/-- A signup code in text form. -/
structure SignupCode where
  asStr : Text
  deriving DecidableEq

structure SignupCodeEntity where
  usedBy : Option PublicKey
  quota : Quota.UserQuota
  deriving DecidableEq

/-- Data needed to create a new grant. -/
structure NewGrant where
  id : GrantId
  userId : ℕ
  clientId : ClientId
  clientCnfKey : Text
  capabilities : Capabilities
  issuedAt : UInt64
  expiresAt : UInt64

/-- A grant as it is read from the database. -/
structure GrantEntity (τ : Type) where
  id : GrantId
  userId : ℕ
  userPubkey : PublicKey
  clientId : ClientId
  clientCnfKey : Text
  capabilities : Capabilities
  issuedAt : Int64
  expiresAt : Int64
  revokedAt : Option Int64
  createdAt : τ
  deriving DecidableEq

/-- Why a grant is no longer active. -/
inductive GrantStatus where
  | revoked
  | expired

/-- Check that the grant is active: not revoked and not expired. -/
def GrantEntity.requireActive (g : GrantEntity τ) (nowUnix : Int64) : Except GrantStatus Unit :=
  if g.revokedAt.isSome then .error .revoked
  else if g.expiresAt ≤ nowUnix then .error .expired
  else .ok ()

/-- SHA-256 of a bearer, the value stored in `grant_sessions.token_hash`. -/
abbrev SessionTokenHash := Bytes

/-- The opaque bearer string presented by the client. -/
structure SessionBearer where
  asStr : Text
  deriving DecidableEq, Repr

def SessionBearer.hash (C : Crates) (b : SessionBearer) : SessionTokenHash :=
  C.sha256 (utf8 b.asStr)

/-- Number of random bytes in a freshly generated bearer. -/
def bearerRawBytes : ℕ := 32

/-- Data needed to create a new grant session. -/
structure NewGrantSession where
  tokenHash : SessionTokenHash
  grantId : GrantId
  expiresAt : UInt64
  deriving DecidableEq

/-- A grant session as it is read from the database. -/
structure GrantSessionEntity where
  tokenHash : SessionTokenHash
  grantId : GrantId
  expiresAt : Int64
  deriving DecidableEq

/-! ## Reading and writing rows -/

def NewGrant.toRow (g : NewGrant) (createdAt : τ) : GrantRow τ where
  id := g.id.asStr
  user := g.userId
  clientId := g.clientId.asStr
  clientCnfKey := g.clientCnfKey
  capabilities := g.capabilities.toText
  issuedAt := g.issuedAt.toInt64
  expiresAt := g.expiresAt.toInt64
  revokedAt := none
  createdAt := createdAt

def NewGrantSession.toRow (s : NewGrantSession) : GrantSessionRow where
  tokenHash := s.tokenHash
  grantId := s.grantId.asStr
  expiresAt := s.expiresAt.toInt64

@[simp] theorem NewGrantSession.toRow_tokenHash (s : NewGrantSession) :
    s.toRow.tokenHash = s.tokenHash := rfl

def UserRow.decode (C : Crates) (r : UserRow) : Except SqlError UserEntity := do
  let publicKey ← decodedOption (C.fromZ32 r.publicKey)
  return ⟨r.id, publicKey⟩

def SignupCodeRow.decode (C : Crates) (r : SignupCodeRow) : Except SqlError SignupCodeEntity :=
  let quota := Quota.UserQuota.fromNullableColumns C r.quota
  match r.usedBy with
  | none => .ok ⟨none, quota⟩
  | some text => do
    let usedBy ← decodedOption (C.fromZ32 text)
    return ⟨some usedBy, quota⟩

/-- A row of `grants LEFT JOIN users`. -/
def GrantRow.decode (C : Crates) (users : List UserRow) (r : GrantRow τ) :
    Except SqlError (GrantEntity τ) := do
  let id ← decoded (RandomId.parse r.id)
  let user ← decodedOption (users.find? fun u => u.id = r.user)
  let userPubkey ← decodedOption (PublicKey.tryFrom C user.publicKey)
  let clientId ← decoded (ClientId.new r.clientId)
  let capabilities ← decoded (Capabilities.fromStr r.capabilities)
  return { id, userId := r.user, userPubkey, clientId, clientCnfKey := r.clientCnfKey
           capabilities, issuedAt := r.issuedAt, expiresAt := r.expiresAt
           revokedAt := r.revokedAt, createdAt := r.createdAt }

theorem GrantRow.revokedAt_of_decode {C : Crates} {us : List UserRow} {r : GrantRow τ}
    {e : GrantEntity τ} (h : r.decode C us = .ok e) : e.revokedAt = r.revokedAt := by
  simp only [GrantRow.decode, Except.bind_ok_iff] at h
  obtain ⟨_, _, _, _, _, _, _, _, _, _, he⟩ := h
  cases he
  rfl

def GrantSessionRow.decode (r : GrantSessionRow) : Except SqlError GrantSessionEntity := do
  let grantId ← decoded (RandomId.parse r.grantId)
  return ⟨r.tokenHash, grantId, r.expiresAt⟩

/-! ## State -/

/-- The statements recorded in the log of committed transactions. -/
inductive Stmt (τ : Type) where
  | createUser (row : UserRow)
  | setQuota (row : QuotaRow)
  | markAsUsed (code usedBy : Text)
  | createGrant (row : GrantRow τ)
  | revoke (grantId : Text)
  | deleteSessions (grantId : Text)
  | insertSession (row : GrantSessionRow)
  | trackNonce (nonce : Text)
  | notifyGrant (grantId : Text)
  deriving DecidableEq

/-- The shared state of all calls. -/
structure State (τ : Type) [Field τ] [LinearOrder τ] where
  clock : Instant τ
  users : Table UserRow Text
  quotas : Table QuotaRow ℕ
  signupCodes : Table SignupCodeRow Text
  grants : Table (GrantRow τ) Text
  sessions : Table GrantSessionRow Bytes
  popNonces : List (PopNonceRow τ)
  /-- The next value of the sequence behind `users.id`. -/
  nextUserId : ℕ
  /-- Statements of the open transactions, oldest first. -/
  pending : List (ℕ × Stmt τ)
  /-- Committed transactions with their statements, oldest first. -/
  wal : List (ℕ × List (Stmt τ))
  /-- Every bearer drawn so far with the call that drew it, oldest first. -/
  minted : List (ℕ × SessionBearer)
  /-- Every reading of the clock with the call that took it, oldest first. -/
  readings : List (ℕ × Instant τ)

/-- One SQL statement, clock reading or random draw. A call issues the statements of a
transaction on its own connection and never uses the pool while the transaction is open, so
a statement always sees the writes of the call's own transaction. -/
inductive Op (τ : Type) where
  | now
  | generateBearer
  | begin
  | commit
  | rollback
  | getUser (publicKey : PublicKey)
  | createUser (publicKey : PublicKey)
  | setQuota (userId : ℕ) (quota : Quota.UserQuota)
  | getSignupCode (id : SignupCode)
  | markAsUsed (id : SignupCode) (usedBy : PublicKey)
  | createGrant (grant : NewGrant)
  | getGrant (id : GrantId)
  | isRevoked (id : GrantId)
  | listActiveForUser (userId : ℕ) (now : Int64)
  | revoke (id : GrantId) (now : Int64)
  | lockGrant (id : GrantId)
  | scanSessions (grantId : GrantId)
  | deleteSessions (grantId : GrantId) (found : List SessionTokenHash)
  | insertSession (session : NewGrantSession)
  | getSession (tokenHash : SessionTokenHash)
  | garbageCollect (cutoff : τ)
  | trackNonce (nonce : PopNonce)
  | notifyGrant (id : GrantId)

/-- The type of an operation's answer. -/
def Op.Res (τ : Type) [Field τ] [LinearOrder τ] : Op τ → Type
  | .now => Instant τ
  | .generateBearer => SessionBearer
  | .begin => Except SqlError Unit
  | .commit => Except SqlError Unit
  | .rollback => Unit
  | .getUser _ => Except SqlError UserEntity
  | .createUser _ => Except SqlError UserEntity
  | .setQuota _ _ => Except SqlError UserEntity
  | .getSignupCode _ => Except SqlError SignupCodeEntity
  | .markAsUsed _ _ => Except SqlError SignupCodeEntity
  | .createGrant _ => Except SqlError Unit
  | .getGrant _ => Except SqlError (GrantEntity τ)
  | .isRevoked _ => Except SqlError Bool
  | .listActiveForUser _ _ => Except SqlError (List (GrantEntity τ))
  | .revoke _ _ => Except SqlError Unit
  | .lockGrant _ => Except SqlError (Option Int64 × Int64)
  | .scanSessions _ => Except SqlError (List SessionTokenHash)
  | .deleteSessions _ _ => Except SqlError Unit
  | .insertSession _ => Except SqlError Unit
  | .getSession _ => Except SqlError GrantSessionEntity
  | .garbageCollect _ => Except SqlError ℕ
  | .trackNonce _ => Except SqlError ℕ
  | .notifyGrant _ => Except SqlError Unit

/-- The environment's choice at an operation: it is carried out, it fails without an effect,
it is carried out but its answer is lost, or the random bytes that are drawn. -/
inductive Choice where
  | done
  | failed
  | lost
  | random (bytes : Bytes)
  deriving DecidableEq, Repr

/-- A step of the environment: time passes, or the administrator adds a signup code with a quota. -/
inductive Env (τ : Type) [Field τ] [LinearOrder τ] where
  | tick (t : Instant τ)
  | addSignupCode (code : SignupCode) (quota : Quota.Columns)

namespace State

variable [Field τ] [LinearOrder τ]

/-- The statements of call `i`'s open transaction. -/
def pendingOf (s : State τ) (i : ℕ) : List (Stmt τ) :=
  (s.pending.filter fun e => e.1 = i).map Prod.snd

/-- Record a statement of call `i`'s open transaction. -/
def issue (s : State τ) (i : ℕ) (stmt : Stmt τ) : State τ :=
  { s with pending := s.pending ++ [(i, stmt)] }

/-- Record a statement that call `i` issued outside of a transaction. -/
def autocommit (s : State τ) (i : ℕ) (stmt : Stmt τ) : State τ :=
  { s with wal := s.wal ++ [(i, [stmt])] }

/-- `COMMIT` of call `i`'s transaction. -/
def commit (s : State τ) (i : ℕ) : State τ :=
  { s with
    users := s.users.commit i
    quotas := s.quotas.commit i
    signupCodes := s.signupCodes.commit i
    grants := s.grants.commit i
    sessions := s.sessions.commit i
    pending := s.pending.filter fun e => e.1 ≠ i
    wal := s.wal ++ [(i, s.pendingOf i)] }

/-- `ROLLBACK` of call `i`'s transaction. -/
def rollback (s : State τ) (i : ℕ) : State τ :=
  { s with
    users := s.users.rollback i
    quotas := s.quotas.rollback i
    signupCodes := s.signupCodes.rollback i
    grants := s.grants.rollback i
    sessions := s.sessions.rollback i
    pending := s.pending.filter fun e => e.1 ≠ i }

end State

/-- The answer to a statement under the environment's choice. -/
def answer {α σ : Type} (c : Choice) (s : σ) (x : Option (Except SqlError α × σ)) :
    Option (Except SqlError α × σ) :=
  match c with
  | .done => x
  | .failed => some (.error .database, s)
  | .lost => x.map fun y => (.error .database, y.2)
  | .random _ => none

/-! ## Statements -/

namespace State

variable [Field τ] [LinearOrder τ] (C : Crates) (s : State τ) (i : ℕ)

/-- `UserRepository::get` -/
def getUser (publicKey : PublicKey) : Except SqlError UserEntity := do
  let row ← found (lookup (s.users.view i) (C.z32 publicKey))
  row.decode C

/-- `UserRepository::create`; the sequence advances even if the key is taken. -/
def createUser (publicKey : PublicKey) : Option (Except SqlError UserEntity × State τ) :=
  let row : UserRow := ⟨s.nextUserId, C.z32 publicKey⟩
  let s' := { s with nextUserId := s.nextUserId + 1 }
  match s.users.insert i row with
  | none => none
  | some (false, _) => some (.error .database, s')
  | some (true, users) => some (row.decode C, { s' with users := users }.issue i (.createUser row))

/-- `UserRepository::set_quota` -/
def setQuota (userId : ℕ) (quota : Quota.UserQuota) :
    Option (Except SqlError UserEntity × State τ) :=
  match quota.validate with
  | .error _ => some (.error .database, s)
  | .ok _ =>
    match (s.users.view i).find? fun r => r.id = userId with
    | none => some (.error .rowNotFound, s)
    | some user =>
      if s.users.blocked i user.publicKey || s.quotas.blocked i userId then none
      else
        let row : QuotaRow := ⟨userId, quota.toColumns C⟩
        some (user.decode C,
          { s with quotas := s.quotas.write i (.put row) }.issue i (.setQuota row))

/-- `SignupCodeRepository::get` -/
def getSignupCode (id : SignupCode) : Except SqlError SignupCodeEntity := do
  let row ← found (lookup (s.signupCodes.view i) id.asStr)
  row.decode C

/-- `SignupCodeRepository::mark_as_used`, which finds only unused codes. -/
def markAsUsed (id : SignupCode) (usedBy : PublicKey) :
    Option (Except SqlError SignupCodeEntity × State τ) :=
  match lookup (s.signupCodes.view i) id.asStr with
  | none => some (.error .rowNotFound, s)
  | some row =>
    if s.signupCodes.blocked i id.asStr then none
    else if row.usedBy.isSome then some (.error .rowNotFound, s)
    else
      let row' := { row with usedBy := some (C.z32 usedBy) }
      some (row'.decode C,
        { s with signupCodes := s.signupCodes.write i (.put row') }.issue i
          (.markAsUsed id.asStr (C.z32 usedBy)))

/-- `GrantRepository::create`: `ON CONFLICT (id) DO NOTHING`, with the foreign key to `users`. -/
def createGrant (grant : NewGrant) : Except SqlError Unit × State τ :=
  if (s.users.rows.find? fun r => r.id = grant.userId).isNone then (.error .database, s)
  else if (lookup s.grants.rows grant.id.asStr).isSome then (.ok (), s)
  else
    let row := grant.toRow s.clock.secs
    (.ok (), { s with grants := { s.grants with rows := s.grants.rows ++ [row] } }.autocommit i
      (.createGrant row))

/-- `GrantRepository::get_by_id` -/
def getGrant (id : GrantId) : Except SqlError (GrantEntity τ) := do
  let row ← found (lookup (s.grants.view i) id.asStr)
  row.decode C (s.users.view i)

/-- `GrantRepository::is_revoked` -/
def isRevoked (id : GrantId) : Except SqlError Bool := do
  let row ← found (lookup (s.grants.view i) id.asStr)
  return row.revokedAt.isSome

/-- `GrantRepository::list_active_for_user` -/
def listActiveForUser (userId : ℕ) (now : Int64) : Except SqlError (List (GrantEntity τ)) :=
  ((s.grants.view i).filter fun r =>
    r.user = userId && r.revokedAt.isNone && now < r.expiresAt).mapM
      fun r => r.decode C (s.users.view i)

/-- `GrantRepository::revoke` -/
def revoke (id : GrantId) (now : Int64) : Option (Except SqlError Unit × State τ) :=
  match s.grants.update i id.asStr fun r => { r with revokedAt := some now } with
  | none => none
  | some (_, grants) => some (.ok (), { s with grants := grants }.issue i (.revoke id.asStr))

/-- `SELECT revoked_at, expires_at FROM grants WHERE id = $1 FOR UPDATE` -/
def lockGrant (id : GrantId) : Option (Except SqlError (Option Int64 × Int64) × State τ) :=
  match s.grants.selectForUpdate i id.asStr with
  | none => none
  | some (none, _) => some (.error .rowNotFound, s)
  | some (some r, grants) => some (.ok (r.revokedAt, r.expiresAt), { s with grants := grants })

/-- The rows that `DELETE FROM grant_sessions WHERE grant_id = $1` finds. -/
def scanSessions (grantId : GrantId) : List SessionTokenHash :=
  s.sessions.scan i fun r => r.grantId = grantId.asStr

/-- `DELETE FROM grant_sessions WHERE grant_id = $1` on the rows it found. -/
def deleteSessions (grantId : GrantId) (keys : List SessionTokenHash) :
    Option (Except SqlError Unit × State τ) :=
  match s.sessions.deleteScanned i keys fun r => r.grantId = grantId.asStr with
  | none => none
  | some sessions =>
    some (.ok (), { s with sessions := sessions }.issue i (.deleteSessions grantId.asStr))

/-- `INSERT INTO grant_sessions`, with the foreign key to `grants` and the unique
`token_hash`. -/
def insertSession (session : NewGrantSession) : Option (Except SqlError Unit × State τ) :=
  if (lookup (s.grants.view i) session.grantId.asStr).isNone then some (.error .database, s)
  else
    match s.sessions.insert i session.toRow with
    | none => none
    | some (false, _) => some (.error .database, s)
    | some (true, sessions) =>
      some (.ok (), { s with sessions := sessions }.issue i (.insertSession session.toRow))

/-- `GrantSessionRepository::get_by_token_hash` -/
def getSession (tokenHash : SessionTokenHash) : Except SqlError GrantSessionEntity := do
  let row ← found (lookup (s.sessions.view i) tokenHash)
  row.decode

/-- `PopNonceRepository::garbage_collect`: nonces created before `cutoff` go. -/
def garbageCollect (cutoff : τ) : Except SqlError ℕ × State τ :=
  (.ok (s.popNonces.countP fun r => r.createdAt < cutoff),
    { s with popNonces := s.popNonces.filter fun r => ¬ r.createdAt < cutoff })

/-- The `INSERT … ON CONFLICT (nonce) DO NOTHING` of `PopNonceRepository::check_and_track`;
the answer is the number of rows it inserted. -/
def trackNonce (nonce : PopNonce) : Except SqlError ℕ × State τ :=
  if s.popNonces.any fun r => r.nonce = nonce.asStr then (.ok 0, s)
  else
    let row : PopNonceRow τ := ⟨nonce.asStr, s.clock.secs⟩
    (.ok 1, { s with popNonces := s.popNonces ++ [row] }.autocommit i (.trackNonce nonce.asStr))

end State

/-- The effect of an operation of call `i`. -/
def exec [Field τ] [LinearOrder τ] (C : Crates) (i : ℕ) :
    (o : Op τ) → Choice → State τ → Option (o.Res τ × State τ)
  | .now, _, s => some (s.clock, { s with readings := s.readings ++ [(i, s.clock)] })
  | .generateBearer, c, s =>
    match c with
    | .random bytes =>
      if bytes.length = bearerRawBytes then
        let bearer : SessionBearer := ⟨C.b64Encode bytes⟩
        some (bearer, { s with minted := s.minted ++ [(i, bearer)] })
      else none
    | _ => none
  | .begin, c, s => answer c s (some (.ok (), s))
  | .commit, c, s =>
    match c with
    | .done => some (.ok (), s.commit i)
    | .failed => some (.error .database, s.rollback i)
    | .lost => some (.error .database, s.commit i)
    | .random _ => none
  | .rollback, _, s => some ((), s.rollback i)
  | .getUser key, c, s => answer c s (some (s.getUser C i key, s))
  | .createUser key, c, s => answer c s (s.createUser C i key)
  | .setQuota userId quota, c, s => answer c s (s.setQuota C i userId quota)
  | .getSignupCode id, c, s => answer c s (some (s.getSignupCode C i id, s))
  | .markAsUsed id usedBy, c, s => answer c s (s.markAsUsed C i id usedBy)
  | .createGrant grant, c, s => answer c s (some (s.createGrant i grant))
  | .getGrant id, c, s => answer c s (some (s.getGrant C i id, s))
  | .isRevoked id, c, s => answer c s (some (s.isRevoked i id, s))
  | .listActiveForUser userId now, c, s => answer c s (some (s.listActiveForUser C i userId now, s))
  | .revoke id now, c, s => answer c s (s.revoke i id now)
  | .lockGrant id, c, s => answer c s (s.lockGrant i id)
  | .scanSessions grantId, c, s => answer c s (some (.ok (s.scanSessions i grantId), s))
  | .deleteSessions grantId keys, c, s => answer c s (s.deleteSessions i grantId keys)
  | .insertSession session, c, s => answer c s (s.insertSession i session)
  | .getSession tokenHash, c, s => answer c s (some (s.getSession i tokenHash, s))
  | .garbageCollect cutoff, c, s => answer c s (some (s.garbageCollect cutoff))
  | .trackNonce nonce, c, s => answer c s (some (s.trackNonce i nonce))
  | .notifyGrant id, c, s => answer c s (some (.ok (), s.issue i (.notifyGrant id.asStr)))

/-- The effect of the environment. -/
def env [Field τ] [LinearOrder τ] : Env τ → State τ → Option (State τ)
  | .tick t, s => if s.clock.secs ≤ t.secs then some { s with clock := t } else none
  | .addSignupCode code quota, s =>
    if (lookup s.signupCodes.rows code.asStr).isSome then none
    else
      let row : SignupCodeRow := ⟨code.asStr, none, quota⟩
      some { s with signupCodes := { s.signupCodes with rows := s.signupCodes.rows ++ [row] } }

end Pubky.Homeserver.Grant

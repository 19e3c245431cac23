import Pubky.Homeserver.Authorization
import Pubky.Homeserver.Storage.Finalization

/-!
# Requests that change files

* `client_server/routes/tenants/{authorize,write,lock}.rs`: the handlers of `PUT`, `DELETE`,
  `LOCK` and `UNLOCK` on the `/storage` route and on the deprecated owner-relative route,
* `persistence/sql/entities/entry_lock.rs`: the transaction behind `refresh` and `keep_alive`,
* `services/user_service/service.rs`: the administrator's changes of a user,
* `persistence/files/file/file_service.rs`: what the handlers call.

`machine` puts them together: every call is a thread over the shared state. A request comes
with the session that the middleware has resolved for it.
-/

namespace Pubky.Homeserver.Storage

open Conc Conc.Proc

/-! ## Headers -/

/-- Lock lifetime granted when the request carries no usable `Timeout`. -/
def defaultLockTimeoutSecs : ℤ := 30

/-- Longest lock lifetime granted, whatever the client asks for. -/
def maxLockTimeoutSecs : ℤ := 60

/-- How far ahead a write in flight keeps its lock alive. -/
def writeLockHorizonSecs : ℤ := 30

/-- Largest `lockinfo` body read. -/
def maxLockinfoBytes : ℕ := 16 * 1024

def lockTokenScheme : Text := "opaquelocktoken:".toList

def allowedMethods : Text := "GET, HEAD, PUT, DELETE, LOCK, UNLOCK".toList

/-- The `<...>` groups of a header value, in order; `fuel` bounds their number. -/
def codedUrlsFrom : ℕ → Text → List Text
  | 0, _ => []
  | fuel + 1, rest =>
    match Text.splitOnce '<' rest with
    | none => []
    | some (_, after) =>
      match Text.splitOnce '>' after with
      | none => []
      | some (url, rest) => Text.trim url :: codedUrlsFrom fuel rest

def codedUrls (value : Text) : List Text :=
  codedUrlsFrom value.length value

/-- Every lock token in the `If` header; a token counts wherever it appears. -/
def ifHeaderTokens (headers : HeaderMap) : List Text :=
  (((headers.getAll "if").reduceOption).flatMap codedUrls).filterMap
    (Text.stripStart lockTokenScheme)

/-- The token in `Lock-Token`, with or without its angle brackets. -/
def lockTokenHeader (headers : HeaderMap) : Option Text := do
  let value ← headers.getStr "lock-token"
  let url := (codedUrls value).head?.getD (Text.trim value)
  Text.stripStart lockTokenScheme url

/-- One of the alternatives in `Timeout`. -/
def timeoutAlternative (part : Text) : Option ℤ :=
  if Text.eqIgnoreAsciiCase part "infinite".toList then some maxLockTimeoutSecs
  else (Text.stripStart "Second-".toList part).bind (Text.parseSigned 64)

/-- Lifetime to grant: `Second-N` capped at the maximum, `Infinite` as the maximum, anything
else as the default. -/
def requestedTimeout (headers : HeaderMap) : ℤ :=
  match headers.getStr "timeout" with
  | none => defaultLockTimeoutSecs
  | some value =>
    match ((value.splitOn ',').map Text.trim).findSome? timeoutAlternative with
    | some seconds => max 1 (min seconds maxLockTimeoutSecs)
    | none => defaultLockTimeoutSecs

/-- The `Content-Length` header, `none` if absent or unparseable. -/
def contentLengthFromHeaders (headers : HeaderMap) : Option UInt64 :=
  ((headers.getStr "content-length").bind (Text.parseUnsigned 64)).map UInt64.ofNat

/-! ## The body of `LOCK` -/

/-- Any tag of the text has this local name, in whatever namespace. -/
def hasElement (xml localName : Text) : Bool :=
  ((xml.splitOn '<').drop 1).any fun tag =>
    let name := tag.takeWhile fun c => !(c == '/' || c == '>' || Text.isWhitespace c)
    (name.splitOn ':').getLast? = some localName

/-- `std::str::from_utf8` -/
def fromUtf8 (bytes : Bytes) : Option Text :=
  (String.fromUTF8? ⟨bytes.toArray⟩).map String.toList

def isExclusiveWriteLockinfo (body : Bytes) : Bool :=
  match fromUtf8 body with
  | none => false
  | some xml => hasElement xml "exclusive".toList && hasElement xml "write".toList &&
      !hasElement xml "shared".toList

/-- `axum::body::to_bytes`: the body, unless it breaks off or is too long. -/
def toBytes (body : List (Option Bytes)) (limit : ℕ) : Option Bytes :=
  ((body.mapM id).map List.flatten).filter fun bytes => bytes.length ≤ limit

/-- Refuse a `lockinfo` body that asks for a kind of lock that is not granted. -/
def checkLockinfo (body : List (Option Bytes)) : Except HttpError Unit :=
  match toBytes body maxLockinfoBytes with
  | none => .error (.newWithMessage 413 "lockinfo body too large".toList)
  | some lockinfo =>
    if lockinfo ≠ [] ∧ isExclusiveWriteLockinfo lockinfo = false then
      .error (.badRequest "Only exclusive write locks are supported".toList)
    else .ok ()

def xmlEscape (text : Text) : Text :=
  text.flatMap fun c =>
    if c = '&' then "&amp;".toList else if c = '<' then "&lt;".toList
    else if c = '>' then "&gt;".toList else if c = '"' then "&quot;".toList else [c]

/-- The `lockdiscovery` body of a lock just granted or refreshed for `remaining` seconds. -/
def lockResponse (lock : EntryLockRow) (lockRoot : Text) (remaining : ℤ) (created : Bool) :
    Response :=
  let tokenUrl := lockTokenScheme ++ lock.token
  let seconds := "Second-".toList ++ (toString remaining).toList
  { status := 200
    headers := [("content-type".toList, "application/xml; charset=utf-8".toList),
      ("timeout".toList, seconds)] ++
      if created then [("lock-token".toList, '<' :: tokenUrl ++ ['>'])] else []
    body := "<?xml version=\"1.0\" encoding=\"utf-8\"?>".toList ++
      "<D:prop xmlns:D=\"DAV:\"><D:lockdiscovery><D:activelock>".toList ++
      "<D:locktype><D:write/></D:locktype>".toList ++
      "<D:lockscope><D:exclusive/></D:lockscope>".toList ++
      "<D:depth>0</D:depth>".toList ++
      "<D:timeout>".toList ++ seconds ++ "</D:timeout>".toList ++
      "<D:locktoken><D:href>".toList ++ tokenUrl ++ "</D:href></D:locktoken>".toList ++
      "<D:lockroot><D:href>".toList ++ xmlEscape lockRoot ++ "</D:href></D:lockroot>".toList ++
      "</D:activelock></D:lockdiscovery></D:prop>".toList }

/-! ## Users -/

/-- `UserService::get_or_http_error` -/
def getOrHttpError (key : PublicKey) (errIfDisabled : Bool) : Proc HttpError UserEntity := do
  let user ← stmt (fun e => if e = .rowNotFound then .notFound else .ofSql e)
    (perform (.getUser key))
  require (!(errIfDisabled && user.disabled)) (.forbiddenWithMessage "User is disabled".toList)
  return user

/-- Lock a user row for a change by the administrator. -/
def lockUserForUpdate (key : PublicKey) : Proc HttpError UserEntity :=
  stmt (fun e => if e = .rowNotFound then .notFound else .ofSql e) (perform (.lockUser key))

def setDisabled (key : PublicKey) (disabled : Bool) : Proc HttpError Unit :=
  inTransaction .ofSql .ofSql (fun _ => true) do
    let user ← lockUserForUpdate key
    let _ ← stmt HttpError.ofSql (perform (.updateUser { user with disabled := disabled }))

/-- `patch` merges the administrator's changes into the quota and validates the result. -/
def patchQuota (key : PublicKey) (patch : UserQuota → Except Text UserQuota) :
    Proc HttpError Unit := do
  inTransaction .ofSql .ofSql (fun _ => true) do
    let user ← lockUserForUpdate key
    let quota ← check (HttpError.newWithMessage 422) (patch user.quota)
    let _ ← stmt HttpError.ofSql (perform (.setQuota user.id quota))
  always (perform (.uncacheQuota key))

/-! ## Write locks -/

/-- `set_expiry_of_live_lock`, for `keep_alive` or `refresh`. -/
def setExpiryOfLiveLock (path : EntryPath) (tokens : List Text) (keep : Bool) (seconds : ℤ) :
    Proc SqlError (Option EntryLockRow) :=
  inTransaction id id (fun _ => true) do
    stmt id (perform (.takeLock path tokens))
    let now ← always (perform .statementTimestamp)
    stmt id (perform (.extendLock path tokens keep seconds now))

/-- One round of the task that keeps a lock alive; it stops once the lock is gone. -/
def keepAliveRound (parent : ℕ) (path : EntryPath) (token : Text) : Proc SqlError Unit := do
  match ← setExpiryOfLiveLock path [token] true writeLockHorizonSecs with
  | some _ => return
  | none => always (perform (.stopKeepAlive (some parent)))

/-- The check of `with_write_lock`; the answer is the token that the write runs under. -/
def checkLock (path : EntryPath) (headers : HeaderMap) : Proc HttpError (Option Text) :=
  if ifHeaderTokens headers = [] then do
    match ← stmt HttpError.ofSql (perform (.getActiveLock path)) with
    | none => return none
    | some _ => throw .locked
  else do
    match ← mapErr HttpError.ofSql
      (setExpiryOfLiveLock path (ifHeaderTokens headers) true writeLockHorizonSecs) with
    | none => throw .lockTokenMismatch
    | some live => do
      always (perform (.spawnKeepAlive path live.token))
      return some live.token

/-- Run `write` on `path` if the path's lock allows it. -/
def withWriteLock (path : EntryPath) (headers : HeaderMap)
    (write : Option Text → Proc FileIoError Unit) : Proc HttpError Unit := do
  let token ← checkLock path headers
  let result ← (attempt (write token) : Proc HttpError (Except FileIoError Unit))
  always (perform (.stopKeepAlive none))
  check HttpError.ofFileIo result

/-! ## Handlers -/

section

variable (cfg : Config) (C : StorageCrates)

/-- What a write to `path` demands: a file path, a session with write capability on it, and a
known owner. -/
def authorizeWrite (session : AuthSession) (path : EntryPath) (mustBeEnabled : Bool) :
    Proc HttpError UserEntity := do
  require path.path.isFile (.badRequest "Target path must be a file".toList)
  check id (hasWritePermission session path.pubkey path.path)
  getOrHttpError path.pubkey mustBeEnabled

/-- The early check of the announced length against the user's quota. -/
def failIfSizeHintExceedsQuota (hint : Option UInt64) (user : UserEntity) (path : EntryPath) :
    Proc HttpError Unit :=
  match hint with
  | none => return
  | some hint => do
    let existing ← (attempt (stmt id (perform (.getEntry path))) :
      Proc HttpError (Except SqlError EntryEntity))
    let delta := writeDelta (existing.toOption.map EntryEntity.contentLength) hint
    require (!wouldExceedLimit user.usedBytes delta
      (resolveStorageMaxBytes user cfg.defaultStorageMb)) .insufficientStorage

/-- `FileService::write_stream` -/
def fileWriteStream (path : EntryPath) (body : List (Option Bytes)) (token : Option Text) :
    Proc FileIoError Unit := do
  writeStream cfg C .app token (path.asStr C) body
  let _ ← stmt (fun e => if e = .rowNotFound then FileIoError.notFound else .sqlDb e)
    (perform (.getEntry path))

/-- `FileService::delete` -/
def fileDelete (path : EntryPath) (token : Option Text) : Proc FileIoError Unit := do
  let _ ← stmt FileIoError.ofOpendal (perform (.stat (C.normalizePath (path.asStr C))))
  mapErr .ofOpendal (deleteAll cfg C .app token [path.asStr C])

def put (session : AuthSession) (path : EntryPath) (headers : HeaderMap)
    (body : List (Option Bytes)) : Proc HttpError Response := do
  let user ← authorizeWrite session path true
  failIfSizeHintExceedsQuota cfg (contentLengthFromHeaders headers) user path
  withWriteLock path headers (fileWriteStream cfg C path body)
  return .ofStatus 201

def delete (session : AuthSession) (path : EntryPath) (headers : HeaderMap) :
    Proc HttpError Response := do
  let _ ← authorizeWrite session path false
  withWriteLock path headers (fileDelete cfg C path)
  return .ofStatus 204

/-- Grant a new lock, sweeping expired ones first. -/
def createLock (path : EntryPath) (lifetime : ℤ) : Proc HttpError EntryLockRow := do
  let token ← always (perform .newToken)
  let now ← always (perform .statementTimestamp)
  stmt HttpError.ofSql (perform (.deleteExpiredLocks now))
  let now ← always (perform .statementTimestamp)
  let granted ← stmt HttpError.ofSql (perform (.acquireLock path token lifetime now))
  check id (granted.okOr .locked)

def lock (session : Option AuthSession) (path : EntryPath) (lockRoot : Text) (headers : HeaderMap)
    (body : List (Option Bytes)) : Proc HttpError Response := do
  let session ← check id (session.okOr .unauthorized)
  let _ ← authorizeWrite session path true
  let presented := ifHeaderTokens headers
  let lifetime := requestedTimeout headers
  if presented = [] then do
    check id (checkLockinfo body)
    let granted ← createLock path lifetime
    return lockResponse granted lockRoot lifetime true
  else do
    let refreshed ← mapErr HttpError.ofSql (setExpiryOfLiveLock path presented false lifetime)
    let live ← check id (refreshed.okOr .lockTokenMismatch)
    return lockResponse live lockRoot lifetime false

def unlock (session : Option AuthSession) (path : EntryPath) (headers : HeaderMap) :
    Proc HttpError Response := do
  let session ← check id (session.okOr .unauthorized)
  let _ ← authorizeWrite session path false
  let token ← check id ((lockTokenHeader headers).okOr
    (.badRequest "Missing or malformed Lock-Token header".toList))
  let released ← stmt HttpError.ofSql (perform (.releaseLock path token))
  require released (.conflict "No lock with this token on this path".toList)
  return .ofStatus 204

/-- The methods that change files; `other` is any but these, `GET` and `HEAD`. -/
inductive Method where
  | put
  | delete
  | lock
  | unlock
  | other
  deriving DecidableEq, Repr

/-- A request with the session that the middleware has resolved for it. A chunk of the body is
`none` where the stream breaks off. -/
structure Request where
  method : Method
  head : RequestHead
  session : Option AuthSession
  body : List (Option Bytes)
  deriving DecidableEq

/-- The file that a request is about: the tenant of the `/storage` route with its path, or the
tenant of the deprecated route with the matched path. -/
def routeTarget (tenant : Option RequestTenant) : Route → Except HttpError EntryPath
  | .storage => EntryPath.fromRequestParts tenant
  | .legacy matched => do
    let tenant ← RequestTenant.fromRequestParts tenant
    let decoded ← (C.percentDecode matched).okOr ⟨400, none, none⟩
    let path ← (webDavFilePathAxum decoded).okOr ⟨400, none, none⟩
    return ⟨tenant.publicKey, path⟩

/-- The handler of a request: the tenant is resolved first, then the route and its extractors. -/
def handle (r : Request) : Proc HttpError Response := do
  let tenant ← check HttpError.badRequest (RequestTenant.fromRequest C r.head)
  let route ← check id ((matchRoute r.head.rawPath).okOr .notFound)
  match r.method with
  | .put => do
    let session ← check id (r.session.okOr .unauthorized)
    let path ← check id (routeTarget C tenant route)
    put cfg C session path r.head.headers r.body
  | .delete => do
    let session ← check id (r.session.okOr .unauthorized)
    let path ← check id (routeTarget C tenant route)
    delete cfg C session path r.head.headers
  | method =>
    match route with
    | .legacy _ => throw ⟨405, none, none⟩
    | .storage => do
      let path ← check id (routeTarget C tenant .storage)
      match method with
      | .lock => lock r.session path r.head.rawPath r.head.headers r.body
      | .unlock => unlock r.session path r.head.headers
      | _ => return ⟨405, [("allow".toList, allowedMethods)], []⟩

end

/-- A handler that writes addresses what a handler that reads would address. -/
theorem readTarget_of_routeTarget {C : StorageCrates} {tenant : Option RequestTenant} {route : Route}
    {e : EntryPath} (h : routeTarget C tenant route = .ok e) :
    readTarget C tenant route = .ok e := by
  cases route with
  | storage => exact h
  | legacy matched =>
    obtain ⟨t, ht, h⟩ := Except.bind_ok_iff.1 h
    obtain ⟨decoded, hdecoded, h⟩ := Except.bind_ok_iff.1 h
    obtain ⟨path, hpath, h⟩ := Except.bind_ok_iff.1 h
    have hread : webDavPathAxum decoded = some path := by
      have hfile := Option.okOr_eq_ok.1 hpath
      rw [webDavFilePathAxum] at hfile
      rw [webDavPathAxum]
      split at hfile
      · rename_i p hp
        split at hfile
        · rw [hp, ← hfile]
          rfl
        · cases hfile
      · cases hfile
    exact Except.bind_ok_iff.2 ⟨t, ht, Except.bind_ok_iff.2 ⟨decoded, hdecoded,
      Except.bind_ok_iff.2 ⟨path, Option.okOr_eq_ok.2 hread, h⟩⟩⟩

/-! ## The machine -/

/-- A call: a request of a client, a round of the task that keeps its lock alive, an operation
on one of the storage operators, or a change of a user by the administrator. -/
inductive Call where
  | request (r : Request)
  | keepAlive (parent : ℕ) (path : EntryPath) (token : Text)
  | operate (access : Access) (operation : Operation)
  | patchQuota (publicKey : PublicKey) (patch : UserQuota → Except Text UserQuota)
  | setDisabled (publicKey : PublicKey) (disabled : Bool)

/-- The result of a call. -/
inductive Out where
  | response (r : Except HttpError Response)
  | kept (r : Except SqlError Unit)
  | operated (r : Except FileIoError Unit)
  | changed (r : Except HttpError Unit)

/-- The program of a call. -/
def program (cfg : Config) (C : StorageCrates) : Call → Prog Op Op.Res Out
  | .request r => (handle cfg C r).run >>= fun a => .ret (.response a)
  | .keepAlive parent path token =>
    (keepAliveRound parent path token).run >>= fun a => .ret (.kept a)
  | .operate access operation =>
    (operate cfg C access operation).run >>= fun a => .ret (.operated a)
  | .patchQuota key patch => (patchQuota key patch).run >>= fun a => .ret (.changed a)
  | .setDisabled key disabled => (setDisabled key disabled).run >>= fun a => .ret (.changed a)

/-- All calls run over one shared state. -/
def machine (cfg : Config) (C : StorageCrates) : Machine State Op Choice Env Call Out Op.Res where
  exec := exec cfg C
  env := env C
  abort := abort
  prog := program cfg C

abbrev Wld := World State Call Out
abbrev Lbl := Label Op Choice Env Call Out
abbrev Pl := Pool State Op Call Out Op.Res

end Pubky.Homeserver.Storage

import Pubky.Homeserver.Storage.Entities
import Pubky.Lib.Machine

/-!
# The database and the storage backend

The shared state that changes of files work on, and the SQL statements and backend requests
as atomic operations on it:

* `persistence/sql/entities/{user,entry,events,entry_lock}` for the tables `users`, `entries`,
  `events` and `entry_locks`; every call has at most one transaction at a time, on a
  connection that may die before the call ends it,
* the backend below `opendal`: a file system, or an object store whose objects have
  generations and whose requests can be carried out after the caller has given up,
* the quota cache of the user service and the tasks that keep write locks alive.

The last fields of the state are auxiliary: no operation reads them. They record for which
user and path an id was drawn, when user rows were locked and transactions ended, and what
the open transactions have published and hold.
-/

namespace Pubky.Homeserver.Storage

open Sql

/-! ## State -/

/-- An open transaction: the call it belongs to, its number, and whether its connection is
still there. -/
structure Tx where
  thread : ℕ
  number : ℕ
  alive : Bool
  deriving DecidableEq, Repr

/-- A stored file, with the transaction that published it. -/
structure Blob where
  key : Text
  content : Bytes
  generation : ℕ
  publisher : Option ℕ
  deriving DecidableEq, Repr

/-- What a publish or delete must find at the real path to apply. -/
inductive ExpectedGeneration where
  | absent
  | known (generation : ℕ)
  deriving DecidableEq, Repr

/-- A change of a file that is sent to the backend. -/
inductive BackendRequest where
  | publish (key : Text) (content : Bytes) (expected : Option ExpectedGeneration)
  | remove (key : Text) (expected : Option ExpectedGeneration)
  deriving DecidableEq, Repr

def BackendRequest.key : BackendRequest → Text
  | .publish key _ _ => key
  | .remove key _ => key

def BackendRequest.expected : BackendRequest → Option ExpectedGeneration
  | .publish _ _ expected => expected
  | .remove _ expected => expected

/-- A request whose caller has given up on it but that the backend may still carry out. -/
structure InFlight where
  thread : ℕ
  tx : Option ℕ
  request : BackendRequest
  deriving DecidableEq, Repr

/-- The task that keeps a write lock alive for a request. -/
structure KeepAlive where
  thread : ℕ
  path : EntryPath
  token : Text
  deriving DecidableEq

/-- An entry of the journal of transactions. -/
inductive Mark where
  /-- The transaction has locked a row of `users`. -/
  | acquired (tx : ℕ)
  /-- The transaction was committed, rolled back or lost. -/
  | ended (tx : ℕ)
  deriving DecidableEq, Repr

/-- A transaction that holds a write lock: the statement of time `found` saw the lock with
this token and expiry. -/
structure Held where
  thread : ℕ
  key : Text
  token : Text
  found : ℤ
  expiresAt : ℤ
  deriving DecidableEq, Repr

/-- The shared state of all calls. -/
structure State where
  /-- The clock of the database in whole seconds. -/
  clock : ℤ
  users : Table UserRow Text
  entries : Table EntryRow ℕ
  events : Table EventRow ℕ
  entryLocks : Table EntryLockRow Text
  /-- The next value of the sequence behind `events.id`. -/
  nextEventId : ℕ
  /-- The call whose transaction holds the advisory lock of event inserts. -/
  eventLock : Option ℕ
  txs : List Tx
  nextTx : ℕ
  blobs : List Blob
  nextGeneration : ℕ
  inFlight : List InFlight
  quotaCache : List (PublicKey × Option UserQuota)
  keepAlives : List KeepAlive
  /-- For which key each value of the sequence behind `users.id` was drawn. -/
  userIds : List Text
  /-- For which user and path each value of the sequence behind `entries.id` was drawn. -/
  entryIds : List (ℕ × Text)
  /-- The journal of transactions, newest first. -/
  journal : List Mark
  /-- The files that open transactions have published. -/
  published : List (ℕ × Text)
  /-- The write locks that open transactions hold. -/
  held : List Held
  /-- The files that a call has found without a live write lock. -/
  unlocked : List (ℕ × Text)

/-- The storage that the server is configured with. -/
inductive Backend where
  | fileSystem
  | googleBucket
  deriving DecidableEq, Repr

structure Config where
  backend : Backend
  defaultStorageMb : Option UInt64

/-! ## Operations -/

/-- One SQL statement, backend request or access to memory. The clock that a statement on
`entry_locks` runs with is read before it waits for rows, so it is an operation of its own. -/
inductive Op where
  | begin
  | commit
  | rollback
  | ping
  | getUser (publicKey : PublicKey)
  | lockUser (publicKey : PublicKey)
  | updateUser (user : UserEntity)
  | setQuota (userId : ℕ) (quota : UserQuota)
  | getEntry (path : EntryPath)
  | hasCollision (path : EntryPath)
  | createEntry (userId : ℕ) (path : StoragePath) (metadata : FileMetadata)
  | updateEntry (id : ℕ) (metadata : FileMetadata)
  | deleteEntry (id : ℕ)
  | lockEvents
  | insertEvent (userId : ℕ) (type : EventType) (path : EntryPath)
  | statementTimestamp
  | newToken
  | getActiveLock (path : EntryPath)
  | acquireLock (path : EntryPath) (token : Text) (lifetime : ℤ) (now : ℤ)
  | deleteExpiredLocks (now : ℤ)
  | takeLock (path : EntryPath) (tokens : List Text)
  | extendLock (path : EntryPath) (tokens : List Text) (keep : Bool) (seconds now : ℤ)
  | holdLock (path : EntryPath) (token : Text) (now : ℤ)
  | releaseLock (path : EntryPath) (token : Text)
  | stat (key : Text)
  /-- Bytes of an upload that is not at its path yet: a chunk, its end, or its removal. -/
  | upload
  | send (request : BackendRequest)
  | copyBlob (source target : Text)
  | renameBlob (source target : Text)
  | createDir (key : Text)
  | cachedQuota (publicKey : PublicKey)
  | cacheQuota (publicKey : PublicKey) (quota : Option UserQuota)
  | uncacheQuota (publicKey : PublicKey)
  | spawnKeepAlive (path : EntryPath) (token : Text)
  /-- Stop the task of another call, or the own one. -/
  | stopKeepAlive (thread : Option ℕ)

/-- The type of an operation's answer. -/
def Op.Res : Op → Type
  | .begin | .commit | .ping => Except SqlError Unit
  | .rollback => Except SqlError Unit
  | .getUser _ | .lockUser _ | .updateUser _ | .setQuota _ _ => Except SqlError UserEntity
  | .getEntry _ => Except SqlError EntryEntity
  | .hasCollision _ => Except SqlError Bool
  | .createEntry _ _ _ | .updateEntry _ _ | .deleteEntry _ => Except SqlError Unit
  | .lockEvents | .insertEvent _ _ _ => Except SqlError Unit
  | .statementTimestamp => ℤ
  | .newToken => Text
  | .getActiveLock _ | .acquireLock _ _ _ _ => Except SqlError (Option EntryLockRow)
  | .deleteExpiredLocks _ => Except SqlError Unit
  | .takeLock _ _ => Except SqlError Unit
  | .extendLock _ _ _ _ _ => Except SqlError (Option EntryLockRow)
  | .holdLock _ _ _ | .releaseLock _ _ => Except SqlError Bool
  | .stat _ => Except OpendalError (Option ℕ)
  | .upload | .send _ | .copyBlob _ _ | .renameBlob _ _ | .createDir _ =>
    Except OpendalError Unit
  | .cachedQuota _ => Option (Option UserQuota)
  | .cacheQuota _ _ | .uncacheQuota _ | .spawnKeepAlive _ _ | .stopKeepAlive _ => Unit

/-- The environment's choice at an operation: it is carried out, it fails without an effect,
it is carried out but the answer is lost, an object store will carry it out some time after
the caller has given up, or the token that is drawn. -/
inductive Choice where
  | done
  | failed (kind : ErrorKind)
  | lost (kind : ErrorKind)
  | late (kind : ErrorKind)
  | token (t : Text)
  deriving DecidableEq, Repr

/-- A step of the environment: time passes, a user signs up, the connection of a transaction
dies, the object store carries out a late request, a client goes away so that its lock is no
longer kept alive, or a cached quota expires. -/
inductive Env where
  | tick (clock : ℤ)
  | addUser (publicKey : PublicKey) (quota : UserQuota)
  | lose (thread : ℕ)
  | land (n : ℕ)
  | disconnect (thread : ℕ)
  | expireQuota (publicKey : PublicKey)

/-! ## Transactions -/

namespace State

variable (s : State) (i : ℕ)

/-- The transaction of call `i`. -/
def tx? : Option Tx :=
  s.txs.find? fun t => t.thread = i

/-- Call `i` has a transaction whose connection is still there. -/
def alive : Bool :=
  s.txs.any fun t => t.thread = i && t.alive

/-- Call `i` has a transaction that is lost. -/
def lost : Bool :=
  s.txs.any fun t => t.thread = i && !t.alive

/-- Record that the transaction of call `i` has ended, and forget what it did meanwhile. -/
def finish (txs : List Tx) : State :=
  { s with
    txs := txs
    eventLock := if s.eventLock = some i then none else s.eventLock
    journal := (s.txs.filter fun t => t.thread = i && t.alive).map (Mark.ended ·.number) ++
      s.journal
    published := s.published.filter fun e => e.1 ≠ i
    held := s.held.filter fun h => h.thread ≠ i }

/-- The transactions without that of call `i`. -/
def txsWithout : List Tx :=
  s.txs.filter fun t => t.thread ≠ i

/-- `COMMIT` of the transaction of call `i`. -/
def commit : State :=
  { s with
    users := s.users.commit i
    entries := s.entries.commit i
    events := s.events.commit i
    entryLocks := s.entryLocks.commit i }.finish i (s.txsWithout i)

/-- Undo what the transaction of call `i` has done. -/
def undo : State :=
  { s with
    users := s.users.rollback i
    entries := s.entries.rollback i
    events := s.events.rollback i
    entryLocks := s.entryLocks.rollback i }

/-- `ROLLBACK` of the transaction of call `i`. -/
def rollback : State :=
  (s.undo i).finish i (s.txsWithout i)

/-- The connection of call `i`'s transaction dies. -/
def lose : State :=
  (s.undo i).finish i
    (s.txs.map fun t => if t.thread = i then { t with alive := false } else t)

end State

/-- The answer to a statement under the environment's choice. On a connection that is gone
every statement fails. -/
def answer {α : Type} (c : Choice) (i : ℕ) (s : State) (x : Option (Except SqlError α × State)) :
    Option (Except SqlError α × State) :=
  if s.lost i then some (.error .database, s)
  else
    match c with
    | .done => x
    | .failed _ => some (.error .database, s)
    | .lost _ => x.map fun y => (.error .database, y.2)
    | .late _ | .token _ => none

/-- The answer to a query. -/
def reads {α : Type} (c : Choice) (i : ℕ) (s : State) (x : Except SqlError α) :
    Option (Except SqlError α × State) :=
  answer c i s (some (x, s))

/-! ## Statements -/

namespace State

variable (C : StorageCrates) (s : State) (i : ℕ)

/-- The id of a user. -/
def userIdOf (publicKey : PublicKey) : Option ℕ :=
  (lookup (s.users.view i) (C.z32 publicKey)).map UserRow.id

/-- `UserRepository::get` -/
def getUser (publicKey : PublicKey) : Except SqlError UserEntity := do
  let row ← found (lookup (s.users.view i) (C.z32 publicKey))
  row.decode C.toCrates

/-- `UserRepository::get_for_update` and `get_for_no_key_update`, which exclude each other. -/
def lockUser (publicKey : PublicKey) : Option (Except SqlError UserEntity × State) :=
  match s.users.selectForUpdate i (C.z32 publicKey) with
  | none => none
  | some (none, _) => some (.error .rowNotFound, s)
  | some (some row, users) =>
    some (row.decode C.toCrates,
      { s with
        users := users
        journal := (s.txs.filter fun t => t.thread = i).map (Mark.acquired ·.number) ++
          s.journal })

/-- `UPDATE users SET … WHERE id = $1 RETURNING *` -/
def updateUserById (userId : ℕ) (f : UserRow → UserRow) :
    Option (Except SqlError UserEntity × State) :=
  match (s.users.view i).find? fun r => r.id = userId with
  | none => some (.error .rowNotFound, s)
  | some row =>
    match s.users.update i row.publicKey f with
    | none => none
    | some (none, _) => some (.error .rowNotFound, s)
    | some (some row, users) => some (row.decode C.toCrates, { s with users := users })

/-- `UserRepository::update`, which writes two columns. -/
def updateUser (user : UserEntity) : Option (Except SqlError UserEntity × State) :=
  s.updateUserById C i user.id fun r =>
    { r with disabled := user.disabled, usedBytes := user.usedBytes }

/-- `UserRepository::set_quota` -/
def setQuota (userId : ℕ) (quota : UserQuota) : Option (Except SqlError UserEntity × State) :=
  s.updateUserById C i userId fun r => { r with quota := quota }

/-- `EntryRepository::get_by_path` -/
def getEntry (path : EntryPath) : Except SqlError EntryEntity := do
  let userId ← found (s.userIdOf C i path.pubkey)
  let row ← found ((s.entries.view i).find? fun r => r.user = userId ∧ r.path = path.path.asStr)
  row.decode C.toCrates (C.z32 path.pubkey)

/-- `EntryRepository::has_file_folder_collision` -/
def hasCollision (path : EntryPath) : Bool :=
  (s.userIdOf C i path.pubkey).any fun userId =>
    (s.entries.view i).any fun r => r.user = userId && collides path.path.asStr r.path

/-- A length that the column `entries.content_length` can hold. -/
def fitsBigint (length : UInt64) : Bool :=
  length.toNat < 2 ^ 63

/-- `EntryRepository::create`, with the foreign key to `users` and the unique `(user, path)`;
the sequence advances even if the path is taken. -/
def createEntry (userId : ℕ) (path : StoragePath) (metadata : FileMetadata) :
    Option (Except SqlError Unit × State) :=
  if !fitsBigint metadata.length then some (.error .database, s)
  else
    let row : EntryRow :=
      { id := s.entryIds.length, user := userId, path := path.asStr, contentHash := metadata.hash
        contentLength := metadata.length, contentType := metadata.contentType }
    let s' := { s with entryIds := s.entryIds ++ [(userId, path.asStr)] }
    if !((s.users.view i).any fun r => r.id = userId) ||
        (s.entries.view i).any fun r => r.user = userId && r.path = path.asStr then
      some (.error .database, s')
    else some (.ok (), { s' with entries := s.entries.write i (.put row) })

/-- `EntryRepository::update` -/
def updateEntry (id : ℕ) (metadata : FileMetadata) : Option (Except SqlError Unit × State) :=
  if !fitsBigint metadata.length then some (.error .database, s)
  else
    match s.entries.update i id fun r =>
      { r with contentHash := metadata.hash, contentLength := metadata.length
               contentType := metadata.contentType } with
    | none => none
    | some (_, entries) => some (.ok (), { s with entries := entries })

/-- `EntryRepository::delete` -/
def deleteEntry (id : ℕ) : Option (Except SqlError Unit × State) :=
  match lookup (s.entries.view i) id with
  | none => some (.ok (), s)
  | some _ =>
    if s.entries.blocked i id then none
    else some (.ok (), { s with entries := s.entries.write i (.del id) })

/-- `SELECT pg_advisory_xact_lock` -/
def lockEvents : Option (Except SqlError Unit × State) :=
  if s.eventLock.any (· ≠ i) then none else some (.ok (), { s with eventLock := some i })

/-- The `INSERT` of `EventRepository::create`. -/
def insertEvent (userId : ℕ) (type : EventType) (path : EntryPath) :
    Option (Except SqlError Unit × State) :=
  let row : EventRow :=
    { id := s.nextEventId, user := userId, type := type.toText, path := path.path.asStr
      contentHash := type.contentHash }
  some (.ok (), { s with events := s.events.write i (.put row), nextEventId := s.nextEventId + 1 })

/-! ### Write locks -/

/-- Change a row of `entry_locks` by a statement outside of a transaction. -/
def setEntryLock (w : Write EntryLockRow Text) : State :=
  { s with entryLocks := { s.entryLocks with rows := w.apply s.entryLocks.rows } }

/-- `EntryLockRepository::get_active` -/
def getActiveLock (path : EntryPath) : Option EntryLockRow :=
  (lookup (s.entryLocks.view i) (path.asStr C)).filter fun r => s.clock < r.expiresAt

/-- `EntryLockRepository::acquire`: an expired lock is replaced. -/
def acquireLock (path : EntryPath) (token : Text) (lifetime now : ℤ) :
    Option (Except SqlError (Option EntryLockRow) × State) :=
  let row : EntryLockRow := ⟨path.asStr C, token, now + lifetime⟩
  if s.entryLocks.blocked i row.path then none
  else
    match lookup s.entryLocks.rows row.path with
    | some old =>
      if old.expiresAt ≤ now then some (.ok (some row), s.setEntryLock (.put row))
      else some (.ok none, s)
    | none => some (.ok (some row), s.setEntryLock (.put row))

/-- `EntryLockRepository::delete_expired` -/
def deleteExpiredLocks (now : ℤ) : Option (Except SqlError Unit × State) :=
  let doomed := s.entryLocks.rows.filter fun r => r.expiresAt ≤ now
  if doomed.any fun r => s.entryLocks.blocked i r.path then none
  else some (.ok (), { s with entryLocks := { s.entryLocks with
    rows := s.entryLocks.rows.filter fun r => ¬ r.expiresAt ≤ now } })

/-- The `SELECT … FOR UPDATE` of `set_expiry_of_live_lock`. -/
def takeLock (path : EntryPath) (tokens : List Text) : Option (Except SqlError Unit × State) :=
  match lookup (s.entryLocks.view i) (path.asStr C) with
  | none => some (.ok (), s)
  | some row =>
    if s.entryLocks.blocked i row.path then none
    else if tokens.contains row.token then
      some (.ok (), { s with entryLocks := s.entryLocks.lock i row.path })
    else some (.ok (), s)

/-- The `UPDATE` of `set_expiry_of_live_lock`, for `keep_alive` or `refresh`. -/
def extendLock (path : EntryPath) (tokens : List Text) (keep : Bool) (seconds now : ℤ) :
    Option (Except SqlError (Option EntryLockRow) × State) :=
  match lookup (s.entryLocks.view i) (path.asStr C) with
  | none => some (.ok none, s)
  | some row =>
    if s.entryLocks.blocked i row.path then none
    else if tokens.contains row.token ∧ now < row.expiresAt then
      let expiresAt := if keep then max row.expiresAt (now + seconds) else now + seconds
      let row' := { row with expiresAt := expiresAt }
      some (.ok (some row'), { s with entryLocks := s.entryLocks.write i (.put row') })
    else some (.ok none, s)

/-- `EntryLockRepository::hold` -/
def holdLock (path : EntryPath) (token : Text) (now : ℤ) :
    Option (Except SqlError Bool × State) :=
  match lookup (s.entryLocks.view i) (path.asStr C) with
  | none => some (.ok false, s)
  | some row =>
    if s.entryLocks.blocked i row.path then none
    else if row.token = token ∧ now < row.expiresAt then
      some (.ok true,
        { s with
          entryLocks := s.entryLocks.lock i row.path
          held := ⟨i, row.path, row.token, now, row.expiresAt⟩ :: s.held })
    else some (.ok false, s)

/-- `EntryLockRepository::release` -/
def releaseLock (path : EntryPath) (token : Text) : Option (Except SqlError Bool × State) :=
  match lookup s.entryLocks.rows (path.asStr C) with
  | none => some (.ok false, s)
  | some row =>
    if s.entryLocks.blocked i row.path then none
    else if row.token = token then some (.ok true, s.setEntryLock (.del row.path))
    else some (.ok false, s)

end State

/-! ## The backend -/

namespace State

variable (s : State)

/-- The stored file at a key. -/
def blob? (key : Text) : Option Blob :=
  s.blobs.find? fun b => b.key = key

/-- The object at a key is the one a request expects. -/
def meets (key : Text) : Option ExpectedGeneration → Bool
  | none => true
  | some .absent => (s.blob? key).isNone
  | some (.known generation) => (s.blob? key).any fun b => b.generation = generation

/-- Put a file at a key, in a new generation. -/
def putBlob (key : Text) (content : Bytes) (publisher : Option ℕ) : State :=
  let blob : Blob := ⟨key, content, s.nextGeneration, publisher⟩
  { s with
    blobs := s.blobs.filter (fun b => b.key ≠ key) ++ [blob]
    nextGeneration := s.nextGeneration + 1 }

def removeBlob (key : Text) : State :=
  { s with blobs := s.blobs.filter fun b => b.key ≠ key }

/-- The backend carries out a request of transaction `tx`, unless the object there is not the
one that the request expects. -/
def carryOut (tx : Option ℕ) (request : BackendRequest) : Except OpendalError Unit × State :=
  if s.meets request.key request.expected then
    match request with
    | .publish key content _ => (.ok (), s.putBlob key content tx)
    | .remove key _ => (.ok (), s.removeBlob key)
  else (.error ⟨.conditionNotMatch, none⟩, s)

/-- Record what the transaction of call `i` has published. -/
def notePublished (i : ℕ) (request : BackendRequest) : State :=
  match request with
  | .publish key _ _ => if s.alive i then { s with published := (i, key) :: s.published } else s
  | .remove _ _ => s

/-- The number of call `i`'s transaction. -/
def txNumber (i : ℕ) : Option ℕ :=
  (s.tx? i).map Tx.number

end State

/-- The answer of the backend under the environment's choice. -/
def backendAnswer {α : Type} (c : Choice) (s : State) (x : Except OpendalError α × State) :
    Option (Except OpendalError α × State) :=
  match c with
  | .done => some x
  | .failed kind => some (.error ⟨kind, none⟩, s)
  | .lost kind => some (.error ⟨kind, none⟩, x.2)
  | .late _ | .token _ => none

/-- A publish or delete of call `i`. -/
def State.send (cfg : Config) (i : ℕ) (request : BackendRequest) (c : Choice) (s : State) :
    Option (Except OpendalError Unit × State) :=
  match c with
  | .late kind =>
    match cfg.backend with
    | .fileSystem => none
    | .googleBucket =>
      some (.error ⟨kind, none⟩,
        { s with inFlight := s.inFlight ++ [⟨i, s.txNumber i, request⟩] })
  | c =>
    let (answer, s') := s.carryOut (s.txNumber i) request
    backendAnswer c s (answer, match answer with | .ok () => s'.notePublished i request | _ => s')

/-- The version that `stat` reports. -/
def State.stat (cfg : Config) (key : Text) (s : State) : Except OpendalError (Option ℕ) :=
  match s.blob? key with
  | none => .error ⟨.notFound, none⟩
  | some b =>
    match cfg.backend with
    | .fileSystem => .ok none
    | .googleBucket => .ok (some b.generation)

/-- Copying on the backend; object stores refuse it. -/
def State.copyBlob (cfg : Config) (i : ℕ) (source target : Text) (s : State) :
    Except OpendalError Unit × State :=
  match cfg.backend with
  | .googleBucket => (.error ⟨.unsupported, none⟩, s)
  | .fileSystem =>
    match s.blob? source with
    | none => (.error ⟨.notFound, none⟩, s)
    | some b => (.ok (), s.putBlob target b.content (s.txNumber i))

/-- Renaming on the backend; object stores refuse it. -/
def State.renameBlob (cfg : Config) (i : ℕ) (source target : Text) (s : State) :
    Except OpendalError Unit × State :=
  match cfg.backend with
  | .googleBucket => (.error ⟨.unsupported, none⟩, s)
  | .fileSystem =>
    match s.blob? source with
    | none => (.error ⟨.notFound, none⟩, s)
    | some b => (.ok (), (s.removeBlob source).putBlob target b.content (s.txNumber i))

/-! ## Execution -/

/-- The effect of an operation of call `i`. -/
def exec (cfg : Config) (C : StorageCrates) (i : ℕ) :
    (o : Op) → Choice → State → Option (o.Res × State)
  | .begin, c, s =>
    match c with
    | .done =>
      if s.txs.any fun t => t.thread = i then none
      else some (.ok (), { s with txs := ⟨i, s.nextTx, true⟩ :: s.txs, nextTx := s.nextTx + 1 })
    | .failed _ => some (.error .database, s)
    | _ => none
  | .commit, c, s =>
    if s.alive i then
      match c with
      | .done => some (.ok (), s.commit i)
      | .failed _ => some (.error .database, s.rollback i)
      | .lost _ => some (.error .database, s.commit i)
      | _ => none
    else some (.error .database, s.rollback i)
  | .rollback, c, s =>
    match c with
    | .done => some (.ok (), s.rollback i)
    | .failed _ => some (.error .database, s.rollback i)
    | _ => none
  | .ping, c, s => reads c i s (.ok ())
  | .getUser key, c, s => reads c i s (s.getUser C i key)
  | .lockUser key, c, s => answer c i s (s.lockUser C i key)
  | .updateUser user, c, s => answer c i s (s.updateUser C i user)
  | .setQuota userId quota, c, s => answer c i s (s.setQuota C i userId quota)
  | .getEntry path, c, s => reads c i s (s.getEntry C i path)
  | .hasCollision path, c, s => reads c i s (.ok (s.hasCollision C i path))
  | .createEntry userId path metadata, c, s => answer c i s (s.createEntry i userId path metadata)
  | .updateEntry id metadata, c, s => answer c i s (s.updateEntry i id metadata)
  | .deleteEntry id, c, s => answer c i s (s.deleteEntry i id)
  | .lockEvents, c, s => answer c i s (s.lockEvents i)
  | .insertEvent userId type path, c, s => answer c i s (s.insertEvent i userId type path)
  | .statementTimestamp, _, s => some (s.clock, s)
  | .newToken, c, s =>
    match c with
    | .token t => some (t, s)
    | _ => none
  | .getActiveLock path, c, s =>
    answer c i s (some (.ok (s.getActiveLock C i path),
      if (s.getActiveLock C i path).isNone then
        { s with unlocked := (i, path.asStr C) :: s.unlocked }
      else s))
  | .acquireLock path token lifetime now, c, s =>
    answer c i s (s.acquireLock C i path token lifetime now)
  | .deleteExpiredLocks now, c, s => answer c i s (s.deleteExpiredLocks i now)
  | .takeLock path tokens, c, s => answer c i s (s.takeLock C i path tokens)
  | .extendLock path tokens keep seconds now, c, s =>
    answer c i s (s.extendLock C i path tokens keep seconds now)
  | .holdLock path token now, c, s => answer c i s (s.holdLock C i path token now)
  | .releaseLock path token, c, s => answer c i s (s.releaseLock C i path token)
  | .stat key, c, s => backendAnswer c s (s.stat cfg key, s)
  | .upload, c, s => backendAnswer c s (.ok (), s)
  | .send request, c, s => s.send cfg i request c
  | .copyBlob source target, c, s => backendAnswer c s (s.copyBlob cfg i source target)
  | .renameBlob source target, c, s => backendAnswer c s (s.renameBlob cfg i source target)
  | .createDir _, c, s => backendAnswer c s (.ok (), s)
  | .cachedQuota key, _, s => some (s.quotaCache.lookup key, s)
  | .cacheQuota key quota, _, s => some ((), { s with quotaCache := (key, quota) :: s.quotaCache })
  | .uncacheQuota key, _, s =>
    some ((), { s with quotaCache := s.quotaCache.filter fun e => e.1 ≠ key })
  | .spawnKeepAlive path token, _, s =>
    some ((), { s with keepAlives := ⟨i, path, token⟩ :: s.keepAlives })
  | .stopKeepAlive thread, _, s =>
    some ((), { s with keepAlives := s.keepAlives.filter fun k => k.thread ≠ thread.getD i })

/-- The effect of the environment. -/
def env (C : StorageCrates) : Env → State → Option State
  | .tick clock, s => if s.clock ≤ clock then some { s with clock := clock } else none
  | .addUser key quota, s =>
    if (lookup s.users.rows (C.z32 key)).isSome then none
    else
      let row : UserRow :=
        { id := s.userIds.length, publicKey := C.z32 key, disabled := false, usedBytes := 0
          quota := quota }
      some { s with
        users := { s.users with rows := s.users.rows ++ [row] }
        userIds := s.userIds ++ [C.z32 key] }
  | .lose i, s => if s.alive i then some (s.lose i) else none
  | .land n, s =>
    match s.inFlight[n]? with
    | none => none
    | some f => some { (s.carryOut f.tx f.request).2 with inFlight := s.inFlight.eraseIdx n }
  | .disconnect i, s => some { s with keepAlives := s.keepAlives.filter fun k => k.thread ≠ i }
  | .expireQuota key, s => some { s with quotaCache := s.quotaCache.filter fun e => e.1 ≠ key }

/-- What remains when call `i` is dropped: its connection closes and its tasks stop. -/
def abort (i : ℕ) (s : State) : State :=
  { s.rollback i with keepAlives := s.keepAlives.filter fun k => k.thread ≠ i }

end Pubky.Homeserver.Storage

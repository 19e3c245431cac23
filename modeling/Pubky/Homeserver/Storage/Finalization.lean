import Pubky.Homeserver.Storage.Database
import Pubky.Lib.Procedure

/-!
# The storage operators

The operations of the two operators that `layer_storage_operators` hands out, as programs of
atomic operations, from the outermost layer to the backend:

* `write_path_layer.rs` and `write_check.rs`: the checks before a change,
* `write_finalization_layer/{layer,write,delete,write_lock}.rs`: the transaction that keeps the
  entry, the event and the accounting of a file together with its blob,
* `staged_publish_layer.rs`: publishing and deleting under the generation of the object.

`Access.app` is the operator of the client server, `Access.admin` the one of the admin server,
which checks neither write paths nor collisions. Messages of errors are left out: of an
`opendal::Error` only its kind and the domain error it carries reach a client.
-/

namespace Pubky.Homeserver.Storage

open Conc Conc.Proc

/-- A program that can fail. -/
abbrev Proc (ε α : Type) := Conc.Proc Op Op.Res ε α

/-- Issue one operation. -/
abbrev perform (o : Op) : Prog Op Op.Res o.Res := .perform o

variable {ε α : Type}

/-- A statement of a finalization; its error is reported as an unexpected one. -/
def sql (p : Prog Op Op.Res (Except SqlError α)) : Proc OpendalError α :=
  stmt (fun _ => .unexpected) p

/-- A request to the backend. -/
def backend (p : Prog Op Op.Res (Except OpendalError α)) : Proc OpendalError α :=
  stmt id p

/-- Discard the bytes of an upload. A failure is only logged. -/
def discardUpload : Proc ε Unit := do
  let _ ← (always (perform .upload) : Proc ε (Except OpendalError Unit))

/-- Fail unless a condition holds. -/
def require (condition : Bool) (e : ε) : Proc ε Unit :=
  check id (if condition then .ok () else .error e)

/-! ## Checks -/

/-- Which of the two operators an operation goes through. -/
inductive Access where
  | app
  | admin
  deriving DecidableEq, Repr

/-- A check that only the operator of the client server makes. -/
def Access.onlyApp (access : Access) (p : Proc ε Unit) : Proc ε Unit :=
  match access with
  | .app => p
  | .admin => pure ()

def parseOpendal (C : StorageCrates) (path : Text) : Except OpendalError EntryPath :=
  (EntryPath.fromStr C path).mapError fun _ => .unexpected

/-- `UserService::resolve_quota` -/
def resolveQuota (key : PublicKey) : Proc SqlError (Option UserQuota) := do
  match ← (always (perform (.cachedQuota key)) : Proc SqlError (Option (Option UserQuota))) with
  | some cached => return cached
  | none => do
    always (perform (.uncacheQuota key))
    match ← (attempt (stmt id (perform (.getUser key))) : Proc SqlError (Except SqlError UserEntity))
    with
    | .ok user => do
      always (perform (.cacheQuota key (some user.quota)))
      return some user.quota
    | .error .rowNotFound => do
      always (perform (.cacheQuota key none))
      return none
    | .error e => throw e

/-- `check_write_path_allowed`; an unknown user is left to the inner layers. -/
def checkWritePathAllowed (path : EntryPath) : Proc OpendalError Unit := do
  match ← mapErr (fun _ => .unexpected) (resolveQuota path.pubkey) with
  | none => return
  | some quota => require (quota.isWritePathAllowed path.path.asStr) .writePathForbidden

def checkNoPathCollision (path : EntryPath) : Proc OpendalError Unit := do
  let hasCollision ← sql (perform (.hasCollision path))
  require (!hasCollision) .pathCollision

/-- `Finalizer::collision_preflight` -/
def collisionPreflight (access : Access) (path : EntryPath) : Proc OpendalError Unit :=
  access.onlyApp (checkNoPathCollision path)

/-- What an operator checks before a change of `path`. -/
def writeChecks (access : Access) (path : EntryPath) : Proc OpendalError Unit := do
  access.onlyApp (checkWritePathAllowed path)
  collisionPreflight access path

/-! ## Generations -/

/-- `live_generation`; `none` on a backend that reports none. -/
def liveGeneration (key : Text) : Proc OpendalError (Option ExpectedGeneration) := do
  match ← (attempt (backend (perform (.stat key))) : Proc _ (Except OpendalError (Option ℕ))) with
  | .ok version => return version.map .known
  | .error e => if e.kind = .notFound then return some .absent else throw e

/-- The generation read inside the transaction, and the transaction proven alive after that. -/
def generationUnderLock (C : StorageCrates) (path : EntryPath) :
    Proc OpendalError (Option ExpectedGeneration) := do
  let generation ← liveGeneration (path.asStr C)
  sql (perform .ping)
  return generation

/-- A refusal of the condition becomes a publish conflict. -/
def refusedAsConflict (e : OpendalError) : OpendalError :=
  if e.kind = .conditionNotMatch then .publishConflict else e

/-- `StagedWriter::close`, or the `close` of a backend that publishes by renaming. -/
def closeWriter (cfg : Config) (key : Text) (content : Bytes)
    (generation : Option ExpectedGeneration) : Proc OpendalError Unit :=
  match cfg.backend with
  | .fileSystem => backend (perform (.send (.publish key content none)))
  | .googleBucket => do
    backend (perform .upload)
    match generation with
    | none => do
      discardUpload
      throw .noGeneration
    | some expected => do
      let published ← (attempt
        (stmt refusedAsConflict (perform (.send (.publish key content (some expected))))) :
          Proc _ (Except OpendalError Unit))
      discardUpload
      check id published

/-- `ConditionalDeleter`, or the deleter of a backend without generations. -/
def deleteBlob (cfg : Config) (key : Text) (generation : Option ExpectedGeneration) :
    Proc OpendalError Unit :=
  match cfg.backend with
  | .fileSystem => backend (perform (.send (.remove key none)))
  | .googleBucket =>
    match generation with
    | none => throw .noGeneration
    | some expected => stmt refusedAsConflict (perform (.send (.remove key (some expected))))

/-! ## Write locks -/

/-- `write_lock::hold` under the token that the write runs with, if any. -/
def hold (path : EntryPath) (token : Option Text) : Proc OpendalError Unit :=
  match token with
  | none => return
  | some token => do
    let now ← always (perform .statementTimestamp)
    let held ← sql (perform (.holdLock path token now))
    require held .lockLost

/-! ## Transactions -/

/-- `begin`, a body that works in the transaction, `commit`. A body that fails, or whose answer
is not to be committed, rolls back. -/
def inTransaction (begins ends : SqlError → ε) (commits : α → Bool) (body : Proc ε α) :
    Proc ε α := do
  stmt begins (perform .begin)
  match ← (attempt body : Proc ε (Except ε α)) with
  | .ok a =>
    if commits a then do
      stmt ends (perform .commit)
      return a
    else do
      stmt ends (perform .rollback)
      return a
  | .error e => do
    let _ ← (always (perform .rollback) : Proc ε (Except SqlError Unit))
    throw e

/-! ## Writing -/

/-- Which side of publication a finalization failed on. -/
inductive WriteFailure where
  | beforePublication (e : OpendalError)
  | afterPublication (e : OpendalError)

structure PreparedWrite where
  user : UserEntity
  existingEntry : Option EntryEntity
  bytesDelta : Int64

/-- The change of the user's storage by a write; the arithmetic is that of `i64`. -/
def writeDelta (existing : Option UInt64) (length : UInt64) : Int64 :=
  let metadataBytes : Int64 := if existing.isNone then fileMetadataSize.toInt64 else 0
  length.toInt64 - (existing.getD 0).toInt64 + metadataBytes

def PreparedWrite.new (cfg : Config) (user : UserEntity) (existingEntry : Option EntryEntity)
    (metadata : FileMetadata) : Except OpendalError PreparedWrite :=
  let delta := writeDelta (existingEntry.map EntryEntity.contentLength) metadata.length
  if wouldExceedLimit user.usedBytes delta (resolveStorageMaxBytes user cfg.defaultStorageMb) then
    .error .quotaExceeded
  else .ok ⟨user, existingEntry, delta⟩

/-- `EntryRepository::get_by_path`, where a missing row is no error. -/
def findEntry (path : EntryPath) : Proc OpendalError (Option EntryEntity) := do
  match ← (attempt (stmt id (perform (.getEntry path))) : Proc _ (Except SqlError EntryEntity)) with
  | .ok entry => return some entry
  | .error .rowNotFound => return none
  | .error _ => throw .unexpected

section

variable (cfg : Config) (C : StorageCrates) (access : Access) (path : EntryPath)
  (token : Option Text)

def prepareWrite (metadata : FileMetadata) : Proc OpendalError PreparedWrite := do
  let user ← sql (perform (.lockUser path.pubkey))
  hold path token
  access.onlyApp (checkNoPathCollision path)
  let existingEntry ← findEntry path
  check id (PreparedWrite.new cfg user existingEntry metadata)

/-- `EventsService::create_event` -/
def createEvent (userId : ℕ) (type : EventType) : Proc OpendalError Unit := do
  sql (perform .lockEvents)
  sql (perform (.insertEvent userId type path))

/-- Update the entry there is, or create one. -/
def writeEntry (prepared : PreparedWrite) (metadata : FileMetadata) : Proc OpendalError Unit :=
  match prepared.existingEntry with
  | some entry => sql (perform (.updateEntry entry.id metadata))
  | none => sql (perform (.createEntry prepared.user.id path.path metadata))

def applyWriteEffects (prepared : PreparedWrite) (metadata : FileMetadata) :
    Proc OpendalError Unit := do
  writeEntry path prepared metadata
  createEvent path prepared.user.id (.put metadata.hash)
  let user := { prepared.user with
    usedBytes := saturatingAddSigned prepared.user.usedBytes prepared.bytesDelta }
  let _ ← sql (perform (.updateUser user))

def writeInTransaction (content : Bytes) (metadata : FileMetadata) : Proc WriteFailure Unit := do
  let prepared ← mapErr .beforePublication (prepareWrite cfg access path token metadata)
  let generation ← mapErr .beforePublication (generationUnderLock C path)
  mapErr .afterPublication (closeWriter cfg (path.asStr C) content generation)
  mapErr .afterPublication (applyWriteEffects path prepared metadata)

def finalizeWrite (content : Bytes) (metadata : FileMetadata) : Proc WriteFailure Unit :=
  inTransaction (fun _ => .beforePublication .unexpected) (fun _ => .afterPublication .unexpected)
    (fun _ => true) (writeInTransaction cfg C access path token content metadata)

/-- `WriteFinalizationWriter::close`: an upload that fails before publication is discarded. -/
def closeFinalization (builder : FileMetadataBuilder) : Proc OpendalError Unit := do
  let metadata := (builder.guessMimeTypeFromPath C path.path.asStr).finalize C
  match ← (attempt (finalizeWrite cfg C access path token builder.bytes metadata) :
    Proc _ (Except WriteFailure Unit)) with
  | .ok () => return
  | .error (.beforePublication e) => do
    discardUpload
    throw e
  | .error (.afterPublication e) => throw e

/-- `CheckedWriter::ensure_passed` -/
def unlessChecked (checked : Bool) (p : Proc ε Unit) : Proc ε Unit :=
  if checked then pure () else p

/-- The loop of `write_stream` over the chunks of a stream that may break off. The checks run
before the first chunk, or before the close of an empty stream. -/
def writeChunks : Bool → FileMetadataBuilder → List (Option Bytes) →
    Proc FileIoError (Bool × FileMetadataBuilder)
  | checked, builder, [] => return (checked, builder)
  | _, _, none :: _ => throw .streamBroken
  | checked, builder, some chunk :: rest => do
    unlessChecked checked (mapErr .ofOpendal (writeChecks access path))
    mapErr .ofOpendal (backend (perform .upload))
    writeChunks true (builder.update C chunk) rest

/-- `operator.writer(path)`, its chunks, and `close` or `abort`. -/
def writeStream (key : Text) (chunks : List (Option Bytes)) : Proc FileIoError Unit := do
  let key := C.normalizePath key
  require (!Text.endsWith '/' key) (.ofOpendal ⟨.isADirectory, none⟩)
  let path ← check .ofOpendal (parseOpendal C key)
  match ← (attempt (writeChunks C access path false .empty chunks) :
    Proc _ (Except FileIoError (Bool × FileMetadataBuilder))) with
  | .error e => do
    discardUpload
    throw e
  | .ok (checked, builder) => do
    match ← (attempt (unlessChecked checked (writeChecks access path)) :
      Proc _ (Except OpendalError Unit)) with
    | .error e => do
      discardUpload
      throw (.ofOpendal e)
    | .ok () => mapErr .ofOpendal (closeFinalization cfg C access path token builder)

/-! ## Deleting -/

inductive DeleteOutcome where
  | deleted
  | notFound
  deriving DecidableEq

structure StagedDelete where
  user : UserEntity
  deletedEntry : EntryEntity

/-- Lock a user row, where a missing row is no error. -/
def lockUserIfAny (key : PublicKey) : Proc OpendalError (Option UserEntity) := do
  match ← (attempt (stmt id (perform (.lockUser key))) : Proc _ (Except SqlError UserEntity)) with
  | .ok user => return some user
  | .error .rowNotFound => return none
  | .error _ => throw .unexpected

def stageDelete : Proc OpendalError (Option StagedDelete) := do
  match ← lockUserIfAny path.pubkey with
  | none => return none
  | some user => do
    hold path token
    match ← findEntry path with
    | none => return none
    | some deletedEntry => do
      sql (perform (.deleteEntry deletedEntry.id))
      return some ⟨user, deletedEntry⟩

def applyDeleteEffects (staged : StagedDelete) : Proc OpendalError Unit := do
  createEvent path staged.user.id .delete
  let bytesDelta := saturate (staged.deletedEntry.contentLength.toNat + fileMetadataSize.toNat)
  let user := { staged.user with
    usedBytes := saturate (staged.user.usedBytes.toNat - bytesDelta.toNat) }
  let _ ← sql (perform (.updateUser user))

def deleteInTransaction : Proc OpendalError DeleteOutcome := do
  match ← stageDelete path token with
  | none => return .notFound
  | some staged => do
    applyDeleteEffects path staged
    return .deleted

def finalizeDelete : Proc OpendalError DeleteOutcome :=
  inTransaction (fun _ => .unexpected) (fun _ => .unexpected) (· = .deleted)
    (deleteInTransaction path token)

/-- Remove the blob under the generation it has now; a refusal on that condition is fine. -/
def removeBlobUnderItsGeneration : Proc OpendalError Unit := do
  let generation ← generationUnderLock C path
  if generation = some .absent then return
  else do
    match ← (attempt (deleteBlob cfg (path.asStr C) generation) :
      Proc _ (Except OpendalError Unit)) with
    | .ok () => return
    | .error e => if e.source = some .publishConflict then return else throw e

def removeBlobInTransaction : Proc OpendalError Unit := do
  let _ ← lockUserIfAny path.pubkey
  match ← findEntry path with
  | some _ => return
  | none => removeBlobUnderItsGeneration cfg C path

/-- The transaction wrote nothing: it only held the user row. -/
def removeBlobIfUnreferenced : Proc OpendalError Unit := do
  sql (perform .begin)
  let result ← (attempt (removeBlobInTransaction cfg C path) :
    Proc _ (Except OpendalError Unit))
  let _ ← (always (perform .rollback) : Proc _ (Except SqlError Unit))
  check id result

def finalizeAndRemoveBlob : Proc OpendalError Unit := do
  let _ ← finalizeDelete path token
  removeBlobIfUnreferenced cfg C path

/-- `process_delete_queue`: every path is tried, the first error is reported. -/
def processDeleteQueue : List EntryPath → Option OpendalError → Proc OpendalError Unit
  | [], firstError => check id (match firstError with | none => .ok () | some e => .error e)
  | path :: rest, firstError => do
    match ← (attempt (finalizeAndRemoveBlob cfg C path token) :
      Proc _ (Except OpendalError Unit)) with
    | .ok () => processDeleteQueue rest firstError
    | .error e => processDeleteQueue rest (firstError.or (some e))

/-- What `process_delete_queue` leaves: the deletes that failed stay queued, in their order, and the
first error is kept. -/
def tryDeletes : List EntryPath → List EntryPath → Option OpendalError →
    Proc OpendalError (List EntryPath × Option OpendalError)
  | [], failed, firstError => return (failed, firstError)
  | path :: rest, failed, firstError => do
    match ← (attempt (finalizeAndRemoveBlob cfg C path token) :
      Proc _ (Except OpendalError Unit)) with
    | .ok () => tryDeletes rest failed firstError
    | .error e => tryDeletes rest (failed ++ [path]) (firstError.or (some e))

/-- Close a deleter, and again while deletes are left, at most as often as given. -/
def closeAgain : ℕ → List EntryPath → Proc OpendalError Unit
  | 0, queue => processDeleteQueue cfg C token queue none
  | closes + 1, queue => do
    match ← tryDeletes cfg C token queue [] none with
    | (_, none) => return
    | (failed, some _) => closeAgain closes failed

/-- Queue the paths of a deleter. -/
def queueDeletes : List Text → Proc OpendalError (List EntryPath)
  | [] => return []
  | key :: rest => do
    let path ← check id (parseOpendal C (C.normalizePath key))
    access.onlyApp (checkWritePathAllowed path)
    let paths ← queueDeletes rest
    return path :: paths

/-- A deleter with one or several paths, closed once. -/
def deleteAll (keys : List Text) : Proc OpendalError Unit := do
  let paths ← queueDeletes C access keys
  processDeleteQueue cfg C token paths none

/-- A deleter that is closed again while deletes are left. -/
def deleteRepeatedly (keys : List Text) (closes : ℕ) : Proc OpendalError Unit := do
  let paths ← queueDeletes C access keys
  closeAgain cfg C token closes paths

/-! ## Copying, renaming and folders -/

def copy (source target : Text) : Proc OpendalError Unit := do
  let target' ← check id (parseOpendal C (C.normalizePath target))
  access.onlyApp (checkWritePathAllowed target')
  let source' ← check id (parseOpendal C (C.normalizePath source))
  collisionPreflight access target'
  backend (perform (.copyBlob (source'.asStr C) (target'.asStr C)))

def rename (source target : Text) : Proc OpendalError Unit := do
  let source' ← check id (parseOpendal C (C.normalizePath source))
  access.onlyApp (checkWritePathAllowed source')
  let target' ← check id (parseOpendal C (C.normalizePath target))
  access.onlyApp (checkWritePathAllowed target')
  collisionPreflight access target'
  backend (perform (.renameBlob (source'.asStr C) (target'.asStr C)))

def createDir (key : Text) : Proc OpendalError Unit := do
  let path ← check id (parseOpendal C (C.normalizePath key))
  access.onlyApp (checkWritePathAllowed path)
  collisionPreflight access path
  backend (perform (.createDir (path.asStr C)))

end

/-- An operation on a storage operator. -/
inductive Operation where
  | write (key : Text) (chunks : List (Option Bytes))
  | delete (keys : List Text) (closesAgain : ℕ)
  | copy (source target : Text)
  | rename (source target : Text)
  | createDir (key : Text)

/-- The program of an operation that runs under no write lock. -/
def operate (cfg : Config) (C : StorageCrates) (access : Access) :
    Operation → Proc FileIoError Unit
  | .write key chunks => writeStream cfg C access none key chunks
  | .delete keys closes => mapErr .ofOpendal (deleteRepeatedly cfg C access none keys closes)
  | .copy source target => mapErr .ofOpendal (copy C access source target)
  | .rename source target => mapErr .ofOpendal (rename C access source target)
  | .createDir key => mapErr .ofOpendal (createDir C access key)

end Pubky.Homeserver.Storage

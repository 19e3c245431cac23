import Pubky.Homeserver.Tenant
import Pubky.Lib.Table

/-!
# Rows, entities and errors of the file storage

* `persistence/sql/entities/{user,entry,events,entry_lock}`: the rows of the tables that a
  change of a file touches, and the entities they are read as. Rows hold what the columns
  hold; reading an entity parses the text columns again.
* `shared/quota/user_quota.rs` and `write_finalization_layer/quota.rs`: the limits of a user.
* `persistence/files/file/{file_metadata,file_io_error}.rs`: what is recorded about a written
  file, and the errors that storage operations end with.
* `EntryRepository::has_file_folder_collision`: the query that keeps files and folders apart.
  `collides_iff` says what it finds.
-/

namespace Pubky.Homeserver.Storage

open Sql

/-! ## Quotas -/

/-- A per-user setting that may leave the decision to the server. -/
inductive QuotaOverride (α : Type) where
  | default
  | unlimited
  | value (a : α)
  deriving DecidableEq, Repr

def QuotaOverride.resolveWithDefault {α : Type} (q : QuotaOverride α) (systemDefault : Option α) :
    Option α :=
  match q with
  | .default => systemDefault
  | .unlimited => none
  | .value v => some v

/-- The limits of a user that writing files depends on. -/
structure UserQuota where
  storageQuotaMb : QuotaOverride UInt64
  allowedWritePaths : Option (List StoragePath)
  deriving DecidableEq

/-- Directories of the list allow what starts with them, files only themselves. -/
def UserQuota.isWritePathAllowed (q : UserQuota) (path : Text) : Bool :=
  match q.allowedWritePaths with
  | none => true
  | some entries => entries.any fun entry =>
      if entry.isDirectory then entry.asStr.isPrefixOf path else path = entry.asStr

/-- `u64::saturating_mul`, `saturating_add` and `saturating_sub` -/
def saturate (n : ℕ) : UInt64 :=
  UInt64.ofNat (min n (2 ^ 64 - 1))

/-- What every file counts on top of its content. -/
def fileMetadataSize : UInt64 := 256

/-- Whether adding `bytesDelta` exceeds the limit; `none` means unlimited storage. The sum is
taken in 128 bits. -/
def wouldExceedLimit (currentBytes : UInt64) (bytesDelta : Int64) (maxBytes : Option UInt64) :
    Bool :=
  match maxBytes with
  | none => false
  | some max =>
    let newTotal : ℤ := currentBytes.toNat + bytesDelta.toInt
    0 < newTotal && (max.toNat : ℤ) < newTotal

/-- `u64::saturating_add_signed` -/
def saturatingAddSigned (a : UInt64) (b : Int64) : UInt64 :=
  saturate (a.toNat + b.toInt).toNat

/-! ## Rows -/

structure UserRow where
  id : ℕ
  publicKey : Text
  disabled : Bool
  usedBytes : UInt64
  quota : UserQuota
  deriving DecidableEq

structure EntryRow where
  id : ℕ
  user : ℕ
  path : Text
  contentHash : Bytes
  contentLength : UInt64
  contentType : Text
  deriving DecidableEq

structure EventRow where
  id : ℕ
  user : ℕ
  type : Text
  path : Text
  contentHash : Option Bytes
  deriving DecidableEq

/-- A WebDAV write lock; it is dead from `expiresAt` on. -/
structure EntryLockRow where
  path : Text
  token : Text
  expiresAt : ℤ
  deriving DecidableEq

instance : Keyed UserRow Text := ⟨UserRow.publicKey⟩
instance : Keyed EntryRow ℕ := ⟨EntryRow.id⟩
instance : Keyed EventRow ℕ := ⟨EventRow.id⟩
instance : Keyed EntryLockRow Text := ⟨EntryLockRow.path⟩

@[simp] theorem key_userRow (r : UserRow) : key r = r.publicKey := rfl
@[simp] theorem key_entryRow (r : EntryRow) : key r = r.id := rfl
@[simp] theorem key_eventRow (r : EventRow) : key r = r.id := rfl
@[simp] theorem key_entryLockRow (r : EntryLockRow) : key r = r.path := rfl

/-! ## Entities -/

structure UserEntity where
  id : ℕ
  publicKey : PublicKey
  disabled : Bool
  usedBytes : UInt64
  quota : UserQuota
  deriving DecidableEq

structure EntryEntity where
  id : ℕ
  userId : ℕ
  path : EntryPath
  contentHash : Bytes
  contentLength : UInt64
  contentType : Text
  deriving DecidableEq

inductive EventType where
  | put (contentHash : Bytes)
  | delete
  deriving DecidableEq

def EventType.toText : EventType → Text
  | .put _ => "PUT".toList
  | .delete => "DEL".toList

def EventType.contentHash : EventType → Option Bytes
  | .put hash => some hash
  | .delete => none

/-- The limit of a user's storage in bytes. -/
def resolveStorageMaxBytes (user : UserEntity) (defaultStorageMb : Option UInt64) :
    Option UInt64 :=
  (user.quota.storageQuotaMb.resolveWithDefault defaultStorageMb).map fun mb =>
    saturate (mb.toNat * (1024 * 1024))

def UserRow.decode (C : Crates) (r : UserRow) : Except SqlError UserEntity := do
  let publicKey ← decodedOption (C.fromZ32 r.publicKey)
  return { id := r.id, publicKey, disabled := r.disabled, usedBytes := r.usedBytes
           quota := r.quota }

/-- A row of `entries LEFT JOIN users`. -/
def EntryRow.decode (C : Crates) (r : EntryRow) (userPubkey : Text) :
    Except SqlError EntryEntity := do
  let pubkey ← decodedOption (PublicKey.tryFrom C userPubkey)
  let path ← decoded (StoragePath.new r.path)
  if r.contentHash.length = 32 then
    return { id := r.id, userId := r.user, path := ⟨pubkey, path⟩, contentHash := r.contentHash
             contentLength := r.contentLength, contentType := r.contentType }
  else .error .decode

/-! ## Metadata of a file -/

@[ext]
structure FileMetadata where
  hash : Bytes
  length : UInt64
  contentType : Text
  deriving DecidableEq

/-- The metadata of the chunks seen so far. The hasher is represented by the bytes it was
fed. -/
structure FileMetadataBuilder where
  bytes : Bytes
  length : UInt64
  pathContentType : Option Text
  magicBytesContentType : Option Text
  deriving DecidableEq

namespace FileMetadataBuilder

def empty : FileMetadataBuilder := ⟨[], 0, none, none⟩

/-- The type is guessed from the first chunk, or from a later one while all before it were
empty. -/
def update (C : StorageCrates) (b : FileMetadataBuilder) (chunk : Bytes) : FileMetadataBuilder where
  bytes := b.bytes ++ chunk
  length := b.length + UInt64.ofNat chunk.length
  pathContentType := b.pathContentType
  magicBytesContentType :=
    if b.length = 0 then (C.infer chunk).or b.magicBytesContentType else b.magicBytesContentType

def guessMimeTypeFromPath (C : StorageCrates) (b : FileMetadataBuilder) (path : Text) :
    FileMetadataBuilder :=
  { b with pathContentType := some (C.mimeFromPath path) }

def derivedContentType (b : FileMetadataBuilder) : Text :=
  (b.magicBytesContentType.or b.pathContentType).getD "application/octet-stream".toList

def finalize (C : StorageCrates) (b : FileMetadataBuilder) : FileMetadata where
  hash := C.hash b.bytes
  length := b.length
  contentType := b.derivedContentType

variable {C : StorageCrates}

end FileMetadataBuilder

/-- The kinds of `opendal::Error` that matter. -/
inductive ErrorKind where
  | unexpected
  | unsupported
  | notFound
  | permissionDenied
  | isADirectory
  | alreadyExists
  | rateLimited
  | conditionNotMatch
  deriving DecidableEq, Repr

/-- What the storage layers of the homeserver attach to an error. -/
inductive LayerDomainError where
  | writePathForbidden
  | diskSpaceQuotaExceeded
  | pathCollision
  | lockLost
  | publishConflict
  deriving DecidableEq, Repr

structure OpendalError where
  kind : ErrorKind
  source : Option LayerDomainError
  deriving DecidableEq, Repr

namespace OpendalError

def unexpected : OpendalError := ⟨.unexpected, none⟩
def quotaExceeded : OpendalError := ⟨.rateLimited, some .diskSpaceQuotaExceeded⟩
def pathCollision : OpendalError := ⟨.alreadyExists, some .pathCollision⟩
def lockLost : OpendalError := ⟨.conditionNotMatch, some .lockLost⟩
def writePathForbidden : OpendalError := ⟨.permissionDenied, some .writePathForbidden⟩
def publishConflict : OpendalError := ⟨.conditionNotMatch, some .publishConflict⟩
def noGeneration : OpendalError := ⟨.unsupported, none⟩

end OpendalError

inductive FileIoError where
  | notFound
  | sqlDb (e : SqlError)
  | opendal (e : OpendalError)
  | backendRateLimited
  | streamBroken
  | diskSpaceQuotaExceeded
  | writePathForbidden
  | pathCollision
  | lockLost
  | publishConflict
  deriving DecidableEq, Repr

/-- Domain errors are recovered from the errors that the layers attached them to. -/
def FileIoError.ofOpendal (e : OpendalError) : FileIoError :=
  match e.source with
  | some .writePathForbidden => .writePathForbidden
  | some .diskSpaceQuotaExceeded => .diskSpaceQuotaExceeded
  | some .pathCollision => .pathCollision
  | some .lockLost => .lockLost
  | some .publishConflict => .publishConflict
  | none =>
    match e.kind with
    | .notFound => .notFound
    | .rateLimited => .backendRateLimited
    | _ => .opendal e

def HttpError.ofFileIo : FileIoError → HttpError
  | .notFound => .notFound
  | .diskSpaceQuotaExceeded => .insufficientStorage
  | .writePathForbidden => .forbiddenWithMessage "Write to this path is not allowed".toList
  | .pathCollision => .conflict "File/folder path collision".toList
  | .streamBroken => .badRequest "Stream broken".toList
  | .backendRateLimited =>
    .tooManyRequests "Storage backend is rate limited, retry later".toList 1
  | .lockLost => .lockTokenMismatch
  | .publishConflict =>
    .conflict "The file changed before the change was published; read it again and retry".toList
  | .sqlDb _ | .opendal _ => .internalServer

/-! ## Files and folders -/

/-- `str::strip_suffix('/')`, or the text itself. -/
def withoutSlash (path : Text) : Text :=
  if Text.endsWith '/' path then path.dropLast else path

/-- The exclusive bounds, in byte order, of every path below the folder `path`. UTF-8 keeps
the order of the characters. -/
def descendantPathBounds (path : Text) : Text × Text :=
  (withoutSlash path ++ ['/'], withoutSlash path ++ ['0'])

/-- The parents of a path, nearest first; the loop of `ancestor_file_paths`. -/
def parents : ℕ → Text → List Text
  | 0, _ => []
  | fuel + 1, path =>
    match Text.rsplitOnce '/' path with
    | some (parent, _) => if parent = [] then [] else parent :: parents fuel parent
    | none => []

/-- `EntryRepository::ancestor_file_paths` -/
def ancestorFilePaths (path : Text) : List Text :=
  let path := (path.reverse.dropWhile (· = '/')).reverse
  parents path.length path

/-- The test of `has_file_folder_collision` on one of the user's entries. -/
def collides (path existing : Text) : Bool :=
  let (after, before) := descendantPathBounds path
  let ancestors := ancestorFilePaths path ++
    if Text.endsWith '/' path && path.dropLast ≠ [] then [path.dropLast] else []
  (after < existing && existing < before) || ancestors.contains existing

end Pubky.Homeserver.Storage

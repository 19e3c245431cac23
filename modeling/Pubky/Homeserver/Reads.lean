import Pubky.Homeserver.Events.Sse
import Pubky.Homeserver.Listing

/-!
# Requests that read files

* `client_server/routes/tenants/read.rs`: the handlers of `GET` and `HEAD`,
* `persistence/files/file/file_service.rs` and `persistence/files/opendal/opendal_service.rs`: what
  they look up.

A handler looks at the row of a file, at the size of its blob and at the bytes of its blob one after
the other, outside of any transaction. The handlers are programs of these lookups; `observe` says
what a lookup finds in a state of the storage. The dates of rows are parameters.
-/

namespace Pubky.Homeserver.Reads

open Conc Conc.Proc Storage Events Listing

/-! ## Lookups -/

/-- What a backend tells about a blob; only object stores have ETags. -/
structure BlobMetadata where
  contentLength : ℕ
  etag : Option ℕ
  deriving DecidableEq

/-- The lookups of the handlers. -/
inductive ReadOp where
  | getUser (key : PublicKey)
  | getInfo (path : EntryPath)
  | stat (path : EntryPath)
  | openBlob (path : EntryPath) (ifMatch : Option ℕ)
  | list (path : EntryPath) (params : ListQueryParams)

/-- The answers to lookups. What is opened is one version of the blob. -/
def ReadOp.Res : ReadOp → Type
  | .getUser _ => Except SqlError UserEntity
  | .getInfo _ => Except SqlError EntryEntity
  | .stat _ => Except OpendalError BlobMetadata
  | .openBlob _ _ => Except OpendalError Bytes
  | .list _ _ => Except HttpError Text

abbrev ReadProc (ε α : Type) := Conc.Proc ReadOp ReadOp.Res ε α

abbrev look (o : ReadOp) : Prog ReadOp ReadOp.Res o.Res := .perform o

/-! ## The file service -/

def getInfo (path : EntryPath) : ReadProc FileIoError EntryEntity :=
  stmt (fun e => if e = .rowNotFound then .notFound else .sqlDb e) (look (.getInfo path))

def blobLength (path : EntryPath) : ReadProc FileIoError ℕ := do
  let metadata ← stmt .ofOpendal (look (.stat path))
  return metadata.contentLength

/-- The size of the blob and a stream of its bytes, which ends after that many bytes. On a backend
with ETags the read is conditional on the one that came with the size. -/
def getSizedStream (path : EntryPath) : ReadProc FileIoError (ℕ × Bytes) := do
  let metadata ← stmt .ofOpendal (look (.stat path))
  let content ← stmt .ofOpendal (look (.openBlob path metadata.etag))
  return (metadata.contentLength, content.take metadata.contentLength)

/-- `UserService::get_or_http_error` -/
def getOrHttpError (key : PublicKey) (errIfDisabled : Bool) : ReadProc HttpError UserEntity := do
  let user ← stmt (fun e => if e = .rowNotFound then .notFound else .ofSql e) (look (.getUser key))
  check id (if errIfDisabled && user.disabled then
    .error (.forbiddenWithMessage "User is disabled".toList) else .ok ())
  return user

/-! ## Responses -/

/-- A response with the bytes that its body delivers. -/
structure Served where
  head : Response
  body : Bytes

/-- The dates of rows, and the comparison behind `If-Modified-Since`. -/
structure HttpDates where
  lastModified : EntryEntity → Text
  notModifiedSince : Text → EntryEntity → Bool

section

variable (B : Base64) (D : HttpDates)

def etag (contentHash : Bytes) : Text := '"' :: B.encode contentHash ++ ['"']

/-- `HeaderValue::try_from` accepts the text. -/
def isHeaderValue (t : Text) : Bool :=
  t.all fun c => c = '\t' || (32 ≤ c.toNat && c.toNat ≠ 127)

/-- Whether the validators of a request match the entry. -/
def isNotModified (headers : HeaderMap) (entry : EntryEntity) : Bool :=
  match headers.getStr "if-none-match" with
  | some requestEtag =>
    ((Text.trim requestEtag).splitOn ',').any fun tag => Text.trim tag = etag B entry.contentHash
  | none => (headers.getStr "if-modified-since").any fun date => D.notModifiedSince date entry

def notModifiedResponse (entry : EntryEntity) : Served where
  head :=
    { status := 304
      headers := [("etag".toList, etag B entry.contentHash),
        ("last-modified".toList, D.lastModified entry),
        ("cache-control".toList, "private, must-revalidate".toList)]
      body := [] }
  body := []

/-- `contentLength` is the size of the blob. -/
def toResponseHeaders (entry : EntryEntity) (contentLength : ℕ) : List (Text × Text) :=
  [("content-length".toList, Nat.toDigits 10 contentLength),
    ("last-modified".toList, D.lastModified entry),
    ("content-type".toList, if isHeaderValue entry.contentType then entry.contentType else []),
    ("etag".toList, etag B entry.contentHash),
    ("cache-control".toList, "private, must-revalidate".toList)]

end

end Pubky.Homeserver.Reads

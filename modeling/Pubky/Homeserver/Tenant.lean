import Pubky.Common.Encodings
import Pubky.Homeserver.Http

/-!
# The tenant and path of a request

* `shared/webdav/{entry_path,webdav_path_axum}.rs`: a user's file, and the key under which the
  storage backend and the lock table know it.
* `client_server/middleware/{request_tenant,pubky_host}.rs`: which user and path a request is
  about, from the path of a `/storage` request or, for the deprecated owner-relative routes,
  from the host headers and the query.

A key is read back as the file it was made from (`EntryPath.fromStr_asStr`), and the backend
does not alter it (`EntryPath.normalizePath_asStr`); for the latter it matters that a canonical
path has no empty segment and does not end in whitespace.
-/

namespace Pubky.Homeserver

/-- The functions of other crates that storage requests go through. -/
structure StorageCrates extends Crates where
  /-- `percent_encoding::percent_decode_str` followed by `decode_utf8` -/
  percentDecode : Text → Option Text
  /-- `opendal::raw::normalize_path`, which an operator applies to the path of every request -/
  normalizePath : Text → Text
  /-- `blake3` -/
  hash : Bytes → Bytes
  /-- The MIME type that `infer::get` finds in the first bytes of a file. -/
  infer : Bytes → Option Text
  /-- `mime_guess::from_path(path).first_or_octet_stream()` -/
  mimeFromPath : Text → Text

/-- What the development assumes of these functions. -/
structure StorageCrates.Lawful (C : StorageCrates) : Prop where
  fromZ32_z32 : ∀ key, C.fromZ32 (C.z32 key) = some key
  z32_length : ∀ key, (C.z32 key).length = 52
  z32_chars : ∀ key, ∀ c ∈ C.z32 key, c ∈ zBase32.chars
  /-- Only whitespace at the ends, slashes at the start and empty segments are removed. -/
  normalizePath_eq : ∀ path : Text, (∀ c, path.head? = some c → Text.isWhitespace c = false) →
    (∀ c, path.getLast? = some c → Text.isWhitespace c = false) →
    (∀ segment ∈ path.splitOn '/', segment ≠ []) → C.normalizePath path = path

/-! ## Files -/

/-- A file or directory of a user. -/
structure EntryPath where
  pubkey : PublicKey
  path : StoragePath
  deriving DecidableEq

inductive EntryPathError where
  | invalid (message : Text)
  | invalidStoragePath (e : StoragePathError)
  | invalidPubkey
  deriving DecidableEq, Repr

namespace EntryPath

variable (C : StorageCrates)

/-- The key of the file: `<pubkey>/<path>`. -/
def asStr (e : EntryPath) : Text :=
  C.z32 e.pubkey ++ e.path.asStr

def fromStr (s : Text) : Except EntryPathError EntryPath :=
  match Text.splitOnce '/' s with
  | none => .error (.invalid "Missing '/'".toList)
  | some (pubkey, rest) =>
    if PublicKey.isPubkyPrefixed pubkey then
      .error (.invalid "unexpected `pubky` prefix; expected raw z32".toList)
    else do
      let pubkey ← (C.fromZ32 pubkey).okOr .invalidPubkey
      let path ← (StoragePath.new ('/' :: rest)).mapError .invalidStoragePath
      return ⟨pubkey, path⟩

end EntryPath

/-! ## Keys of files -/

section

variable {C : StorageCrates}

theorem StorageCrates.Lawful.slash_not_mem_z32 (hC : C.Lawful) (key : PublicKey) :
    '/' ∉ C.z32 key := by
  intro h
  exact absurd (hC.z32_chars key _ h) (by decide)

theorem StorageCrates.Lawful.not_prefixed (hC : C.Lawful) (key : PublicKey) :
    PublicKey.isPubkyPrefixed (C.z32 key) = false :=
  PublicKey.not_prefixed_of_length (hC.z32_length key) (hC.z32_chars key)

/-- A key is read back as the file it was made from. -/
theorem EntryPath.fromStr_asStr (hC : C.Lawful) (e : EntryPath) :
    EntryPath.fromStr C (e.asStr C) = .ok e := by
  obtain ⟨rest, hrest⟩ := e.path.eq_cons
  have hnew := e.path.new_asStr
  rw [hrest] at hnew
  rw [EntryPath.fromStr, EntryPath.asStr, hrest, Text.splitOnce_append (hC.slash_not_mem_z32 _)]
  simp only [hC.not_prefixed, hC.fromZ32_z32, Option.okOr, hnew]
  rfl

/-- What a key is read as ends like the key. -/
theorem EntryPath.endsWith_of_fromStr {s : Text} {e : EntryPath} {c : Char}
    (h : EntryPath.fromStr C s = .ok e) : Text.endsWith c e.path.asStr = Text.endsWith c s := by
  rw [EntryPath.fromStr] at h
  cases hs : Text.splitOnce '/' s with
  | none => simp [hs] at h
  | some parts =>
    obtain ⟨pubkey, rest⟩ := parts
    simp only [hs] at h
    split at h
    · cases h
    · obtain ⟨key, -, h⟩ := Except.bind_ok_iff.1 h
      obtain ⟨path, hpath, h⟩ := Except.bind_ok_iff.1 h
      cases h
      have htext : path.asStr = '/' :: rest := by
        cases hnew : StoragePath.new ('/' :: rest) with
        | error err => simp [hnew, Except.mapError] at hpath
        | ok path' =>
          rw [hnew] at hpath
          cases hpath
          exact StoragePath.asStr_of_new hnew
      rw [(Text.splitOnce_eq_some hs).1, htext, Text.endsWith, Text.endsWith,
        List.getLast?_append_of_ne_nil _ (by simp)]

theorem EntryPath.asStr_injective (hC : C.Lawful) : Function.Injective (EntryPath.asStr C) := by
  intro a b h
  have hab : (.ok a : Except EntryPathError EntryPath) = .ok b := by
    rw [← EntryPath.fromStr_asStr hC a, h, EntryPath.fromStr_asStr hC b]
  exact Except.ok.inj hab

/-- The backend does not alter the key of a file. -/
theorem EntryPath.normalizePath_asStr (hC : C.Lawful) (e : EntryPath) (hfile : e.path.isFile) :
    C.normalizePath (e.asStr C) = e.asStr C := by
  obtain ⟨rest, hrest⟩ := e.path.eq_cons
  have hz : C.z32 e.pubkey ≠ [] := by
    intro h
    simpa [h] using hC.z32_length e.pubkey
  refine hC.normalizePath_eq _ (fun c hc => ?_) (fun c hc => ?_) fun segment hs => ?_
  · rw [EntryPath.asStr, List.head?_append_of_ne_nil _ hz] at hc
    have hall : ∀ c ∈ zBase32.chars, Text.isWhitespace c = false :=
      Text.forall_mem_of_all (by decide)
    exact hall c (hC.z32_chars _ c (List.mem_of_head? hc))
  · rw [EntryPath.asStr, hrest, List.getLast?_append_of_ne_nil _ (by simp), ← hrest] at hc
    exact e.path.getLast_not_whitespace hfile hc
  · rw [EntryPath.asStr, hrest, Text.splitOn_append (hC.slash_not_mem_z32 _)] at hs
    rcases List.mem_cons.1 hs with rfl | hs
    · exact hz
    · exact e.path.segment_ne_nil hfile hrest hs

end

/-- A decoded path as an owner-relative route receives it, without the leading slash. -/
def webDavPathAxum (s : Text) : Option StoragePath :=
  (StoragePath.normalize ('/' :: s)).toOption

/-- A decoded file path as an owner-relative route receives it, without the leading slash. -/
def webDavFilePathAxum (s : Text) : Option StoragePath :=
  match StoragePath.normalize ('/' :: s) with
  | .ok path => if path.isFile then some path else none
  | .error _ => none

/-! ## Tenants -/

/-- Tenant and optional owner-relative storage path resolved before authentication runs. -/
structure RequestTenant where
  publicKey : PublicKey
  storagePath : Option StoragePath
  deriving DecidableEq

/-- The parts of a request that the tenant is taken from. -/
structure RequestHead where
  rawPath : Text
  query : Option Text
  headers : HeaderMap
  deriving DecidableEq

section

variable (C : StorageCrates)

/-- The key that one of the host headers names, or else the key found before. -/
def hostKey (headers : HeaderMap) (pubky : Option PublicKey) (name : String) : Option PublicKey :=
  match headers.getStr name with
  | none => pubky
  | some s => if PublicKey.isPubkyPrefixed s then pubky else (C.fromZ32 s).or pubky

/-- The key that a parameter of the query names. -/
def queryKey (pair : Text) : Option PublicKey :=
  match Text.splitn '=' 2 pair with
  | [key, val] =>
    if key = "pubky-host".toList then
      if PublicKey.isPubkyPrefixed val then none else C.fromZ32 val
    else none
  | _ => none

/-- The user a request names outside its path. -/
def extractLegacyPubky (head : RequestHead) : Option PublicKey :=
  match ["host", "pubky-host"].foldl (hostKey C head.headers) none with
  | some key => some key
  | none => head.query.bind fun query => (query.splitOn '&').findSome? (queryKey C)

namespace RequestTenant

/-- `none` when the URL is not in the `/storage` namespace. -/
def fromStorageRoute (rawPath : Text) : Except Text (Option RequestTenant) :=
  if rawPath = "/storage".toList ∨ rawPath = "/storage/".toList then
    .error "Missing storage owner or path".toList
  else
    match Text.stripStart "/storage/".toList rawPath with
    | none => .ok none
    | some remainder => do
      let (rawPublicKey, rawStoragePath) ←
        (Text.splitOnce '/' remainder).okOr "Missing storage path".toList
      if rawStoragePath = [] then .error "Missing storage path".toList
      else do
        let publicKey ←
          (C.fromZ32 rawPublicKey).okOr "Invalid storage owner public key".toList
        let decodedPath ←
          (C.percentDecode rawStoragePath).okOr "Storage path is not valid UTF-8".toList
        let storagePath ← (StoragePath.normalize ('/' :: decodedPath)).mapError
          fun error => "Invalid storage path: ".toList ++ error.toText
        return some ⟨publicKey, some storagePath⟩

def legacy (publicKey : PublicKey) : RequestTenant := ⟨publicKey, none⟩

def fromRequest (head : RequestHead) : Except Text (Option RequestTenant) := do
  match ← fromStorageRoute C head.rawPath with
  | some tenant => return some tenant
  | none => return (extractLegacyPubky C head).map legacy

/-- The extractor of the tenant. -/
def fromRequestParts (tenant : Option RequestTenant) : Except HttpError RequestTenant :=
  tenant.okOr (.badRequest "Missing request tenant".toList)

end RequestTenant

end

/-- The extractor of the file of a `/storage` request. -/
def EntryPath.fromRequestParts (tenant : Option RequestTenant) : Except HttpError EntryPath := do
  let tenant ← tenant.okOr (.badRequest "Missing request tenant".toList)
  let path ← tenant.storagePath.okOr (.badRequest "Missing storage path".toList)
  return ⟨tenant.publicKey, path⟩

/-- The two routes of `routes/tenants/mod.rs`. -/
inductive Route where
  /-- `/storage/{user_z32}/{*path}` -/
  | storage
  /-- `/{*path}`, with the matched path -/
  | legacy (path : Text)
  deriving DecidableEq

/-- The route a path matches: no parameter is empty, and `user_z32` is one segment. -/
def matchRoute (rawPath : Text) : Option Route :=
  match (Text.stripStart "/storage/".toList rawPath).bind (Text.splitOnce '/') with
  | some (_ :: _, _ :: _) => some .storage
  | _ =>
    match rawPath with
    | '/' :: c :: cs => some (.legacy (c :: cs))
    | _ => none

/-- The entry or directory that a read handler addresses. -/
def readTarget (C : StorageCrates) (tenant : Option RequestTenant) :
    Route → Except HttpError EntryPath
  | .storage => EntryPath.fromRequestParts tenant
  | .legacy matched => do
    let tenant ← RequestTenant.fromRequestParts tenant
    let decoded ← (C.percentDecode matched).okOr ⟨400, none, none⟩
    let path ← (webDavPathAxum decoded).okOr ⟨400, none, none⟩
    return ⟨tenant.publicKey, path⟩

/-! ## Routes and tenants -/

section

variable {C : StorageCrates} {rawPath : Text} {head : RequestHead} {tenant : RequestTenant}

theorem matchRoute_eq_storage :
    matchRoute rawPath = some .storage ↔ ∃ key rest, Text.stripStart "/storage/".toList rawPath =
      some (key ++ '/' :: rest) ∧ '/' ∉ key ∧ key ≠ [] ∧ rest ≠ [] := by
  unfold matchRoute
  split
  · rename_i k ks r rs hsplit
    obtain ⟨remainder, hstrip, honce⟩ := Option.bind_eq_some_iff.1 hsplit
    obtain ⟨rfl, hkey⟩ := Text.splitOnce_eq_some honce
    exact iff_of_true rfl ⟨_, _, hstrip, hkey, List.cons_ne_nil _ _, List.cons_ne_nil _ _⟩
  · rename_i hsplit
    refine iff_of_false (by split <;> simp) ?_
    rintro ⟨_ | ⟨k, ks⟩, _ | ⟨r, rs⟩, hstrip, hkey, hne, hne'⟩
    · exact hne rfl
    · exact hne rfl
    · exact hne' rfl
    · refine hsplit k ks r rs ?_
      rw [hstrip, Option.bind_some, Text.splitOnce_append hkey]

/-- What the storage route reads from a path. -/
theorem of_fromStorageRoute (h : RequestTenant.fromStorageRoute C rawPath = .ok (some tenant)) :
    ∃ key rest decoded path, Text.stripStart "/storage/".toList rawPath = some (key ++ '/' :: rest) ∧
      '/' ∉ key ∧ rest ≠ [] ∧ C.fromZ32 key = some tenant.publicKey ∧
      C.percentDecode rest = some decoded ∧ StoragePath.normalize ('/' :: decoded) = .ok path ∧
      tenant.storagePath = some path := by
  rw [RequestTenant.fromStorageRoute] at h
  split at h
  · cases h
  · split at h
    · cases h
    · rename_i remainder hstrip
      obtain ⟨⟨key, rest⟩, honce, hread⟩ := Except.bind_ok_iff.1 h
      obtain ⟨rfl, hkey⟩ := Text.splitOnce_eq_some (Option.okOr_eq_ok.1 honce)
      dsimp only at hread
      split at hread
      · cases hread
      · rename_i hrest
        simp only [Except.bind_ok_iff, Option.okOr_eq_ok] at hread
        obtain ⟨publicKey, hpublicKey, decoded, hdecoded, path, hpath, hread⟩ := hread
        obtain rfl := Option.some.inj (Except.ok.inj hread)
        refine ⟨key, rest, decoded, path, hstrip, hkey, hrest, hpublicKey, hdecoded, ?_, rfl⟩
        cases hnormal : StoragePath.normalize ('/' :: decoded) with
        | error e => simp [hnormal, Except.mapError] at hpath
        | ok p =>
          rw [hnormal] at hpath
          exact congrArg Except.ok (Except.ok.inj hpath)

theorem stripStart_of_fromStorageRoute
    (h : RequestTenant.fromStorageRoute C rawPath = .ok none) :
    Text.stripStart "/storage/".toList rawPath = none := by
  rw [RequestTenant.fromStorageRoute] at h
  split at h
  · cases h
  · split at h
    · assumption
    · obtain ⟨⟨key, rest⟩, -, h⟩ := Except.bind_ok_iff.1 h
      dsimp only at h
      split at h
      · cases h
      · simp only [Except.bind_ok_iff] at h
        obtain ⟨_, _, _, _, _, _, h⟩ := h
        cases h

/-- The tenant has a path exactly on the storage route. -/
theorem isSome_storagePath_iff (hempty : C.fromZ32 [] = none)
    (h : RequestTenant.fromRequest C head = .ok (some tenant)) :
    tenant.storagePath.isSome ↔ matchRoute head.rawPath = some .storage := by
  obtain ⟨found, hroute, h⟩ := Except.bind_ok_iff.1 h
  cases found with
  | some t =>
    obtain rfl := Option.some.inj (Except.ok.inj h)
    obtain ⟨key, rest, decoded, path, hstrip, hkey, hrest, hpublicKey, -, -, hpath⟩ :=
      of_fromStorageRoute hroute
    refine iff_of_true (by rw [hpath]; rfl) (matchRoute_eq_storage.2 ⟨key, rest, hstrip, hkey, ?_, hrest⟩)
    rintro rfl
    rw [hempty] at hpublicKey
    cases hpublicKey
  | none =>
    obtain ⟨key, -, rfl⟩ := Option.map_eq_some_iff.1 (Except.ok.inj h)
    refine iff_of_false (by simp [RequestTenant.legacy]) fun hstorage => ?_
    obtain ⟨_, _, hstrip, -⟩ := matchRoute_eq_storage.1 hstorage
    rw [stripStart_of_fromStorageRoute hroute] at hstrip
    cases hstrip

theorem matchRoute_eq_legacy {matched : Text} (h : matchRoute rawPath = some (.legacy matched)) :
    rawPath = '/' :: matched := by
  unfold matchRoute at h
  split at h
  · cases h
  · split at h
    · rw [← Route.legacy.inj (Option.some.inj h)]
    · cases h

/-- The tenant of a request on one of the routes. -/
theorem storagePath_of_readTarget {tenant : Option RequestTenant} {route : Route} {e : EntryPath}
    (hempty : C.fromZ32 [] = none) (htenant : RequestTenant.fromRequest C head = .ok tenant)
    (hroute : matchRoute head.rawPath = some route) (h : readTarget C tenant route = .ok e) :
    tenant.bind RequestTenant.storagePath = if route = .storage then some e.path else none := by
  cases route with
  | storage =>
    obtain ⟨t, ht, h⟩ := Except.bind_ok_iff.1 h
    obtain ⟨path, hpath, h⟩ := Except.bind_ok_iff.1 h
    cases h
    rw [Option.okOr_eq_ok.1 ht, Option.bind_some, Option.okOr_eq_ok.1 hpath, if_pos rfl]
  | legacy matched =>
    obtain ⟨t, ht, -⟩ := Except.bind_ok_iff.1 h
    obtain rfl := Option.okOr_eq_ok.1 ht
    rw [if_neg nofun, Option.bind_some, ← Option.not_isSome_iff_eq_none,
      isSome_storagePath_iff hempty htenant, hroute]
    exact nofun

end

end Pubky.Homeserver

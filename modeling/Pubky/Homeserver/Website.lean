import Pubky.Homeserver.CachePolicy
import Pubky.Homeserver.Reads

/-!
# Websites

`client_server/routes/website.rs`: static websites served from the public storage of users. The
host of a request names the owner and the label of a site; the path is normalized before it is put
behind the folder of the site.

`website_stays_inside`: whatever the host and the path, a site looks up nothing but its owner and
files of this owner below its folder.
-/

namespace Pubky.Homeserver.Websites

open Conc Conc.Proc Storage Events Reads

/-- First path segments that stay on the client API under a website's host. -/
def apiSegments : List String :=
  ["account", "auth", "events", "events-stream", "info", "priv", "pub", "session", "signup",
    "signup_tokens", "storage"]

/-- A page of a user's website. -/
structure Website where
  owner : PublicKey
  /-- The folder of the site without a trailing slash. -/
  root : Text
  /-- The normalized path of the request. -/
  path : StoragePath
  /-- The file that the request names; a folder names its `index.html`. -/
  target : StoragePath
  deriving DecidableEq

/-- A request as the layer sees it. -/
structure SiteRequest where
  method : Text
  head : RequestHead
  /-- The host of the request's URI, if it has one. -/
  uriHost : Option Text

/-! ## Hosts -/

section

variable (C : StorageCrates) (isHostname : Text → Bool)

/-- A DNS hostname label. -/
def isLabel (label : Text) : Bool :=
  !label.contains '.' && isHostname label

/-- The host in lower case, without its port and without one final dot. -/
def hostname (host : Text) : Text :=
  let host := host.map Char.toLower
  let host := match Text.splitOnce ':' host with
    | some (hostname, _) => hostname
    | none => host
  if Text.endsWith '.' host then host.dropLast else host

/-- The label and the text of the key in a host. -/
def labelAndKey (host : Text) : Option (Text × Text) :=
  match Text.rsplitOnce '.' (hostname host) with
  | some (label, key) => if isLabel isHostname label then some (label, key) else none
  | none => some ("_".toList, hostname host)

/-- The owner and the label that a host names, if it names a website. -/
def parseHost (host : Text) (homeserver : PublicKey) : Option (PublicKey × Text) :=
  (labelAndKey isHostname host).bind fun (label, key) =>
    ((C.fromZ32 key).filter fun owner => C.z32 owner = key).bind fun owner =>
      if owner = homeserver then none else some (owner, label)

/-! ## Requests -/

/-- The host of the request: the header, or else the one of the URI. -/
def SiteRequest.host (r : SiteRequest) : Option Text :=
  (r.head.headers.getStr "host").or r.uriHost

def invalidPath (e : StoragePathError) : Text :=
  "Invalid website path: ".toList ++ e.toText

/-- `none` when the request is not for a website. -/
def Website.fromRequest (r : SiteRequest) (homeserver : PublicKey) :
    Except Text (Option Website) :=
  if r.method ≠ "GET".toList ∧ r.method ≠ "HEAD".toList then .ok none
  else if apiSegments.any fun s => s.toList = ((r.head.rawPath.splitOn '/')[1]?).getD [] then
    .ok none
  else
    match r.host.bind fun host => parseHost C isHostname host homeserver with
    | none => .ok none
    | some (owner, label) => do
      let decoded ← (C.percentDecode r.head.rawPath).okOr "Website path is not valid UTF-8".toList
      -- normalizing before joining keeps `..` inside the folder of the site
      let path ← (StoragePath.normalize decoded).mapError invalidPath
      let root := "/pub/website/".toList ++ label
      let index := if path.isDirectory then "index.html".toList else []
      let target ← (StoragePath.new (root ++ path.asStr ++ index)).mapError invalidPath
      return some ⟨owner, root, path, target⟩

end

/-! ## Responses -/

/-- The characters of a path that are not escaped. -/
def keepUnreserved (c : Char) : Bool :=
  c = '/' || c.isAlphanum || c = '-' || c = '.' || c = '_' || c = '~'

/-- `StoragePath::url_encode` -/
def urlEncode (p : StoragePath) : Text := Percent.encode keepUnreserved p.asStr

section

variable (B : Base64) (D : HttpDates) (r : SiteRequest)

/-- Serve a page. -/
def file (status : ℕ) (path : EntryPath) (entry : EntryEntity) : ReadProc HttpError Served :=
  if status = 200 ∧ isNotModified B D r.head.headers entry then return notModifiedResponse B D entry
  else do
    let (length, body) ← mapErr HttpError.ofFileIo
      (if r.method = "HEAD".toList then do
        let length ← blobLength path
        return (length, [])
      else getSizedStream path)
    let response : Response := ⟨status, toResponseHeaders B D entry length, []⟩
    -- a missing page has no version for a browser to revalidate
    return ⟨if status = 200 then response else removeValidators response, body⟩

namespace Website

variable (site : Website)

/-- Look a file of the owner up; a path that is too long cannot exist. -/
def entry (path : Text) : ReadProc HttpError (Option (EntryPath × EntryEntity)) :=
  match StoragePath.new path with
  | .error _ => return none
  | .ok path => do
    let entryPath : EntryPath := ⟨site.owner, path⟩
    match ← (attempt (getInfo entryPath) : ReadProc HttpError (Except FileIoError EntryEntity)) with
    | .ok entry => return some (entryPath, entry)
    | .error .notFound => return none
    | .error e => throw (HttpError.ofFileIo e)

/-- The result of two lookups that run at the same time: the first error counts. -/
def tryJoin {α β : Type} (leftFirst : Bool) (x : Except HttpError α) (y : Except HttpError β) :
    Except HttpError β :=
  if leftFirst then x.bind fun _ => y
  else
    match y with
    | .error e => .error e
    | .ok b => x.map fun _ => b

/-- Serve the page, its folder's address, or the page for missing pages. `ownerFirst` says which of
the first two lookups answers first. -/
def respond (ownerFirst : Bool) : ReadProc HttpError Served := do
  let owner ← (attempt (getOrHttpError site.owner true) :
    ReadProc HttpError (Except HttpError UserEntity))
  let page ← (attempt (site.entry site.target.asStr) :
    ReadProc HttpError (Except HttpError (Option (EntryPath × EntryEntity))))
  match ← check id (tryJoin ownerFirst owner page) with
  | some (path, entry) => file B D r 200 path entry
  | none => do
    let index ← (if site.path.isFile then site.entry (site.target.asStr ++ "/index.html".toList)
      else pure none)
    if index.isSome then
      -- relative links in the index resolve against the folder
      let location := urlEncode site.path ++ ['/'] ++
        match r.head.query with
        | some query => '?' :: query
        | none => []
      return ⟨⟨301, [("location".toList, location)], []⟩, []⟩
    else do
      match ← site.entry (site.root ++ "/404.html".toList) with
      | some (path, entry) => file B D r 404 path entry
      | none => throw .notFound

end Website

end

/-! ## Sites -/

variable {C : StorageCrates} {isHostname : Text → Bool} {host : Text} {homeserver owner : PublicKey}
  {label : Text} {r : SiteRequest} {site : Website} {B : Base64} {D : HttpDates}

/-- The host names the site of a label: the key of its owner, behind the label if there is one. -/
structure Names (C : StorageCrates) (isHostname : Text → Bool) (host : Text) (owner : PublicKey)
    (label : Text) : Prop where
  host : hostname host = C.z32 owner ∧ label = "_".toList ∨
    hostname host = label ++ '.' :: C.z32 owner ∧ isHostname label = true
  dot_not_mem : '.' ∉ label

theorem parseHost_names (h : parseHost C isHostname host homeserver = some (owner, label)) :
    Names C isHostname host owner label ∧ owner ≠ homeserver := by
  obtain ⟨⟨label', key⟩, hsplit, h⟩ := Option.bind_eq_some_iff.1 h
  obtain ⟨owner', hkey, h⟩ := Option.bind_eq_some_iff.1 h
  obtain ⟨-, hz32⟩ := Option.filter_eq_some_iff.1 hkey
  have hz32 : C.z32 owner' = key := of_decide_eq_true hz32
  split at h
  · cases h
  · rename_i hne
    cases h
    refine ⟨?_, hne⟩
    unfold labelAndKey at hsplit
    split at hsplit
    · rename_i hrsplit
      split at hsplit
      · rename_i hlabel
        cases hsplit
        obtain ⟨hdot, hvalid⟩ : '.' ∉ _ ∧ isHostname _ = true := by
          simpa [isLabel] using hlabel
        exact ⟨.inr ⟨by rw [(Text.rsplitOnce_eq_some hrsplit).1, hz32], hvalid⟩, hdot⟩
      · cases hsplit
    · cases hsplit
      exact ⟨.inl ⟨hz32.symm, rfl⟩, by decide⟩

/-- What a request for a website names. -/
theorem fromRequest_names (h : Website.fromRequest C isHostname r homeserver = .ok (some site)) :
    ∃ host label, r.host = some host ∧ Names C isHostname host site.owner label ∧
      site.owner ≠ homeserver ∧ site.root = "/pub/website/".toList ++ label ∧
      (site.root ++ ['/']) <+: site.target.asStr := by
  rw [Website.fromRequest] at h
  split at h
  · cases h
  · split at h
    · cases h
    · split at h
      · cases h
      · rename_i owner label hparse
        obtain ⟨host, hhost, hparse⟩ := Option.bind_eq_some_iff.1 hparse
        obtain ⟨hnames, hne⟩ := parseHost_names hparse
        obtain ⟨decoded, -, h⟩ := Except.bind_ok_iff.1 h
        obtain ⟨path, -, h⟩ := Except.bind_ok_iff.1 h
        obtain ⟨target, htarget, h⟩ := Except.bind_ok_iff.1 h
        obtain rfl := Option.some.inj (Except.ok.inj h)
        refine ⟨host, label, hhost, hnames, hne, rfl, ?_⟩
        obtain ⟨rest, hrest⟩ := path.eq_cons
        rw [StoragePath.asStr_of_new (ok_of_mapError htarget), hrest]
        have hjoin : ∀ root index : Text, root ++ ['/'] <+: root ++ '/' :: rest ++ index :=
          fun root index => ⟨rest ++ index, by simp⟩
        exact hjoin _ _

/-! ## Lookups -/

/-- A lookup of a file in a folder of a user, or of this user. -/
def Inside (owner : PublicKey) (folder : Text) : ReadOp → Prop
  | .getUser key => key = owner
  | .getInfo e | .stat e | .openBlob e _ => e.pubkey = owner ∧ folder <+: e.path.asStr
  | .list _ _ => False

theorem getInfo_uses {e : EntryPath} {P : ReadOp → Prop} (h : P (.getInfo e)) :
    (getInfo e).run.Uses P :=
  uses_stmt (Prog.uses_perform.2 h)

theorem getSizedStream_uses {e : EntryPath} {P : ReadOp → Prop} (hstat : P (.stat e))
    (hopen : ∀ etag, P (.openBlob e etag)) : (getSizedStream e).run.Uses P := by
  refine uses_bind (uses_stmt (Prog.uses_perform.2 hstat)) fun metadata => ?_
  exact uses_bind (uses_stmt (Prog.uses_perform.2 (hopen _))) fun _ => uses_pure _

theorem file_uses {e : EntryPath} {status : ℕ} {entry : EntryEntity} {folder : Text}
    (howner : e.pubkey = owner) (hfolder : folder <+: e.path.asStr) :
    (file B D r status e entry).run.Uses (Inside owner folder) := by
  unfold file
  split
  · exact uses_pure _
  · refine uses_bind (uses_mapErr ?_) fun _ => uses_pure _
    split
    · refine uses_bind ?_ fun _ => uses_pure _
      exact uses_bind (uses_stmt (Prog.uses_perform.2 ⟨howner, hfolder⟩)) fun _ => uses_pure _
    · exact getSizedStream_uses ⟨howner, hfolder⟩ fun _ => ⟨howner, hfolder⟩

theorem entry_uses {path folder : Text} (hfolder : folder <+: path) :
    (site.entry path).run.Uses (Inside site.owner folder) := by
  unfold Website.entry
  split
  · exact uses_pure _
  · rename_i p hp
    have hinside : folder <+: p.asStr := by rwa [StoragePath.asStr_of_new hp]
    refine uses_bind (uses_attempt (getInfo_uses ⟨rfl, hinside⟩)) fun result => ?_
    split
    · exact uses_pure _
    · exact uses_pure _
    · exact uses_throw _

/-- What a site finds is a file of its owner. -/
theorem entry_returns {path folder : Text} (hfolder : folder <+: path) :
    Returns (fun found => ∀ e entry, found = some (e, entry) → e.pubkey = site.owner ∧
      folder <+: e.path.asStr) (site.entry path) := by
  unfold Website.entry
  split
  · exact returns_pure nofun
  · rename_i p hp
    refine returns_bind (returns_of_forall fun _ => trivial) fun result _ => ?_
    split
    · refine returns_pure fun e entry heq => ?_
      cases heq
      exact ⟨rfl, by rwa [StoragePath.asStr_of_new hp]⟩
    · exact returns_pure nofun
    · exact returns_throw _

theorem ok_of_tryJoin {α β : Type} {leftFirst : Bool} {x : Except HttpError α}
    {y : Except HttpError β} {b : β} (h : Website.tryJoin leftFirst x y = .ok b) : y = .ok b := by
  cases leftFirst <;> cases x <;> cases y <;> simp_all [Website.tryJoin, Except.bind, Except.map]

/-- The target, the index of a folder and the page for missing pages are in the folder of the
site. -/
theorem respond_uses {folder : Text} (hroot : folder = site.root ++ ['/'])
    (htarget : folder <+: site.target.asStr) (ownerFirst : Bool) :
    (site.respond B D r ownerFirst).run.Uses (Inside site.owner folder) := by
  have huser : (Reads.getOrHttpError site.owner true).run.Uses (Inside site.owner folder) :=
    uses_bind (uses_stmt (Prog.uses_perform.2 (Eq.refl site.owner))) fun _ =>
      uses_bind uses_check fun _ => uses_pure _
  have hindex : folder <+: site.target.asStr ++ "/index.html".toList :=
    htarget.trans (List.prefix_append _ _)
  have hmissing : folder <+: site.root ++ "/404.html".toList := by
    rw [hroot]
    exact ⟨"404.html".toList, by rw [List.append_assoc]; rfl⟩
  refine uses_bind (uses_attempt huser) fun owner => ?_
  refine uses_bind_of_returns (uses_attempt (entry_uses htarget))
    (returns_attempt (entry_returns htarget)) fun page hpage => ?_
  refine uses_bind_of_returns uses_check returns_check fun found hfound => ?_
  cases found with
  | some found =>
    obtain ⟨howner, hinside⟩ := hpage _ (ok_of_tryJoin hfound) found.1 found.2 rfl
    exact file_uses howner hinside
  | none =>
    have hlookup : (if site.path.isFile = true then
        site.entry (site.target.asStr ++ "/index.html".toList) else pure none).run.Uses
        (Inside site.owner folder) := by
      split
      · exact entry_uses hindex
      · exact uses_pure _
    refine uses_bind hlookup fun index => ?_
    split
    · exact uses_pure _
    · refine uses_bind_of_returns (entry_uses hmissing) (entry_returns hmissing)
        fun found hfound => ?_
      cases found with
      | some found =>
        obtain ⟨howner, hinside⟩ := hfound found.1 found.2 rfl
        exact file_uses howner hinside
      | none => exact uses_throw _

/-! ## Containment -/

/-- A lookup inside of the site of a label. -/
def InSite (owner : PublicKey) (label : Text) : ReadOp → Prop
  | .getUser key => key = owner
  | .getInfo e | .stat e | .openBlob e _ =>
    e.pubkey = owner ∧ ("/pub/website/".toList ++ label ++ ['/']) <+: e.path.asStr ∧
      (∀ s ∈ e.path.asStr.splitOn '/', s ≠ ".".toList ∧ s ≠ "..".toList) ∧
      ¬ privateRoot <+: e.path.asStr
  | .list _ _ => False

theorem Inside.inSite {o : ReadOp}
    (h : Inside owner ("/pub/website/".toList ++ label ++ ['/']) o) : InSite owner label o := by
  have hfile : ∀ e : EntryPath, e.pubkey = owner ∧
      ("/pub/website/".toList ++ label ++ ['/']) <+: e.path.asStr → e.pubkey = owner ∧
      ("/pub/website/".toList ++ label ++ ['/']) <+: e.path.asStr ∧
      (∀ s ∈ e.path.asStr.splitOn '/', s ≠ ".".toList ∧ s ≠ "..".toList) ∧
      ¬ privateRoot <+: e.path.asStr := by
    rintro e ⟨howner, hinside⟩
    refine ⟨howner, hinside, fun s hs => e.path.segment_ne_dots hs, fun hprivate => ?_⟩
    have hpublic : publicRoot <+: e.path.asStr :=
      List.IsPrefix.trans ⟨"website/".toList ++ label ++ ['/'], rfl⟩ hinside
    exact absurd (List.prefix_of_prefix_length_le hpublic hprivate (by decide)) (by decide)
  cases o with
  | getUser key => exact h
  | getInfo e | stat e | openBlob e etag => exact hfile e h
  | list e params => exact h

/-- A request for a website looks up nothing but the owner that its host names, who is not the
homeserver, and files of this owner in the folder of the label that its host names, which is one
segment. -/
theorem website_stays_inside
    (hhostname : ∀ t, isHostname t = true → ∀ c ∈ t, c.isAlphanum ∨ c = '-' ∨ c = '.')
    (h : Website.fromRequest C isHostname r homeserver = .ok (some site)) (ownerFirst : Bool) :
    ∃ host label, r.host = some host ∧ Names C isHostname host site.owner label ∧ '/' ∉ label ∧
      site.owner ≠ homeserver ∧
      (site.respond B D r ownerFirst).run.Uses (InSite site.owner label) := by
  obtain ⟨host, label, hhost, hnames, hne, hroot, htarget⟩ := fromRequest_names h
  refine ⟨host, label, hhost, hnames, fun hslash => ?_, hne, ?_⟩
  · rcases hnames.host with ⟨-, rfl⟩ | ⟨-, hvalid⟩
    · exact absurd hslash (by decide)
    · exact absurd (hhostname label hvalid '/' hslash) (by decide)
  · refine (respond_uses rfl htarget ownerFirst).mono fun o ho => Inside.inSite ?_
    rwa [hroot] at ho

/-- A validator of host names that accepts labels of letters. -/
def lettersOnly (t : Text) : Bool := t ≠ [] && t.all Char.isAlpha

/-- A folder of a blog is asked for, with escaped dots in the path. -/
def blogRequest : SiteRequest where
  method := "GET".toList
  head := ⟨"/x/%2E%2e//posts/".toList, none,
    ⟨[("host".toList, some ("Blog.".toList ++ Sample.alice.z32 ++ ".:443".toList))]⟩⟩
  uriHost := none

/-- Alice's blog on bob's homeserver. -/
theorem website_stays_inside_sample :
    ∃ site, Website.fromRequest Sample.decodingCrates lettersOnly blogRequest Sample.bob =
        .ok (some site) ∧ site.target.asStr = "/pub/website/blog/posts/index.html".toList ∧
      ∃ host label, blogRequest.host = some host ∧
        Names Sample.decodingCrates lettersOnly host site.owner label ∧ '/' ∉ label ∧
        site.owner ≠ Sample.bob ∧
        (site.respond .standard ⟨fun _ => [], fun _ _ => false⟩ blogRequest true).run.Uses
          (InSite site.owner label) := by
  have hletters : ∀ t, lettersOnly t = true → ∀ c ∈ t, c.isAlphanum ∨ c = '-' ∨ c = '.' := by
    intro t ht c hc
    have hall := (Bool.and_eq_true_iff.1 ht).2
    exact .inl (by simp [Char.isAlphanum, List.all_eq_true.1 hall c hc])
  have hsite : Website.fromRequest Sample.decodingCrates lettersOnly blogRequest Sample.bob =
      .ok (some ⟨Sample.alice, "/pub/website/blog".toList, ⟨"/posts/".toList, by decide⟩,
        ⟨"/pub/website/blog/posts/index.html".toList, by decide +kernel⟩⟩) := by
    decide +kernel
  exact ⟨_, hsite, rfl, website_stays_inside hletters hsite true⟩

end Pubky.Homeserver.Websites

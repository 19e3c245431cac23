import Pubky.Homeserver.Cookie.Sessions
import Pubky.Homeserver.Events.Broadcasts
import Pubky.Homeserver.Events.Query

/-!
# The route of the client event stream

`client_server/routes/events.rs`. The request is authorized once, on the paths it asks for; what
the stream delivers is decided later by filters made from these paths. `authorized_covers` says
that the authorization of a filter carries over to every path that it matches.
What this means for whole runs of the event feed is the subject of
`Pubky.Homeserver.Events.Leaks`.
-/

namespace Pubky.Homeserver.Events

open Storage

/-! ## The handler -/

/-- Whether the stream has to be bound to the storage of one user. -/
inductive EventStreamTenantScope where
  | publicOnly
  | privateSingleTenant (tenant : PublicKey)
  | privateUnsupported
  deriving DecidableEq

namespace EventStreamTenantScope

def fromQuery (paths : List StoragePath)
    (userCursors : List (PublicKey × Option EventCursor)) : EventStreamTenantScope :=
  if !paths.any fun path => privateRoot.isPrefixOf path.asStr then .publicOnly
  else
    match userCursors with
    | [(tenant, _)] => .privateSingleTenant tenant
    | _ => .privateUnsupported

def tenant : EventStreamTenantScope → Option PublicKey
  | .privateSingleTenant tenant => some tenant
  | .publicOnly | .privateUnsupported => none

end EventStreamTenantScope

/-- A request for the client event stream: the session that the middleware found, the first
`Authorization` header, the cookies by name, and the query. -/
structure StreamRequest where
  session : Option AuthSession
  authorization : Option Bytes
  cookies : Text → Option Text
  rawQuery : Option Text

/-- What the handler is answered by the database, the revocation listener and the final
validation of the session. -/
structure StreamAnswers where
  users : List UserRow
  sessions : List Cookie.SessionRow
  sessionsFail : Bool
  subscribed : Bool
  authorized : Except HttpError Unit
  usersFail : Bool

/-- The header has the scheme `Bearer`, with a token or not. -/
def hasBearerAuth (authorization : Option Bytes) : Bool :=
  authorization.any fun value => (utf8 "Bearer ".toList).isPrefixOf value

variable (C : StreamCrates)

/-- A cookie of the tenant, for a stream with private paths of one user. -/
def resolveTenantCookieSession (answers : StreamAnswers) (cookies : Text → Option Text)
    (scope : EventStreamTenantScope) : Option AuthSession :=
  match scope with
  | .privateSingleTenant tenant =>
    if answers.sessionsFail then none
    else
      Cookie.resolveSessionFromCookie C.toCrates answers.users answers.sessions
        (cookies (C.z32 tenant)) tenant
  | .publicOnly | .privateUnsupported => none

/-- The session that the stream is authorized for. A presented bearer disables cookies. -/
def streamSession (request : StreamRequest) (answers : StreamAnswers)
    (scope : EventStreamTenantScope) : Option AuthSession :=
  match request.session with
  | some (.cookie session) =>
    if hasBearerAuth request.authorization then none else some (.cookie session)
  | some session => some session
  | none =>
    if hasBearerAuth request.authorization then none
    else resolveTenantCookieSession C answers request.cookies scope

/-- The root of public storage as a filter. -/
def publicFilter : PathFilter := ⟨⟨publicRoot, by decide⟩⟩

def authorizedPaths (paths : List StoragePath) (scope : EventStreamTenantScope)
    (session : Option AuthSession) : Except HttpError (List PathFilter) :=
  if paths = [] then .ok [publicFilter]
  else do
    paths.forM fun path => hasReadPermission session scope.tenant path
    return paths.map PathFilter.mk

/-- `UserService::get_ids`, in the order of the keys. -/
def getIds (users : List UserRow) (keys : List PublicKey) : Except SqlError (List ℕ) :=
  keys.mapM fun key => do
    let user ← found (users.find? fun u => u.publicKey = C.z32 key)
    return user.id

def resolveUserIds (answers : StreamAnswers)
    (userCursors : List (PublicKey × Option EventCursor)) :
    Except EventStreamError (List (ℕ × Option EventCursor)) :=
  match query answers.usersFail (getIds C answers.users (userCursors.map Prod.fst)) with
  | .ok ids => .ok (ids.zip (userCursors.map Prod.snd))
  | .error e => .error (.ofSql e)

/-- A vector of pairs collected into a map. -/
def collectCursors (pairs : List (ℕ × Option EventCursor)) :
    AList fun _ : ℕ => Option EventCursor :=
  pairs.foldl (fun cursors pair => cursors.insert pair.1 pair.2) ∅

/-- A stream that the handler has opened. -/
structure OpenedStream where
  query : ClientStreamQuery
  session : Option AuthSession
  cursor : AList fun _ : ℕ => Option EventCursor
  options : StreamOptions

/-- `PendingStreamAuth::subscribe` and `authorize`: only a private stream needs the listener and a
validated session. -/
def authorizeStream (answers : StreamAnswers) (scope : EventStreamTenantScope)
    (session : Option AuthSession) : Except HttpError Unit :=
  match scope with
  | .privateSingleTenant _ =>
    if !answers.subscribed then
      .error (.newWithMessage 503 "Private event streams are temporarily unavailable".toList)
    else if session.isNone then .error .unauthorized
    else answers.authorized
  | .publicOnly | .privateUnsupported => .ok ()

/-- `feed_stream` -/
def feedStream (request : StreamRequest) (answers : StreamAnswers) :
    Except HttpError OpenedStream := do
  let query ← (ClientStreamQuery.parse C (request.rawQuery.getD [])).mapError
    EventStreamError.toHttp
  let scope := EventStreamTenantScope.fromQuery query.paths query.userCursors
  let session := streamSession C request answers scope
  let allowedPaths ← authorizedPaths query.paths scope session
  authorizeStream answers scope session
  let userCursors ← (resolveUserIds C answers query.userCursors).mapError EventStreamError.toHttp
  return {
    query, session, cursor := collectCursors userCursors
    options := ⟨allowedPaths, query.mode, query.limit, query.limit_ne_zero⟩ }

/-! ## Authorization of a filter -/

/-- What a filter matches lies within every scope that covers the filter. -/
theorem coversPath_of_pathMatches {filter : PathFilter} {scope path : StoragePath}
    (hcovers : scope.coversPath filter.path = true)
    (hmatches : filter.pathMatches path.asStr = true) : scope.coversPath path = true := by
  rw [PathFilter.pathMatches_asStr] at hmatches
  exact StoragePath.coversPath_trans hcovers hmatches

theorem isPrefix_of_pathMatches {filter : PathFilter} {root : Text} {path : Text}
    (hroot : root <+: filter.path.asStr) (hmatches : filter.pathMatches path = true) :
    root <+: path := by
  unfold PathFilter.pathMatches at hmatches
  split at hmatches
  · exact hroot.trans (List.isPrefixOf_iff_prefix.1 hmatches)
  · rw [of_decide_eq_true hmatches]
    exact hroot

/-- A session that may read a filter may read what the filter matches. -/
theorem authorized_covers {session : Option AuthSession} {tenant : Option PublicKey}
    {filter : PathFilter} {path : StoragePath}
    (hread : hasReadPermission session tenant filter.path = .ok ())
    (hmatches : filter.pathMatches path.asStr = true) :
    hasReadPermission session tenant path = .ok () := by
  rw [hasReadPermission_eq_ok] at hread ⊢
  refine hread.imp (fun hroot => isPrefix_of_pathMatches hroot hmatches) ?_
  rintro ⟨hroot, s, k, hs, hk, huser, cap, hcap, hcovers, haction⟩
  exact ⟨isPrefix_of_pathMatches hroot hmatches, s, k, hs, hk, huser, cap, hcap,
    coversPath_of_pathMatches hcovers hmatches, haction⟩

/-- A request is authorized exactly if every path it asks for may be read. -/
theorem exists_authorizedPaths_iff {paths : List StoragePath} {scope : EventStreamTenantScope}
    {session : Option AuthSession} :
    (∃ allowed, authorizedPaths paths scope session = .ok allowed) ↔
      ∀ path ∈ paths, hasReadPermission session scope.tenant path = .ok () := by
  unfold authorizedPaths
  split
  · rename_i hnil
    simp [hnil]
  · simp only [Except.bind_ok_iff]
    constructor
    · rintro ⟨_, _, hall, -⟩
      exact Except.forM_ok_iff.1 hall
    · intro hall
      exact ⟨_, (), Except.forM_ok_iff.2 hall, rfl⟩

/-- Every authorized filter may be read. -/
theorem authorizedPaths_read {paths : List StoragePath} {scope : EventStreamTenantScope}
    {session : Option AuthSession} {allowed : List PathFilter}
    (h : authorizedPaths paths scope session = .ok allowed) :
    allowed ≠ [] ∧ ∀ filter ∈ allowed,
      hasReadPermission session scope.tenant filter.path = .ok () := by
  unfold authorizedPaths at h
  split at h
  · cases h
    refine ⟨List.cons_ne_nil _ _, fun filter hfilter => ?_⟩
    rw [List.mem_singleton.1 hfilter]
    exact hasReadPermission_eq_ok.2 (.inl (List.prefix_refl _))
  · rename_i hne
    obtain ⟨⟨⟩, hall, h⟩ := Except.bind_ok_iff.1 h
    cases h
    refine ⟨fun hnil => hne (List.map_eq_nil_iff.1 hnil), fun filter hfilter => ?_⟩
    obtain ⟨path, hpath, rfl⟩ := List.mem_map.1 hfilter
    exact Except.forM_ok_iff.1 hall path hpath

/-! ## What an opened stream covers -/

variable {C}

theorem mapError_eq_ok {ε ε' α : Type} {x : Except ε α} {f : ε → ε'} {a : α} :
    x.mapError f = .ok a ↔ x = .ok a := by
  cases x <;> simp [Except.mapError]

theorem lookup_collectCursors {pairs : List (ℕ × Option EventCursor)} {user : ℕ}
    (h : (collectCursors pairs).lookup user ≠ none) : ∃ cursor, (user, cursor) ∈ pairs := by
  have hgeneral : ∀ (pairs : List (ℕ × Option EventCursor))
      (cursors : AList fun _ : ℕ => Option EventCursor),
      (pairs.foldl (fun cursors pair => cursors.insert pair.1 pair.2) cursors).lookup user ≠ none →
      cursors.lookup user ≠ none ∨ ∃ cursor, (user, cursor) ∈ pairs := by
    intro pairs
    induction pairs with
    | nil => exact fun _ h => .inl h
    | cons pair pairs ih =>
      intro cursors h
      rcases ih _ h with hinsert | ⟨cursor, hmem⟩
      · by_cases heq : user = pair.1
        · exact .inr ⟨pair.2, by rw [heq]; exact List.mem_cons_self ..⟩
        · rw [AList.lookup_insert_ne heq] at hinsert
          exact .inl hinsert
      · exact .inr ⟨cursor, List.mem_cons_of_mem _ hmem⟩
  exact (hgeneral pairs ∅ h).resolve_left fun h => h (AList.lookup_empty user)

/-- Every id belongs to a user with one of the keys. -/
theorem mem_getIds {users : List UserRow} {keys : List PublicKey} {ids : List ℕ}
    (h : getIds C users keys = .ok ids) {id : ℕ} (hid : id ∈ ids) :
    ∃ key ∈ keys, ∃ u ∈ users, u.id = id ∧ u.publicKey = C.z32 key := by
  induction keys generalizing ids with
  | nil =>
    cases h
    exact absurd hid List.not_mem_nil
  | cons key keys ih =>
    simp only [getIds, List.mapM_cons, Except.bind_ok_iff, found_eq_ok] at h
    obtain ⟨id', ⟨user, huser, hid'⟩, ids', hids', h⟩ := h
    cases hid'
    cases h
    rcases List.mem_cons.1 hid with rfl | hid
    · exact ⟨key, List.mem_cons_self .., user, List.mem_of_find?_eq_some huser, rfl,
        by simpa using List.find?_some huser⟩
    · obtain ⟨key', hkey', hrest⟩ := ih hids' hid
      exact ⟨key', List.mem_cons_of_mem _ hkey', hrest⟩

/-- The users and filters of an opened stream: each user is one of the query, and each filter may
be read by the session on the tenant of the query. -/
structure Opens (C : StreamCrates) (users : List UserRow) (opened : OpenedStream) : Prop where
  users : ∀ user, opened.cursor.lookup user ≠ none → ∃ key cursor,
    (key, cursor) ∈ opened.query.userCursors ∧ ∃ u ∈ users, u.id = user ∧
      u.publicKey = C.z32 key
  nonempty : opened.options.paths ≠ []
  paths : ∀ filter ∈ opened.options.paths, hasReadPermission opened.session
    (EventStreamTenantScope.fromQuery opened.query.paths opened.query.userCursors).tenant
    filter.path = .ok ()

theorem opens_of_feedStream {request : StreamRequest} {answers : StreamAnswers}
    {opened : OpenedStream} (h : feedStream C request answers = .ok opened) :
    Opens C answers.users opened := by
  simp only [feedStream, Except.bind_ok_iff, mapError_eq_ok] at h
  obtain ⟨query, -, allowed, hallowed, ⟨⟩, -, cursors, hcursors, h⟩ := h
  cases h
  obtain ⟨hne, hpaths⟩ := authorizedPaths_read hallowed
  refine ⟨fun user huser => ?_, hne, hpaths⟩
  obtain ⟨cursor, hmem⟩ := lookup_collectCursors huser
  unfold resolveUserIds at hcursors
  split at hcursors
  · rename_i ids hids
    cases hcursors
    have hquery : getIds C answers.users (query.userCursors.map Prod.fst) = .ok ids := by
      cases hfails : answers.usersFail with
      | true =>
        rw [hfails] at hids
        cases hids
      | false =>
        rw [hfails] at hids
        exact hids
    obtain ⟨key, hkey, hu⟩ := mem_getIds hquery (List.of_mem_zip hmem).1
    obtain ⟨⟨key, cursor'⟩, hpair, rfl⟩ := List.mem_map.1 hkey
    exact ⟨key, cursor', hpair, hu⟩
  · cases hcursors

/-- A tenant is the only user of the query. -/
theorem userCursors_of_tenant {paths : List StoragePath}
    {userCursors : List (PublicKey × Option EventCursor)} {key : PublicKey}
    (h : (EventStreamTenantScope.fromQuery paths userCursors).tenant = some key) :
    ∃ cursor, userCursors = [(key, cursor)] := by
  unfold EventStreamTenantScope.fromQuery at h
  split at h
  · cases h
  · split at h
    · cases h
      exact ⟨_, rfl⟩
    · cases h

end Pubky.Homeserver.Events

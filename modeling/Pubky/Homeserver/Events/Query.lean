import Pubky.Homeserver.Events.Stream

/-!
# The query of an event stream

`services/events_service/query.rs`: the parameters of `GET /events-stream`, on the client server
and on the admin server. A query carries the proof that its limit is not zero, which
`SharedParams.parse` checks. `LimitAccepted` is a limit that one of the two servers accepts; it
fits into 16 bits.
-/

namespace Pubky.Homeserver.Events

/-- The functions of other crates that the request for a stream goes through. -/
structure StreamCrates extends Crates where
  /-- `form_urlencoded::parse` on a query: its decoded pairs in order -/
  formUrlencoded : Text → List (Text × Text)

/-- Why an event stream request was rejected. -/
inductive EventStreamError where
  | userNotFound
  | databaseError (e : SqlError)
  | invalidPublicKey (value : Text)
  | invalidCursor (value : Text)
  | invalidLimit (value : Text)
  | zeroLimit
  | liveWithReverse
  | tooManyUsers
  | userRequired
  | invalidPath (path : Text)
  deriving DecidableEq

def maxEventStreamUsers : ℕ := 50

namespace EventStreamError

def ofSql : SqlError → EventStreamError
  | .rowNotFound => .userNotFound
  | e => .databaseError e

/-- The answer of the route; lookups apart, it repeats the message of the error. -/
def toHttp : EventStreamError → HttpError
  | .userNotFound => .notFound
  | .databaseError e => .ofSql e
  | .invalidPublicKey value => .badRequest ("Invalid public key: ".toList ++ value)
  | .invalidCursor value => .badRequest ("Invalid cursor: ".toList ++ value)
  | .invalidLimit value => .badRequest ("Invalid limit: ".toList ++ value)
  | .zeroLimit => .badRequest "limit must be at least 1".toList
  | .liveWithReverse => .badRequest "Cannot use live mode with reverse ordering".toList
  | .tooManyUsers => .badRequest "Too many users. Maximum allowed: 50".toList
  | .userRequired => .badRequest "user parameter is required".toList
  | .invalidPath path => .badRequest ("Invalid path: ".toList ++ path)

end EventStreamError

def parsePublicKey (C : Crates) (value : Text) : Except EventStreamError PublicKey :=
  if PublicKey.isPubkyPrefixed value then .error (.invalidPublicKey value)
  else (C.fromZ32 value).okOr (.invalidPublicKey value)

def parseCursor (value : Text) : Except EventStreamError EventCursor :=
  (Text.parseUnsigned 64 value).okOr (.invalidCursor value)

/-- A missing slash is put in front. -/
def parsePath (value : Text) : Except EventStreamError StoragePath :=
  let path := if value.head? = some '/' then value else '/' :: value
  match StoragePath.normalize path with
  | .ok path => .ok path
  | .error _ => .error (.invalidPath path)

def isTrue (value : Text) : Bool :=
  value = "true".toList || value = "1".toList

/-- The parameters that the client stream shares with the admin stream. -/
structure SharedParams where
  limit : Option ℕ
  limit_ne_zero : limit ≠ some 0
  live : Bool
  reverse : Bool
  paths : List StoragePath

namespace SharedParams

def default : SharedParams := ⟨none, nofun, false, false, []⟩

/-- Consume one pair; unknown keys are ignored. -/
def parse (p : SharedParams) (key value : Text) : Except EventStreamError SharedParams :=
  if key = "limit".toList then
    match Text.parseUnsigned 16 value with
    | none => .error (.invalidLimit value)
    | some 0 => .error .zeroLimit
    | some (n + 1) => .ok { p with limit := some (n + 1), limit_ne_zero := nofun }
  else if key = "live".toList then .ok { p with live := isTrue value }
  else if key = "reverse".toList then .ok { p with reverse := isTrue value }
  else if key = "path".toList ∧ value ≠ [] then do
    let path ← parsePath value
    return { p with paths := p.paths ++ [path] }
  else .ok p

def mode (p : SharedParams) : Except EventStreamError Mode :=
  match p.live, p.reverse with
  | false, false => .ok .forward
  | true, false => .ok .forwardLive
  | false, true => .ok .reverse
  | true, true => .error .liveWithReverse

end SharedParams

/-- A parsed request of the client server. -/
structure ClientStreamQuery where
  userCursors : List (PublicKey × Option EventCursor)
  limit : Option ℕ
  limit_ne_zero : limit ≠ some 0
  mode : Mode
  paths : List StoragePath

namespace ClientStreamQuery

/-- A repeated user resumes from the last cursor given for it. -/
def setCursor (cursors : List (PublicKey × Option EventCursor)) (key : PublicKey)
    (cursor : Option EventCursor) : List (PublicKey × Option EventCursor) :=
  if cursors.any fun known => known.1 = key then
    cursors.map fun known => if known.1 = key then (key, cursor) else known
  else cursors ++ [(key, cursor)]

/-- `user=<pk>` or `user=<pk>:<cursor>`; an empty cursor is none. -/
def parseUser (C : Crates) (value : Text) :
    Except EventStreamError (PublicKey × Option EventCursor) := do
  let (key, cursor) := match Text.splitOnce ':' value with
    | some (key, cursor) => (key, if cursor = [] then none else some cursor)
    | none => (value, none)
  let key ← parsePublicKey C key
  match cursor with
  | none => return (key, none)
  | some cursor =>
    let cursor ← parseCursor cursor
    return (key, some cursor)

/-- One pair of the query. -/
def parsePair (C : Crates) (state : List (PublicKey × Option EventCursor) × SharedParams)
    (pair : Text × Text) :
    Except EventStreamError (List (PublicKey × Option EventCursor) × SharedParams) :=
  if pair.1 = "user".toList ∧ pair.2 ≠ [] then do
    let (key, cursor) ← parseUser C pair.2
    return (setCursor state.1 key cursor, state.2)
  else do
    let shared ← state.2.parse pair.1 pair.2
    return (state.1, shared)

def parse (C : StreamCrates) (query : Text) : Except EventStreamError ClientStreamQuery := do
  let (userCursors, shared) ←
    (C.formUrlencoded query).foldlM (parsePair C.toCrates) ([], SharedParams.default)
  let mode ← shared.mode
  if userCursors = [] then .error .userRequired
  else if maxEventStreamUsers < userCursors.length then .error .tooManyUsers
  else
    return { userCursors, limit := shared.limit, limit_ne_zero := shared.limit_ne_zero, mode
             paths := shared.paths }

end ClientStreamQuery

/-- A parsed request of the admin server; no users stand for all of them. -/
structure AdminStreamQuery where
  users : List PublicKey
  cursor : Option EventCursor
  limit : Option ℕ
  limit_ne_zero : limit ≠ some 0
  mode : Mode
  paths : List StoragePath

namespace AdminStreamQuery

/-- One pair of the query: a repeated user adds nothing, and of repeated cursors the last one
counts. -/
def parsePair (C : Crates) (state : List PublicKey × Option EventCursor × SharedParams)
    (pair : Text × Text) :
    Except EventStreamError (List PublicKey × Option EventCursor × SharedParams) :=
  let (users, cursor, shared) := state
  if pair.1 = "user".toList ∧ pair.2 ≠ [] then do
    let key ← parsePublicKey C pair.2
    return (if users.contains key then users else users ++ [key], cursor, shared)
  else if pair.1 = "cursor".toList ∧ pair.2 ≠ [] then do
    let cursor ← parseCursor pair.2
    return (users, some cursor, shared)
  else do
    let shared ← shared.parse pair.1 pair.2
    return (users, cursor, shared)

def parse (C : StreamCrates) (query : Text) : Except EventStreamError AdminStreamQuery := do
  let (users, cursor, shared) ←
    (C.formUrlencoded query).foldlM (parsePair C.toCrates) ([], none, SharedParams.default)
  let mode ← shared.mode
  if maxEventStreamUsers < users.length then .error .tooManyUsers
  else
    return { users, cursor, limit := shared.limit, limit_ne_zero := shared.limit_ne_zero, mode
             paths := shared.paths }

end AdminStreamQuery

/-! ## Limits -/

/-- A limit that a query was accepted with. -/
inductive LimitAccepted (n : ℕ) : Prop where
  | client (C : StreamCrates) (query : Text) (q : ClientStreamQuery)
      (h : ClientStreamQuery.parse C query = .ok q) (hlimit : q.limit = some n)
  | admin (C : StreamCrates) (query : Text) (q : AdminStreamQuery)
      (h : AdminStreamQuery.parse C query = .ok q) (hlimit : q.limit = some n)

/-- The limit was parsed as a `u16`. -/
def SharedParams.Fits (p : SharedParams) : Prop :=
  ∀ n, p.limit = some n → n < 2 ^ 16

theorem SharedParams.Fits.parse {p p' : SharedParams} {key value : Text} (h : p.Fits)
    (hp : p.parse key value = .ok p') : p'.Fits := by
  unfold SharedParams.parse at hp
  split at hp
  · split at hp
    · cases hp
    · cases hp
    · rename_i n hn
      cases hp
      intro m hm
      cases hm
      exact Text.lt_of_parseUnsigned hn
  · split at hp
    · cases hp
      exact h
    split at hp
    · cases hp
      exact h
    split at hp
    · obtain ⟨path, -, hp⟩ := Except.bind_ok_iff.1 hp
      cases hp
      exact h
    · cases hp
      exact h

theorem LimitAccepted.lt {n : ℕ} (h : LimitAccepted n) : n < 2 ^ 16 := by
  cases h with
  | client C query q h hlimit =>
    obtain ⟨state, hstate, h⟩ := Except.bind_ok_iff.1 h
    obtain ⟨mode, -, h⟩ := Except.bind_ok_iff.1 h
    have hfits : state.2.Fits := by
      refine List.foldlM_invariant (I := fun t => t.2.Fits) (fun t pair t' ht hpair => ?_) nofun hstate
      unfold ClientStreamQuery.parsePair at hpair
      split at hpair
      · obtain ⟨user, -, hpair⟩ := Except.bind_ok_iff.1 hpair
        cases hpair
        exact ht
      · obtain ⟨shared, hshared, hpair⟩ := Except.bind_ok_iff.1 hpair
        cases hpair
        exact ht.parse hshared
    split at h
    · cases h
    split at h
    · cases h
    cases h
    exact hfits n hlimit
  | admin C query q h hlimit =>
    obtain ⟨state, hstate, h⟩ := Except.bind_ok_iff.1 h
    obtain ⟨mode, -, h⟩ := Except.bind_ok_iff.1 h
    have hfits : state.2.2.Fits := by
      refine List.foldlM_invariant (I := fun t => t.2.2.Fits) (fun t pair t' ht hpair => ?_) nofun hstate
      unfold AdminStreamQuery.parsePair at hpair
      simp only at hpair
      split at hpair
      · obtain ⟨key, -, hpair⟩ := Except.bind_ok_iff.1 hpair
        cases hpair
        exact ht
      · split at hpair
        · obtain ⟨cursor, -, hpair⟩ := Except.bind_ok_iff.1 hpair
          cases hpair
          exact ht
        · obtain ⟨shared, hshared, hpair⟩ := Except.bind_ok_iff.1 hpair
          cases hpair
          exact ht.parse hshared
    split at h
    · cases h
    cases h
    exact hfits n hlimit

end Pubky.Homeserver.Events

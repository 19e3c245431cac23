import Pubky.Homeserver.Events.Route
import Pubky.Sdk.Form
import Pubky.Sdk.StorageUrls

/-!
# Subscribing to events

`pubky-sdk/src/actors/event_stream.rs`: the builder of an event stream request, and whether the
request carries the credential of a session.

The SDK decides this on the texts of the path filters and the homeserver on the paths it has parsed.
Both normalize alike, and the builder keeps its users distinct, so on every request that the
homeserver can parse the two agree (`credential_matches_scope`). A request with a filter that is no
path is refused before it is classified, while the SDK goes by the other filters.
-/

namespace Pubky.Sdk

open Homeserver Homeserver.Events

/-! ## The model -/

/-- The constructors of a builder keep its users distinct and at most 50. -/
structure EventStreamBuilder where
  users : List (PublicKey × Option (Fin (2 ^ 64)))
  nodup : (users.map Prod.fst).Nodup
  length_le : users.length ≤ 50
  homeserver : Option PublicKey
  limit : Option (Fin (2 ^ 16))
  maxEventBytes : ℕ
  live : Bool
  reverse : Bool
  paths : List Text
  /-- The user of the session whose credential is to be used. -/
  credential : Option PublicKey

inductive EventStreamAuthScope where
  | publicOnly
  | privateSingleUser (user : PublicKey)
  | privateUnsupported
  deriving DecidableEq

def isPrivatePathFilter (path : Text) : Bool :=
  let path := if path.head? = some '/' then path else '/' :: path
  match StoragePath.normalize path with
  | .ok path => privateRoot.isPrefixOf path.asStr
  | .error _ => false

/-- The value of a parameter `user`. -/
def userValue (C : Crates) (user : PublicKey × Option (Fin (2 ^ 64))) : Text :=
  C.z32 user.1 ++ (user.2.map fun cursor => ':' :: Nat.toDigits 10 cursor.val).getD []

/-- A request that is sent to a homeserver. -/
structure StreamCall where
  homeserver : PublicKey
  query : Text
  credential : Option PublicKey
  deriving DecidableEq

namespace EventStreamBuilder

def forUser (user : PublicKey) (cursor : Option (Fin (2 ^ 64))) : EventStreamBuilder where
  users := [(user, cursor)]
  nodup := List.nodup_singleton _
  length_le := by simp
  homeserver := none
  limit := none
  maxEventBytes := 2 ^ 64 - 1
  live := false
  reverse := false
  paths := []
  credential := none

def path (b : EventStreamBuilder) (path : Text) : EventStreamBuilder :=
  { b with paths := b.paths ++ [path] }

def session (b : EventStreamBuilder) (user : PublicKey) : EventStreamBuilder :=
  { b with credential := some user }

/-- The parameters that stand between the users and the paths. -/
def sharedPairs (b : EventStreamBuilder) : List (Text × Option Text) :=
  (b.limit.map fun limit => ("limit".toList, some (Nat.toDigits 10 limit.val))).toList ++
  (if b.live then [("live".toList, some "true".toList)] else []) ++
  (if b.reverse then [("reverse".toList, some "true".toList)] else [])

/-- The pairs of the query, in the order of `build_request_url`. -/
def queryPairs (C : Crates) (b : EventStreamBuilder) : List (Text × Option Text) :=
  (b.users.map fun user => ("user".toList, some (userValue C user))) ++ b.sharedPairs ++
  b.paths.map fun path => ("path".toList, some path)

def hasPrivatePathFilter (b : EventStreamBuilder) : Bool := b.paths.any isPrivatePathFilter

def authScope (b : EventStreamBuilder) : EventStreamAuthScope :=
  if !b.hasPrivatePathFilter then .publicOnly
  else
    match b.users with
    | [(user, _)] => .privateSingleUser user
    | _ => .privateUnsupported

def shouldAttachCredential (b : EventStreamBuilder) (credential : PublicKey) : Bool :=
  match b.authScope with
  | .privateSingleUser user => user = credential
  | .publicOnly | .privateUnsupported => false

/-- The request of `subscribe_internal`. `homeserverOf` is the answer of PKDNS, and `canAttachTo`
tells whether the credential may be sent to a homeserver. -/
def subscribeInternal (C : Crates) (F : FormCrate)
    (homeserverOf : PublicKey → Except Error PublicKey) (canAttachTo : PublicKey → Bool)
    (b : EventStreamBuilder) : Except Error StreamCall :=
  if b.maxEventBytes = 0 then .error (invalid "max_event_bytes must be greater than zero")
  else if b.live && b.reverse then .error (invalid "Cannot use live mode with reverse ordering")
  else
    match b.users.head? with
    | none => .error (invalid "At least one user must be specified")
    | some first =>
      if 50 < b.users.length then .error (invalid "Cannot subscribe to more than 50 users")
      else do
        let homeserver ← b.homeserver.elim (homeserverOf first.1) .ok
        let credential := b.credential.filter b.shouldAttachCredential
        if credential.isSome && !canAttachTo homeserver then
          .error (invalid "cannot attach session credential to target homeserver")
        else return ⟨homeserver, F.serialize (b.queryPairs C), credential⟩

end EventStreamBuilder

/-! ## What the homeserver parses -/

/-- The cursors of the users, as the homeserver reads them. -/
def EventStreamBuilder.userCursors (b : EventStreamBuilder) :
    List (PublicKey × Option EventCursor) :=
  b.users.map fun user => (user.1, user.2.map Fin.val)

variable {C : StreamCrates} {F : FormCrate} {b : EventStreamBuilder}

theorem isPrivatePathFilter_iff {path : Text} :
    isPrivatePathFilter path ↔ ∃ p, parsePath path = .ok p ∧ privateRoot <+: p.asStr := by
  rw [isPrivatePathFilter, parsePath]
  cases StoragePath.normalize (if path.head? = some '/' then path else '/' :: path) <;>
    simp [List.isPrefixOf_iff_prefix]

/-- An empty filter is not private. -/
theorem isPrivatePathFilter_nil : isPrivatePathFilter [] = false := by decide +kernel

/-- What is assumed of the crates: a public key is read back from its text, and a query from its
form. -/
structure StreamLawful (C : StreamCrates) (F : FormCrate) : Prop where
  fromZ32_z32 : ∀ key, C.fromZ32 (C.z32 key) = some key
  z32_length : ∀ key, (C.z32 key).length = 52
  z32_chars : ∀ key, ∀ c ∈ C.z32 key, c ∈ zBase32.chars
  formUrlencoded_eq : C.formUrlencoded = F.parse
  form : F.Lawful

theorem parseUser_eq (hC : StreamLawful C F) (user : PublicKey × Option (Fin (2 ^ 64))) :
    ClientStreamQuery.parseUser C.toCrates (userValue C.toCrates user) =
      .ok (user.1, user.2.map Fin.val) := by
  obtain ⟨key, cursor⟩ := user
  have hcolon : ':' ∉ C.z32 key := fun h => absurd (hC.z32_chars key _ h) (by decide)
  have hkey : parsePublicKey C.toCrates (C.z32 key) = .ok key := by
    rw [parsePublicKey, PublicKey.not_prefixed_of_length (hC.z32_length key)
      (hC.z32_chars key), if_neg Bool.false_ne_true, hC.fromZ32_z32]
    rfl
  cases cursor with
  | none =>
    simp only [ClientStreamQuery.parseUser, userValue, Option.map_none, Option.getD_none, List.append_nil,
      Text.splitOnce_eq_none hcolon, hkey, bind, Except.bind]
    rfl
  | some cursor =>
    simp only [ClientStreamQuery.parseUser, userValue, Option.map_some, Option.getD_some,
      Text.splitOnce_append hcolon, hkey, Nat.toDigits_ne_nil, if_false, bind, Except.bind,
      parseCursor, Text.parseUnsigned_toDigits cursor.isLt, Option.okOr]
    rfl

theorem userValue_ne_nil (hC : StreamLawful C F) (user : PublicKey × Option (Fin (2 ^ 64))) :
    userValue C.toCrates user ≠ [] := by
  have hz32 : C.z32 user.1 ≠ [] := by
    intro h
    simpa [h] using hC.z32_length user.1
  exact List.append_ne_nil_of_left_ne_nil hz32 _

theorem foldlM_users (hC : StreamLawful C F) (shared : SharedParams)
    {known : List (PublicKey × Option EventCursor)}
    {users : List (PublicKey × Option (Fin (2 ^ 64)))}
    (hnodup : (known.map Prod.fst ++ users.map Prod.fst).Nodup) :
    (users.map fun user => ("user".toList, userValue C.toCrates user)).foldlM
        (ClientStreamQuery.parsePair C.toCrates) (known, shared) =
      .ok (known ++ users.map fun user => (user.1, user.2.map Fin.val), shared) := by
  induction users generalizing known with
  | nil => simp [pure, Except.pure]
  | cons user users ih =>
    have hnew : ¬ known.any fun k => k.1 = user.1 := by
      intro h
      obtain ⟨k, hk, hkey⟩ := List.any_eq_true.1 h
      refine List.disjoint_of_nodup_append hnodup (List.mem_map_of_mem hk) ?_
      rw [of_decide_eq_true hkey]
      simp
    have hstep : ClientStreamQuery.parsePair C.toCrates (known, shared)
        ("user".toList, userValue C.toCrates user) =
        .ok (known ++ [(user.1, user.2.map Fin.val)], shared) := by
      simp only [ClientStreamQuery.parsePair, userValue_ne_nil hC user, ne_eq, not_false_eq_true,
        and_self, if_true, parseUser_eq hC, ClientStreamQuery.setCursor, if_neg hnew, bind,
        Except.bind, pure, Except.pure]
    rw [List.map_cons, List.foldlM_cons, hstep]
    have hnodup' : ((known ++ [(user.1, user.2.map Fin.val)]).map Prod.fst ++
        users.map Prod.fst).Nodup := by
      simpa using hnodup
    refine (ih hnodup').trans ?_
    rw [List.append_assoc, List.singleton_append, List.map_cons]

theorem foldlM_paths (known : List (PublicKey × Option EventCursor)) (shared : SharedParams)
    (paths : List Text) :
    (paths.map fun path => ("path".toList, path)).foldlM
        (ClientStreamQuery.parsePair C.toCrates) (known, shared) =
      ((paths.filter (· ≠ [])).mapM parsePath).map fun ps =>
        (known, { shared with paths := shared.paths ++ ps }) := by
  induction paths generalizing shared with
  | nil => simp [pure, Except.pure, Except.map]
  | cons path paths ih =>
    have hparse : ClientStreamQuery.parsePair C.toCrates (known, shared) ("path".toList, path) =
        if path = [] then .ok (known, shared)
        else (parsePath path).map fun p => (known, { shared with paths := shared.paths ++ [p] }) := by
      have hkeys : "path".toList ≠ "user".toList ∧ "path".toList ≠ "limit".toList ∧
          "path".toList ≠ "live".toList ∧ "path".toList ≠ "reverse".toList := by decide
      simp only [ClientStreamQuery.parsePair, SharedParams.parse, hkeys.1, hkeys.2.1, hkeys.2.2.1,
        hkeys.2.2.2, false_and, if_false, true_and, ne_eq]
      by_cases hnil : path = []
      · simp [hnil, bind, Except.bind, pure, Except.pure]
      · cases parsePath path <;> simp [hnil, bind, Except.bind, pure, Except.pure, Except.map]
    rw [List.map_cons, List.foldlM_cons, hparse]
    by_cases hnil : path = []
    · rw [if_pos hnil, List.filter_cons_of_neg (by simp [hnil])]
      exact ih shared
    · rw [if_neg hnil, List.filter_cons_of_pos (by simp [hnil]), List.mapM_cons]
      cases parsePath path with
      | error e => rfl
      | ok p =>
        refine (ih _).trans ?_
        cases (paths.filter (· ≠ [])).mapM parsePath <;>
          simp [Except.map, bind, Except.bind, pure, Except.pure]

theorem parsePair_limit (known : List (PublicKey × Option EventCursor)) (limit : Fin (2 ^ 16)) :
    (limit = 0 → ClientStreamQuery.parsePair C.toCrates (known, .default)
      ("limit".toList, Nat.toDigits 10 limit.val) = .error .zeroLimit) ∧
    (limit ≠ 0 → ∃ shared, ClientStreamQuery.parsePair C.toCrates (known, .default)
      ("limit".toList, Nat.toDigits 10 limit.val) = .ok (known, shared) ∧
        shared.live = false ∧ shared.reverse = false ∧ shared.paths = []) := by
  have hkey : "limit".toList ≠ "user".toList := by decide
  have hparse : Text.parseUnsigned 16 (Nat.toDigits 10 limit.val) = some limit.val :=
    Text.parseUnsigned_toDigits limit.isLt
  simp only [ClientStreamQuery.parsePair, SharedParams.parse, hkey, false_and, if_false, if_true]
  rw [hparse]
  obtain ⟨_ | n, hn⟩ := limit
  · exact ⟨fun _ => rfl, fun h => absurd rfl h⟩
  · exact ⟨fun h => absurd (congrArg Fin.val h) (Nat.succ_ne_zero n), fun _ => ⟨_, rfl, rfl, rfl, rfl⟩⟩

/-- The flags are set, and nothing else. -/
theorem foldlM_flags (known : List (PublicKey × Option EventCursor)) {shared : SharedParams}
    (hlive : shared.live = false) (hreverse : shared.reverse = false) (live reverse : Bool) :
    ∃ shared', (((if live then [("live".toList, some "true".toList)] else []) ++
        if reverse then [("reverse".toList, some "true".toList)] else []).map
          fun pair => (pair.1, pair.2.getD [])).foldlM
        (ClientStreamQuery.parsePair C.toCrates) (known, shared) = .ok (known, shared') ∧
      shared'.live = live ∧ shared'.reverse = reverse ∧ shared'.paths = shared.paths := by
  cases live <;> cases reverse
  · exact ⟨_, rfl, hlive, hreverse, rfl⟩
  · exact ⟨_, rfl, hlive, rfl, rfl⟩
  · exact ⟨_, rfl, rfl, hreverse, rfl⟩
  · exact ⟨_, rfl, rfl, rfl, rfl⟩

theorem foldlM_shared (known : List (PublicKey × Option EventCursor)) :
    (b.limit = some 0 → (b.sharedPairs.map fun pair => (pair.1, pair.2.getD [])).foldlM
        (ClientStreamQuery.parsePair C.toCrates) (known, .default) = .error .zeroLimit) ∧
    (b.limit ≠ some 0 → ∃ shared, (b.sharedPairs.map fun pair => (pair.1, pair.2.getD [])).foldlM
        (ClientStreamQuery.parsePair C.toCrates) (known, .default) = .ok (known, shared) ∧
      shared.live = b.live ∧ shared.reverse = b.reverse ∧ shared.paths = []) := by
  rw [EventStreamBuilder.sharedPairs, List.append_assoc, List.map_append, List.foldlM_append]
  cases hlimit : b.limit with
  | none => exact ⟨nofun, fun _ => foldlM_flags known rfl rfl b.live b.reverse⟩
  | some limit =>
    obtain ⟨hzero, hpositive⟩ := parsePair_limit (C := C) known limit
    simp only [Option.map_some, Option.toList_some, List.map_cons, List.map_nil, List.foldlM_cons,
      List.foldlM_nil, Option.getD_some, bind_pure, Option.some.injEq]
    refine ⟨fun h => ?_, fun h => ?_⟩
    · rw [hzero h]
      rfl
    · obtain ⟨shared, hshared, hlive, hreverse, hpaths⟩ := hpositive fun h' => h (congrArg some h')
      obtain ⟨shared', hflags, hlive', hreverse', hpaths'⟩ :=
        foldlM_flags (C := C) known hlive hreverse b.live b.reverse
      rw [hshared]
      exact ⟨shared', hflags, hlive', hreverse', hpaths'.trans hpaths⟩

theorem EventStreamBuilder.key_ne_nil (C : Crates) (b : EventStreamBuilder) :
    ∀ pair ∈ b.queryPairs C, pair.1 ≠ [] := by
  intro pair hpair
  rw [queryPairs, sharedPairs] at hpair
  simp only [List.mem_append, List.mem_map, Option.mem_toList, Option.map_eq_some_iff,
    List.mem_ite_nil_right, List.mem_singleton] at hpair
  rcases hpair with (⟨_, _, rfl⟩ | (⟨_, _, rfl⟩ | ⟨_, rfl⟩) | ⟨_, rfl⟩) | ⟨_, _, rfl⟩ <;>
    simp

/-- The homeserver parses the query as the users of the builder and the paths of its filters,
unless the limit is zero or a filter is no path. -/
theorem parse_query (hC : StreamLawful C F) (hmode : ¬ (b.live && b.reverse)) (hne : b.users ≠ []) :
    (b.limit = some 0 → ClientStreamQuery.parse C (F.serialize (b.queryPairs C.toCrates)) =
      .error .zeroLimit) ∧
    (b.limit ≠ some 0 → ∀ e, (b.paths.filter (· ≠ [])).mapM parsePath = .error e →
      ClientStreamQuery.parse C (F.serialize (b.queryPairs C.toCrates)) = .error e) ∧
    (b.limit ≠ some 0 → ∀ ps, (b.paths.filter (· ≠ [])).mapM parsePath = .ok ps →
      ∃ q, ClientStreamQuery.parse C (F.serialize (b.queryPairs C.toCrates)) = .ok q ∧
        q.userCursors = b.userCursors ∧ q.paths = ps) := by
  have hpairs : C.formUrlencoded (F.serialize (b.queryPairs C.toCrates)) =
      (b.users.map fun user => ("user".toList, userValue C.toCrates user)) ++
        (b.sharedPairs.map fun pair => (pair.1, pair.2.getD [])) ++
        b.paths.map fun path => ("path".toList, path) := by
    rw [hC.formUrlencoded_eq, hC.form.parse_serialize _ (b.key_ne_nil C.toCrates)]
    simp [EventStreamBuilder.queryPairs, Function.comp_def]
  have husers : (b.users.map fun user => ("user".toList, userValue C.toCrates user)).foldlM
      (ClientStreamQuery.parsePair C.toCrates) ([], .default) = .ok (b.userCursors, .default) :=
    foldlM_users hC .default (by simpa using b.nodup)
  have hcount : ¬ maxEventStreamUsers < b.userCursors.length := by
    simpa [EventStreamBuilder.userCursors, maxEventStreamUsers] using b.length_le
  have hnil : b.userCursors ≠ [] := by simpa [EventStreamBuilder.userCursors] using hne
  obtain ⟨hzero, hshared⟩ := foldlM_shared (C := C) (b := b) b.userCursors
  rw [ClientStreamQuery.parse, hpairs, List.foldlM_append, List.foldlM_append, husers]
  refine ⟨fun hlimit => ?_, fun hlimit e he => ?_, fun hlimit ps hps => ?_⟩
  · show ((List.foldlM _ (b.userCursors, SharedParams.default) _ >>= _) >>= _) = _
    rw [hzero hlimit]
    rfl
  · obtain ⟨shared, hfold, -⟩ := hshared hlimit
    show ((List.foldlM _ (b.userCursors, SharedParams.default) _ >>= _) >>= _) = _
    rw [hfold]
    show (List.foldlM _ (b.userCursors, shared) _ >>= _) = _
    rw [foldlM_paths, he]
    rfl
  · obtain ⟨shared, hfold, hlive, hreverse, hpaths⟩ := hshared hlimit
    have hshow : ∃ mode, shared.mode = .ok mode := by
      rw [SharedParams.mode, hlive, hreverse]
      revert hmode
      cases b.live <;> cases b.reverse <;> simp
    obtain ⟨mode, hmode⟩ := hshow
    show ∃ q, ((List.foldlM _ (b.userCursors, SharedParams.default) _ >>= _) >>= _) = _ ∧ _
    rw [hfold]
    show ∃ q, (List.foldlM _ (b.userCursors, shared) _ >>= _) = _ ∧ _
    rw [foldlM_paths, hps]
    refine ⟨⟨b.userCursors, shared.limit, shared.limit_ne_zero, mode, shared.paths ++ ps⟩, ?_, rfl,
      by rw [hpaths, List.nil_append]⟩
    have hmode' : SharedParams.mode { shared with paths := shared.paths ++ ps } = .ok mode := hmode
    simp only [Except.map, bind, Except.bind, hmode', hnil, if_false, hcount, pure, Except.pure]

/-! ## Agreement -/

/-- A filter is private exactly if the homeserver reads it as a private path. -/
theorem hasPrivatePathFilter_iff {ps : List StoragePath}
    (hps : (b.paths.filter (· ≠ [])).mapM parsePath = .ok ps) :
    b.hasPrivatePathFilter ↔ ∃ p ∈ ps, privateRoot <+: p.asStr := by
  have hall := List.mapM_eq_ok.1 hps
  rw [EventStreamBuilder.hasPrivatePathFilter, List.any_eq_true]
  constructor
  · rintro ⟨path, hpath, hprivate⟩
    have hne : path ≠ [] := by
      rintro rfl
      exact absurd hprivate (by simp [isPrivatePathFilter_nil])
    obtain ⟨p, hp, hparse⟩ := hall.exists_of_mem_left (List.mem_filter.2 ⟨hpath, by simpa using hne⟩)
    obtain ⟨p', hparse', hroot⟩ := isPrivatePathFilter_iff.1 hprivate
    obtain rfl := Except.ok.inj (hparse.symm.trans hparse')
    exact ⟨p, hp, hroot⟩
  · rintro ⟨p, hp, hroot⟩
    obtain ⟨path, hpath, hparse⟩ := hall.exists_of_mem_right hp
    exact ⟨path, List.mem_of_mem_filter hpath, isPrivatePathFilter_iff.2 ⟨p, hparse, hroot⟩⟩

theorem shouldAttachCredential_iff {key : PublicKey} :
    b.shouldAttachCredential key ↔ b.hasPrivatePathFilter ∧ ∃ cursor, b.users = [(key, cursor)] := by
  rw [EventStreamBuilder.shouldAttachCredential, EventStreamBuilder.authScope]
  cases b.hasPrivatePathFilter with
  | false => simp
  | true =>
    rw [Bool.not_true, if_neg Bool.false_ne_true]
    rcases b.users with _ | ⟨⟨user, cursor⟩, _ | ⟨_, _⟩⟩ <;> simp

theorem fromQuery_eq_iff {ps : List StoragePath}
    {userCursors : List (PublicKey × Option EventCursor)} {key : PublicKey} :
    EventStreamTenantScope.fromQuery ps userCursors = .privateSingleTenant key ↔
      (∃ p ∈ ps, privateRoot <+: p.asStr) ∧ ∃ cursor, userCursors = [(key, cursor)] := by
  have hany : (∃ p ∈ ps, privateRoot <+: p.asStr) ↔
      ps.any fun path => privateRoot.isPrefixOf path.asStr := by
    simp [List.any_eq_true, List.isPrefixOf_iff_prefix]
  unfold EventStreamTenantScope.fromQuery
  rw [hany]
  cases hprivate : ps.any fun path => privateRoot.isPrefixOf path.asStr with
  | false =>
    rw [Bool.not_false, if_pos rfl]
    simp
  | true =>
    rw [Bool.not_true, if_neg Bool.false_ne_true]
    rcases userCursors with _ | ⟨⟨user, cursor⟩, _ | ⟨_, _⟩⟩ <;> simp

/-- A request that is sent has passed the checks of the builder. -/
theorem of_subscribeInternal {homeserverOf : PublicKey → Except Error PublicKey}
    {canAttachTo : PublicKey → Bool} {call : StreamCall}
    (h : b.subscribeInternal C.toCrates F homeserverOf canAttachTo = .ok call) :
    ¬ (b.live && b.reverse) ∧ b.users ≠ [] ∧
      call.query = F.serialize (b.queryPairs C.toCrates) ∧
      call.credential = b.credential.filter b.shouldAttachCredential := by
  rw [EventStreamBuilder.subscribeInternal] at h
  split at h
  · cases h
  · split at h
    · cases h
    · rename_i hmode
      cases hhead : b.users.head? with
      | none => simp [hhead] at h
      | some first =>
        simp only [hhead] at h
        split at h
        · cases h
        · obtain ⟨homeserver, -, h⟩ := Except.bind_ok_iff.1 h
          split at h
          · cases h
          · cases h
            refine ⟨hmode, ?_, rfl, rfl⟩
            intro hnil
            rw [hnil] at hhead
            cases hhead

theorem credential_eq_iff {key : PublicKey} :
    b.credential.filter b.shouldAttachCredential = some key ↔
      b.credential = some key ∧ b.hasPrivatePathFilter ∧ ∃ cursor, b.users = [(key, cursor)] := by
  rw [Option.filter_eq_some_iff, shouldAttachCredential_iff]

theorem userCursors_eq_singleton {key : PublicKey} :
    (∃ cursor, b.userCursors = [(key, cursor)]) ↔ ∃ cursor, b.users = [(key, cursor)] := by
  rw [EventStreamBuilder.userCursors]
  rcases b.users with _ | ⟨⟨user, cursor⟩, _ | ⟨_, _⟩⟩ <;> simp

/-- Only a session of the tenant authorizes what nobody may read without a session. -/
theorem scope_of_authorized {paths : List StoragePath} {scope : EventStreamTenantScope}
    {session : AuthSession}
    (hsession : ∃ allowed, authorizedPaths paths scope (some session) = .ok allowed)
    (hnone : ∀ allowed, authorizedPaths paths scope none ≠ .ok allowed) :
    scope = .privateSingleTenant session.userKey := by
  have hread := exists_authorizedPaths_iff.1 hsession
  have hnot : ¬ ∀ path ∈ paths, hasReadPermission none scope.tenant path = .ok () := by
    intro hall
    obtain ⟨allowed, hallowed⟩ := exists_authorizedPaths_iff.2 hall
    exact hnone allowed hallowed
  push Not at hnot
  obtain ⟨path, hpath, hdenied⟩ := hnot
  rcases hasReadPermission_eq_ok.1 (hread path hpath) with hpublic | ⟨-, s, key, hs, hkey, hentitled⟩
  · exact absurd (hasReadPermission_eq_ok.2 (.inl hpublic)) hdenied
  · cases hs
    rw [hentitled.user]
    cases scope <;> simp_all [EventStreamTenantScope.tenant]

/-- A request that the homeserver accepts carries the credential of the session exactly if the
homeserver classifies it as private for the session's user; so it carries it whenever only the
session can authorize it. The homeserver refuses a request only for a zero limit or a filter that is
no path; such a request carries the credential exactly if another filter is private and the session's
user is the only one. -/
theorem credential_matches_scope (hC : StreamLawful C F)
    {homeserverOf : PublicKey → Except Error PublicKey} {canAttachTo : PublicKey → Bool}
    {call : StreamCall}
    (h : b.subscribeInternal C.toCrates F homeserverOf canAttachTo = .ok call) :
    (∀ q, ClientStreamQuery.parse C call.query = .ok q →
      (∀ key, call.credential = some key ↔ b.credential = some key ∧
        EventStreamTenantScope.fromQuery q.paths q.userCursors = .privateSingleTenant key) ∧
      ∀ session : AuthSession, b.credential = some session.userKey →
        (∃ allowed, authorizedPaths q.paths
          (EventStreamTenantScope.fromQuery q.paths q.userCursors) (some session) = .ok allowed) →
        (∀ allowed, authorizedPaths q.paths
          (EventStreamTenantScope.fromQuery q.paths q.userCursors) none ≠ .ok allowed) →
        call.credential = some session.userKey) ∧
    ∀ e, ClientStreamQuery.parse C call.query = .error e →
      (b.limit = some 0 ∧ e = .zeroLimit ∨
        ∃ path ∈ b.paths, path ≠ [] ∧ parsePath path = .error e) ∧
      ∀ key, call.credential = some key ↔ b.credential = some key ∧
        (∃ path ∈ b.paths, ∃ p, parsePath path = .ok p ∧ privateRoot <+: p.asStr) ∧
        ∃ cursor, b.users = [(key, cursor)] := by
  obtain ⟨hmode, hne, hquery, hcredential⟩ := of_subscribeInternal h
  obtain ⟨hzero, herror, hok⟩ := parse_query hC hmode hne
  rw [hquery]
  constructor
  · intro q hq
    have hlimit : b.limit ≠ some 0 := by
      intro hlimit
      cases hq.symm.trans (hzero hlimit)
    have hpaths : ∃ ps, (b.paths.filter (· ≠ [])).mapM parsePath = .ok ps := by
      cases hps : (b.paths.filter (· ≠ [])).mapM parsePath with
      | error e => cases hq.symm.trans (herror hlimit e hps)
      | ok ps => exact ⟨ps, rfl⟩
    obtain ⟨ps, hps⟩ := hpaths
    obtain ⟨q', hq', husers, rfl⟩ := hok hlimit ps hps
    obtain rfl := Except.ok.inj (hq.symm.trans hq')
    have hiff : ∀ key, call.credential = some key ↔ b.credential = some key ∧
        EventStreamTenantScope.fromQuery q.paths q.userCursors = .privateSingleTenant key := by
      intro key
      rw [hcredential, credential_eq_iff, fromQuery_eq_iff, hasPrivatePathFilter_iff hps, husers,
        userCursors_eq_singleton]
    refine ⟨hiff, fun session hsession hallowed hdenied => ?_⟩
    exact (hiff _).2 ⟨hsession, scope_of_authorized hallowed hdenied⟩
  · intro e he
    refine ⟨?_, fun key => ?_⟩
    · by_cases hlimit : b.limit = some 0
      · exact .inl ⟨hlimit, Except.error.inj (he.symm.trans (hzero hlimit))⟩
      · right
        cases hps : (b.paths.filter (· ≠ [])).mapM parsePath with
        | error e' =>
          obtain rfl := Except.error.inj (he.symm.trans (herror hlimit e' hps))
          obtain ⟨path, hpath, hparse⟩ := List.exists_of_mapM_eq_error hps
          obtain ⟨hmem, hnil⟩ := List.mem_filter.1 hpath
          exact ⟨path, hmem, by simpa using hnil, hparse⟩
        | ok ps =>
          obtain ⟨q, hq, -⟩ := hok hlimit ps hps
          cases he.symm.trans hq
    · rw [hcredential, credential_eq_iff, EventStreamBuilder.hasPrivatePathFilter, List.any_eq_true]
      simp only [isPrivatePathFilter_iff]

/-- Crates of the homeserver that read forms. -/
def sampleStreamCrates : StreamCrates where
  toCrates := .ofTokens [] [] [] []
  formUrlencoded := FormCrate.standard.parse

theorem streamLawful_sample : StreamLawful sampleStreamCrates .standard where
  fromZ32_z32 := UrlCrate.lawful_standard.fromZ32_z32
  z32_length := UrlCrate.lawful_standard.z32_length
  z32_chars := UrlCrate.lawful_standard.z32_chars
  formUrlencoded_eq := rfl
  form := FormCrate.lawful_standard

/-- A subscription of a user to a filter, with the user's session. -/
def sampleSubscription (paths : List Text) : EventStreamBuilder :=
  (paths.foldl EventStreamBuilder.path (.forUser sampleOwner none)).session sampleOwner

/-- The request that the subscription sends. -/
def sampleCall (paths : List Text) : StreamCall where
  homeserver := sampleOwner
  query := FormCrate.standard.serialize
    ((sampleSubscription paths).queryPairs sampleStreamCrates.toCrates)
  credential := some sampleOwner

/-- A private directory, spelled with a dot segment and without the first slash. -/
theorem credential_matches_scope_sample :
    (sampleSubscription ["pub/../priv/app/".toList]).subscribeInternal sampleStreamCrates.toCrates
        .standard .ok (fun _ => true) = .ok (sampleCall ["pub/../priv/app/".toList]) ∧
    ∃ q, ClientStreamQuery.parse sampleStreamCrates
        (sampleCall ["pub/../priv/app/".toList]).query = .ok q ∧
      EventStreamTenantScope.fromQuery q.paths q.userCursors = .privateSingleTenant sampleOwner := by
  have hsend : (sampleSubscription ["pub/../priv/app/".toList]).subscribeInternal
      sampleStreamCrates.toCrates .standard .ok (fun _ => true) =
        .ok (sampleCall ["pub/../priv/app/".toList]) := by
    decide +kernel
  have hparse : (ClientStreamQuery.parse sampleStreamCrates
      (sampleCall ["pub/../priv/app/".toList]).query).toOption.isSome := by
    decide +kernel
  refine ⟨hsend, ?_⟩
  cases hq : ClientStreamQuery.parse sampleStreamCrates
      (sampleCall ["pub/../priv/app/".toList]).query with
  | error e =>
    rw [hq] at hparse
    cases hparse
  | ok q =>
    have hagree := ((credential_matches_scope streamLawful_sample hsend).1 q hq).1 sampleOwner
    exact ⟨q, rfl, (hagree.1 rfl).2⟩

/-- With a second filter that is no path, the credential is sent and the request is refused. -/
theorem credential_on_refused_request :
    (sampleSubscription ["/priv/app/".toList, "a\\b".toList]).subscribeInternal
        sampleStreamCrates.toCrates .standard .ok (fun _ => true) =
      .ok (sampleCall ["/priv/app/".toList, "a\\b".toList]) ∧
    (sampleCall ["/priv/app/".toList, "a\\b".toList]).credential = some sampleOwner ∧
    ∀ q, ClientStreamQuery.parse sampleStreamCrates
      (sampleCall ["/priv/app/".toList, "a\\b".toList]).query ≠ .ok q := by
  have hparse : (ClientStreamQuery.parse sampleStreamCrates
      (sampleCall ["/priv/app/".toList, "a\\b".toList]).query).toOption.isNone := by
    decide +kernel
  refine ⟨by decide +kernel, rfl, fun q hq => ?_⟩
  rw [hq] at hparse
  cases hparse

end Pubky.Sdk

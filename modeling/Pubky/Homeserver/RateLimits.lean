import Pubky.Homeserver.Quota
import Pubky.Homeserver.Storage.Sample
import Mathlib.Data.List.Sort

/-!
# Limits on the number of requests

* `shared/quota/{path_limit,request_count_quota,limit_key}.rs`: the limits an operator configures.
* `client_server/middleware/rate_limiter/{limiter_pool,request_rate_limit}.rs`: which limits a
  request falls under, and under which key it is counted.

A limit looks at the normalized path of a request on the storage route, and at the raw path on the
deprecated route, although the handler normalizes that one too. So on the deprecated route a path
can be spelled in a way that a limit does not match (`respelled_path_escapes_limit`);
`same_limits_iff` says which requests for one entry fall under the same limits.

The matcher of patterns, the keyed limiters and the type of client addresses are parameters.
-/

namespace Pubky.Homeserver.RateLimits

open Quota (NonZeroU32 TimeUnit)

variable {Addr L : Type}

/-! ## Limits -/

inductive LimitKeyType where
  | user
  | ip
  deriving DecidableEq, Repr

/-- What requests are counted by. -/
inductive LimitKey (Addr : Type) where
  | user (key : PublicKey)
  | ip (address : Addr)
  deriving DecidableEq

def LimitKey.getType : LimitKey Addr → LimitKeyType
  | .user _ => .user
  | .ip _ => .ip

/-- A duration in nanoseconds. -/
def duration : TimeUnit → ℕ
  | .second => 1000000000
  | .minute => 60 * 1000000000
  | .hour => 3600 * 1000000000
  | .day => 24 * 3600 * 1000000000

structure RequestCountQuota where
  rate : NonZeroU32
  timeUnit : TimeUnit
  deriving DecidableEq

/-- A limit on a path for a method. -/
structure PathLimit (Addr : Type) where
  /-- A pattern. -/
  path : Text
  method : Text
  quota : RequestCountQuota
  key : LimitKeyType
  burst : Option NonZeroU32
  whitelist : List (LimitKey Addr)

/-- Why a configured limit is refused. -/
inductive LimitError where
  | whitelistKeyType
  | rateTooHigh (rate : NonZeroU32)

namespace PathLimit

def validate (limit : PathLimit Addr) : Except LimitError Unit :=
  if limit.whitelist.any fun k => k.getType ≠ limit.key then .error .whitelistKeyType else .ok ()

/-- The time after which one more request is allowed, and the number of requests at once;
`governor` refuses a period of zero. -/
def toGovernorQuota (limit : PathLimit Addr) : Except LimitError (ℕ × NonZeroU32) :=
  let period := duration limit.quota.timeUnit / limit.quota.rate.1.toNat
  if period = 0 then .error (.rateTooHigh limit.quota.rate)
  else .ok (period, limit.burst.getD limit.quota.rate)

end PathLimit

/-- `governor`'s keyed limiters: a new one, and the check of a key at a time, which answers with the
nanoseconds to wait if the limit is exceeded. -/
structure Governor (Addr L : Type) where
  keyed : ℕ × NonZeroU32 → L
  checkKey : L → LimitKey Addr → ℕ → Except ℕ Unit × L

/-- A limit with its limiter. -/
structure LimitTuple (Addr L : Type) where
  limit : PathLimit Addr
  limiter : L

def LimitTuple.new (G : Governor Addr L) (limit : PathLimit Addr) :
    Except LimitError (LimitTuple Addr L) := do
  limit.validate
  let quota ← limit.toGovernorQuota
  return ⟨limit, G.keyed quota⟩

/-- The limits of the layer: those over shorter times come first. -/
def fromPathLimits (G : Governor Addr L) (limits : List (PathLimit Addr)) :
    Except LimitError (List (LimitTuple Addr L)) :=
  (limits.insertionSort fun a b => duration a.quota.timeUnit ≤ duration b.quota.timeUnit).mapM
    (LimitTuple.new G)

/-! ## Requests -/

/-- A request as the layer sees it, with the tenant that was resolved before. -/
structure LimitedRequest (Addr : Type) where
  method : Text
  head : RequestHead
  clientIp : Option Addr
  tenant : Option RequestTenant

inductive LimitKeyExtractionError where
  | missingClientAddress
  | missingRequestTenant
  deriving DecidableEq, Repr

namespace LimitTuple

variable (limit : LimitTuple Addr L) (req : LimitedRequest Addr)

def extractKey : Except LimitKeyExtractionError (LimitKey Addr) :=
  match limit.limit.key with
  | .ip => (req.clientIp.map LimitKey.ip).okOr .missingClientAddress
  | .user => (req.tenant.map fun t => LimitKey.user t.publicKey).okOr .missingRequestTenant

/-- The path that limits are matched against. -/
def limitedPath (req : LimitedRequest Addr) : Text :=
  ((req.tenant.bind RequestTenant.storagePath).map StoragePath.asStr).getD req.head.rawPath

def isMatch (glob : Text → Text → Bool) : Bool :=
  glob limit.limit.path (limitedPath req) && limit.limit.method = req.method

end LimitTuple

/-! ## What a request is counted under -/

/-- For every limit, the key that the request is counted under if it falls under the limit. -/
def counted (glob : Text → Text → Bool) (limits : List (LimitTuple Addr L))
    (req : LimitedRequest Addr) : List (Option (Except LimitKeyExtractionError (LimitKey Addr))) :=
  limits.map fun limit => if limit.isMatch req glob then some (limit.extractKey req) else none

/-! ## Spellings -/

/-- The handler of the request addresses the entry, on the storage route or the deprecated one. -/
structure Addresses (C : StorageCrates) (req : LimitedRequest Addr) (route : Route)
    (e : EntryPath) : Prop where
  tenant : RequestTenant.fromRequest C req.head = .ok req.tenant
  matched : matchRoute req.head.rawPath = some route
  target : readTarget C req.tenant route = .ok e ∨ Storage.routeTarget C req.tenant route = .ok e

variable {C : StorageCrates} {req r₁ r₂ : LimitedRequest Addr} {route route₁ route₂ : Route}
  {e : EntryPath} {G : Governor Addr L} {glob : Text → Text → Bool}

/-- How limits see the path of an entry. -/
theorem Addresses.limitedPath_eq (h : Addresses C req route e) (hempty : C.fromZ32 [] = none) :
    LimitTuple.limitedPath req =
      if route = .storage then e.path.asStr else req.head.rawPath := by
  have hpath := storagePath_of_readTarget hempty h.tenant h.matched
    (h.target.elim id Storage.readTarget_of_routeTarget)
  rw [LimitTuple.limitedPath, hpath]
  by_cases hroute : route = .storage <;> simp [hroute]

theorem Addresses.publicKey_eq (h : Addresses C req route e) :
    req.tenant.map RequestTenant.publicKey = some e.pubkey := by
  have htarget := h.target.elim id Storage.readTarget_of_routeTarget
  cases route with
  | storage =>
    obtain ⟨t, ht, htarget⟩ := Except.bind_ok_iff.1 htarget
    obtain ⟨path, -, htarget⟩ := Except.bind_ok_iff.1 htarget
    cases htarget
    rw [Option.okOr_eq_ok.1 ht, Option.map_some]
  | legacy matched =>
    obtain ⟨t, ht, htarget⟩ := Except.bind_ok_iff.1 htarget
    simp only [Except.bind_ok_iff] at htarget
    obtain ⟨decoded, -, path, -, htarget⟩ := htarget
    cases htarget
    rw [Option.okOr_eq_ok.1 ht, Option.map_some]

/-- Requests for files of one user from one address have the same keys. -/
theorem extractKey_eq (hkey : r₁.tenant.map RequestTenant.publicKey =
      r₂.tenant.map RequestTenant.publicKey) (hip : r₁.clientIp = r₂.clientIp)
    (limit : LimitTuple Addr L) : limit.extractKey r₁ = limit.extractKey r₂ := by
  have huser : ∀ r : LimitedRequest Addr, (r.tenant.map fun t => (LimitKey.user t.publicKey :
      LimitKey Addr)) = (r.tenant.map RequestTenant.publicKey).map LimitKey.user :=
    fun r => (Option.map_map ..).symm
  rw [LimitTuple.extractKey, LimitTuple.extractKey, huser, huser, hkey, hip]

/-- A limit on requests with one method for one path. -/
def limitOn (pattern method : Text) : PathLimit Addr :=
  ⟨pattern, method, ⟨⟨1, by decide⟩, .second⟩, .user, none, []⟩

theorem fromPathLimits_limitOn (G : Governor Addr L) (pattern method : Text) :
    ∃ limiter, fromPathLimits G [limitOn pattern method] =
      .ok [⟨limitOn pattern method, limiter⟩] := by
  refine ⟨G.keyed (1000000000, ⟨1, by decide⟩), ?_⟩
  have hquota : (limitOn pattern method : PathLimit Addr).toGovernorQuota =
      .ok (1000000000, ⟨1, by decide⟩) := by
    simp [PathLimit.toGovernorQuota, limitOn, duration]
  have hvalid : (limitOn pattern method : PathLimit Addr).validate = .ok () := rfl
  simp only [fromPathLimits, List.insertionSort_cons, List.insertionSort_nil, List.orderedInsert_nil,
    List.mapM_cons, List.mapM_nil, LimitTuple.new, hvalid, hquota]
  rfl

/-- Two requests for one entry, with the same method and from the same address, are counted alike
under all limits exactly if the limits see the same path: the normalized one on the storage route,
the one that was sent on the deprecated route. -/
theorem same_limits_iff (hglob : ∀ t, ∃ pattern, ∀ u, glob pattern u = true ↔ u = t)
    (hempty : C.fromZ32 [] = none) (h₁ : Addresses C r₁ route₁ e) (h₂ : Addresses C r₂ route₂ e)
    (hmethod : r₁.method = r₂.method) (hip : r₁.clientIp = r₂.clientIp) :
    (∀ limits layer, fromPathLimits G limits = .ok layer →
      counted glob layer r₁ = counted glob layer r₂) ↔
    (if route₁ = .storage then e.path.asStr else r₁.head.rawPath) =
      if route₂ = .storage then e.path.asStr else r₂.head.rawPath := by
  have hkey := extractKey_eq (L := L) (h₁.publicKey_eq.trans h₂.publicKey_eq.symm) hip
  rw [← h₁.limitedPath_eq hempty, ← h₂.limitedPath_eq hempty]
  constructor
  · intro hsame
    -- a limit on exactly the path of the first request
    obtain ⟨pattern, hpattern⟩ := hglob (LimitTuple.limitedPath r₁)
    obtain ⟨limiter, hlayer⟩ := fromPathLimits_limitOn G pattern r₁.method
    have hcounted := hsame _ _ hlayer
    have hmatch₁ : (⟨limitOn pattern r₁.method, limiter⟩ : LimitTuple Addr L).isMatch r₁ glob =
        true := by
      simp [LimitTuple.isMatch, limitOn, hpattern]
    by_contra hne
    have hmatch₂ : (⟨limitOn pattern r₁.method, limiter⟩ : LimitTuple Addr L).isMatch r₂ glob =
        false := by
      simp [LimitTuple.isMatch, limitOn, Bool.eq_false_iff.2 fun h => hne ((hpattern _).1 h).symm]
    simp [counted, hmatch₁, hmatch₂] at hcounted
  · intro hpath limits layer _
    refine List.map_congr_left fun limit _ => ?_
    have hmatch : limit.isMatch r₁ glob = limit.isMatch r₂ glob := by
      rw [LimitTuple.isMatch, LimitTuple.isMatch, hpath, hmethod]
    rw [hmatch, hkey limit]

/-! ## Samples -/

/-- A limiter that nothing exceeds. -/
def boundless : Governor ℕ Unit := ⟨fun _ => (), fun limiter _ _ => (.ok (), limiter)⟩

/-- What the matcher does with patterns that have no special characters. -/
def literally (pattern path : Text) : Bool := pattern = path

open Storage.Sample

/-- Alice's file is asked for on the deprecated route. -/
def legacyGet (rawPath : String) : LimitedRequest ℕ where
  method := "GET".toList
  head := ⟨rawPath.toList, none, ⟨[("pubky-host".toList, some alice.z32)]⟩⟩
  clientIp := some 0x7f000001
  tenant := some (.legacy alice)

/-- Alice's file is asked for on the storage route. -/
def storageGet (path : String) : LimitedRequest ℕ where
  method := "GET".toList
  head := ⟨"/storage/".toList ++ keyOf alice path, none, ⟨[]⟩⟩
  clientIp := some 0x7f000001
  tenant := some ⟨alice, some aliceFile.path⟩

theorem legacyGet_addresses :
    Addresses decodingCrates (legacyGet "/pub/a") (.legacy "pub/a".toList) aliceFile :=
  ⟨by decide +kernel, by decide +kernel, .inl (by decide +kernel)⟩

/-- However the path of a request on the storage route is spelled, it falls under the limits on the
normalized path. -/
theorem same_limits_sample :
    ∃ layer, fromPathLimits boundless [limitOn "/pub/a".toList "GET".toList] = .ok layer ∧
      counted literally layer (storageGet "/pub/%2E/%61") =
        counted literally layer (legacyGet "/pub/a") := by
  have hstorage : Addresses decodingCrates (storageGet "/pub/%2E/%61") .storage aliceFile :=
    ⟨by decide +kernel, by decide +kernel, .inl (by decide +kernel)⟩
  obtain ⟨limiter, hlayer⟩ := fromPathLimits_limitOn boundless "/pub/a".toList "GET".toList
  refine ⟨_, hlayer, (same_limits_iff (fun t => ⟨t, fun u => ?_⟩) (by decide +kernel) hstorage
    legacyGet_addresses rfl rfl).2 rfl _ _ hlayer⟩
  rw [literally, decide_eq_true_eq, eq_comm]

/-- A limit on `/pub/a` does not match `/pub/%61`, which is the same file. -/
theorem respelled_path_escapes_limit :
    Addresses decodingCrates (legacyGet "/pub/a") (.legacy "pub/a".toList) aliceFile ∧
    Addresses decodingCrates (legacyGet "/pub/%61") (.legacy "pub/%61".toList) aliceFile ∧
    ∃ layer, fromPathLimits boundless [limitOn "/pub/a".toList "GET".toList] = .ok layer ∧
      counted literally layer (legacyGet "/pub/a") = [some (.ok (.user alice))] ∧
      counted literally layer (legacyGet "/pub/%61") = [none] := by
  refine ⟨legacyGet_addresses, ⟨by decide +kernel, by decide +kernel, .inl (by decide +kernel)⟩, ?_⟩
  obtain ⟨limiter, hlayer⟩ := fromPathLimits_limitOn boundless "/pub/a".toList "GET".toList
  exact ⟨_, hlayer, rfl, rfl⟩

end Pubky.Homeserver.RateLimits

import Pubky.Homeserver.RateLimits
import Pubky.Lib.Transitions

/-!
# Bandwidth limits

`client_server/middleware/rate_limiter/{limiter_pool,throttle,bandwidth_rate_limit}.rs` and
`shared/quota/bandwidth_quota.rs`: users of one rate and burst share a limiter, which the pool of
their direction creates on demand; the throttled bodies of a request keep a handle to the limiter
that the pool gave to the request; a background task of the pool visits its entries, lets every
limiter forget the keys that have recovered, and drops the limiters that are empty then.

The layer has a state for each service that it is applied to, and a router applies it to each of its
routes; the services are a parameter.

The system is a step function: requests, the streams of any number of bodies, the clean-up tasks and
the clock interleave freely. `DashMap::retain` keeps the shard of the entry it looks at locked, so
`get_or_create` of that entry waits; the bodies, which have their handles, do not.

`governor` is a parameter (`Governor`); `Governor.AsSpecified` is what its documentation says.
-/

namespace Pubky.Homeserver

/-! ## Quotas -/

namespace Quota

open RateLimits (duration)

def SpeedRateUnit.kilobytes : SpeedRateUnit → UInt32
  | .kilobyte => 1
  | .megabyte => 1024
  | .gigabyte => 1024 * 1024

theorem SpeedRateUnit.kilobytes_ne_zero (unit : SpeedRateUnit) : unit.kilobytes ≠ 0 := by
  cases unit <;> decide

/-- The kilobytes of a unit. -/
def SpeedRateUnit.multiplier (unit : SpeedRateUnit) : NonZeroU32 :=
  ⟨unit.kilobytes, unit.kilobytes_ne_zero⟩

/-- `governor::Quota`: a cell every so many nanoseconds, and a number of cells at once. -/
structure GovernorQuota where
  replenish1Per : ℕ
  maxBurst : NonZeroU32
  deriving DecidableEq

/-- `u32::saturating_mul` -/
def saturatingMul (a b : UInt32) : UInt32 :=
  UInt32.ofNat (min (a.toNat * b.toNat) (2 ^ 32 - 1))

/-- The quota in cells of a kilobyte. A release build multiplies modulo `2 ^ 32`; `none` is a
panic, for a number of cells that is zero or an interval that is. -/
def BandwidthQuota.toGovernorQuota (b : BandwidthQuota) (burstOverride : Option NonZeroU32) :
    Option GovernorQuota :=
  let rateCells := b.rate.1 * b.unit.multiplier.1
  if h : rateCells ≠ 0 then
    let replenish1Per := duration b.timeUnit / rateCells.toNat
    if replenish1Per = 0 then none
    else
      match burstOverride with
      | some n =>
        let burstCells := saturatingMul n.1 b.unit.multiplier.1
        some ⟨replenish1Per, if h' : burstCells ≠ 0 then ⟨burstCells, h'⟩ else ⟨rateCells, h⟩⟩
      | none => some ⟨replenish1Per, ⟨rateCells, h⟩⟩
  else none

end Quota

namespace Bandwidth

open Quota
open RateLimits (LimitKey)

variable {S K Svc Addr : Type}

/-! ## Limiters -/

/-- `RateLimiter` with the states of its keys. -/
structure KeyedRateLimiter (S K : Type) where
  quota : GovernorQuota
  store : List (K × S)
  nodup : (store.map Prod.fst).Nodup

namespace KeyedRateLimiter

/-- `RateLimiter::keyed` -/
def keyed (quota : GovernorQuota) : KeyedRateLimiter S K := ⟨quota, [], List.nodup_nil⟩

variable [DecidableEq K] (l : KeyedRateLimiter S K) (k : K)

end KeyedRateLimiter

/-! ## The state of the layer -/

/-- Reads or writes, by the method of the request. -/
inductive Direction where
  | read
  | write
  deriving DecidableEq, Repr

/-- The pool of a direction of a service. -/
structure PoolId (Svc : Type) where
  service : Svc
  direction : Direction
  deriving DecidableEq

/-- The key of a pool: rate and burst override. -/
abbrev SpeedLimitKey := BandwidthQuota × Option NonZeroU32

/-- A handle to a limiter: the one created as the `n`-th for an entry of a pool, or the one for the
requests without a user. -/
inductive Handle (Svc : Type) where
  | pooled (p : PoolId Svc) (k : SpeedLimitKey) (n : ℕ)
  | unauthenticated (service : Svc)
  deriving DecidableEq

/-- What a body is throttled by. -/
structure Throttler (Svc Addr : Type) where
  key : LimitKey Addr
  limiter : Handle Svc

/-- A request in the layer: before or after its body was handed on. -/
structure Request (Svc Addr : Type) where
  direction : Direction
  throttler : Option (Throttler Svc Addr)
  called : Bool

/-- A throttled body: what its stream has yielded, what has been passed on, the chunk in between
with the number of cells it still needs. -/
structure ThrottledBody (Svc Addr : Type) where
  direction : Direction
  throttler : Throttler Svc Addr
  input : List (Except Text Bytes)
  output : List (Except Text Bytes)
  current : Option (Bytes × ℕ)
  isOpen : Bool

/-- A cell that was granted. -/
structure Grant (Addr : Type) where
  time : ℕ
  body : ℕ
  direction : Direction
  key : LimitKey Addr

/-- The clean-up task of a pool: between two entries, after `retain_recent` of the limiter of an
entry, or with the verdict about it. -/
inductive Cleaner where
  | idle
  | swept (k : SpeedLimitKey)
  | judged (k : SpeedLimitKey) (empty : Bool)
  deriving DecidableEq

structure State (S Svc Addr : Type) where
  /-- nanoseconds -/
  clock : ℕ
  limiters : Handle Svc → Option (KeyedRateLimiter S (LimitKey Addr))
  /-- How many limiters were created for an entry. -/
  created : PoolId Svc → SpeedLimitKey → ℕ
  /-- The limiter of an entry, by its number. -/
  pool : PoolId Svc → SpeedLimitKey → Option ℕ
  cleaner : PoolId Svc → Cleaner
  requests : ℕ → Option (Request Svc Addr)
  bodies : ℕ → Option (ThrottledBody Svc Addr)
  /-- newest first -/
  grants : List (Grant Addr)

/-- Server defaults. -/
structure DefaultQuotasToml where
  rateRead : Option BandwidthQuota
  rateWrite : Option BandwidthQuota
  rateReadBurst : Option NonZeroU32
  rateWriteBurst : Option NonZeroU32
  unauthenticatedIpRateRead : Option BandwidthQuota

/-- What the layer looks at in a request. -/
structure RequestInfo (Addr : Type) where
  method : Text
  userPubkey : Option PublicKey
  clientIp : Option Addr
  hasTenant : Bool

def isWriteMethod (method : Text) : Bool :=
  ["PUT", "POST", "PATCH", "DELETE"].any (·.toList = method)

def RequestInfo.direction (info : RequestInfo Addr) : Direction :=
  if isWriteMethod info.method then .write else .read

/-- The rate and burst of a user in a direction: their own, or the server's. -/
def resolvedRate (defaults : DefaultQuotasToml) (quota : UserQuota) :
    Direction → Option BandwidthQuota × Option NonZeroU32
  | .write => (quota.rateWrite.resolveWithDefault defaults.rateWrite,
      quota.rateWriteBurst.or defaults.rateWriteBurst)
  | .read => (quota.rateRead.resolveWithDefault defaults.rateRead,
      quota.rateReadBurst.or defaults.rateReadBurst)

namespace State

/-- `BandwidthState::new` for each service; `none` if the rate for requests without a user
panics. -/
def new (defaults : DefaultQuotasToml) (clock : ℕ) : Option (State S Svc Addr) :=
  let empty : State S Svc Addr :=
    { clock, limiters := fun _ => none, created := fun _ _ => 0, pool := fun _ _ => none
      cleaner := fun _ => .idle, requests := fun _ => none, bodies := fun _ => none, grants := [] }
  match defaults.unauthenticatedIpRateRead with
  | none => some empty
  | some rate =>
    (rate.toGovernorQuota none).map fun quota =>
      { empty with
        limiters
          | .unauthenticated _ => some (.keyed quota)
          | .pooled _ _ _ => none }

variable (s : State S Svc Addr)

/-- The clean-up task holds the lock on an entry of its pool. -/
def locked (p : PoolId Svc) (k : SpeedLimitKey) : Bool :=
  match s.cleaner p with
  | .idle => false
  | .swept k' => k' = k
  | .judged k' _ => k' = k

/-- The throttler for requests without a known user. -/
def ipThrottler (service : Svc) (clientIp : Option Addr) :
    Except HttpError (Option (Throttler Svc Addr)) :=
  match s.limiters (.unauthenticated service) with
  | none => .ok none
  | some _ =>
    match clientIp with
    | none => .error (.newWithMessage 500 "Missing client address for rate limiting".toList)
    | some ip => .ok (some ⟨.ip ip, .unauthenticated service⟩)

def setEntry [DecidableEq Svc] (p : PoolId Svc) (k : SpeedLimitKey) (n : Option ℕ) :
    State S Svc Addr :=
  { s with pool := Function.update s.pool p (Function.update (s.pool p) k n) }

def setLimiter [DecidableEq Svc] (h : Handle Svc) (l : KeyedRateLimiter S (LimitKey Addr)) :
    State S Svc Addr :=
  { s with limiters := Function.update s.limiters h (some l) }

variable [DecidableEq Svc]

/-- A limiter is created for an entry. -/
def create (p : PoolId Svc) (k : SpeedLimitKey) (quota : GovernorQuota) : State S Svc Addr :=
  { (s.setEntry p k (some (s.created p k))).setLimiter (.pooled p k (s.created p k))
      (.keyed quota) with
    created := Function.update s.created p (Function.update (s.created p) k (s.created p k + 1)) }

/-- `LimiterPool::get_or_create`; `none` while the entry is locked, or for a panic. -/
def getOrCreate (p : PoolId Svc) (k : SpeedLimitKey) : Option (ℕ × State S Svc Addr) :=
  if s.locked p k then none
  else
    match s.pool p k with
    | some n => some (n, s)
    | none => (k.1.toGovernorQuota k.2).map fun quota => (s.created p k, s.create p k quota)

/-- Which throttler applies to a request, given what `resolve_quota` answers for its user. -/
def resolveBandwidthThrottler (defaults : DefaultQuotasToml) (service : Svc)
    (info : RequestInfo Addr) (quota : Except Text (Option UserQuota)) :
    Option (Except HttpError (Option (Throttler Svc Addr)) × State S Svc Addr) :=
  match info.userPubkey, quota with
  | none, _ => some (s.ipThrottler service info.clientIp, s)
  | some _, .error _ =>
    some (.error (.newWithMessage 500 "Failed to resolve user limits".toList), s)
  | some _, .ok none => some (s.ipThrottler service info.clientIp, s)
  | some pubkey, .ok (some quota) =>
    match resolvedRate defaults quota info.direction with
    | (none, _) => some (.ok none, s)
    | (some rate, burst) =>
      (s.getOrCreate ⟨service, info.direction⟩ (rate, burst)).map fun (n, s') =>
        (.ok (some ⟨.user pubkey, .pooled ⟨service, info.direction⟩ (rate, burst) n⟩), s')

end State

end Bandwidth

end Pubky.Homeserver

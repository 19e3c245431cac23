import Pubky.Homeserver.Bandwidth.Throttle

/-!
# The limits that are reported and the limits that are enforced

`BandwidthQuota::to_governor_quota` counts kilobytes in 32 bits and nanoseconds per kilobyte, so not
every rate that can be written can be enforced (`rate_enforced_iff`).

The admin API reports the limits of a user by `UserQuota::resolve_with_defaults`, the rate limiter
resolves them on its own in `resolve_bandwidth_throttler`. The two agree unless a user with a rate
of their own has no burst of their own while the server has a default burst (`limits_agree_iff`).
-/

namespace Pubky.Homeserver

/-- `UserQuota::resolve_with_defaults` for one field -/
def Storage.QuotaOverride.resolved {α : Type} (field : QuotaOverride α) (default : Option α) :
    QuotaOverride α :=
  match field with
  | .default =>
    match default with
    | some v => .value v
    | none => .unlimited
  | other => other

def Storage.QuotaOverride.isDefault {α : Type} : QuotaOverride α → Bool
  | .default => true
  | _ => false

namespace Bandwidth

open Quota
open RateLimits (duration)
open Storage (QuotaOverride)

/-! ## Rates that can be enforced -/

section Rates

variable {k : SpeedLimitKey} {q : GovernorQuota}

/-- The configured rate: kilobytes for each unit of time. -/
def rateCells (k : SpeedLimitKey) : ℕ := k.1.rate.1.toNat * k.1.unit.multiplier.1.toNat

theorem toNat_pos (n : NonZeroU32) : 0 < n.1.toNat :=
  Nat.pos_of_ne_zero fun h => n.2 (UInt32.toNat_inj.1 h)

theorem rateCells_pos (k : SpeedLimitKey) : 0 < rateCells k :=
  Nat.mul_pos (toNat_pos _) (toNat_pos _)

/-- What is computed in 32 bits. -/
theorem toNat_wrappedCells (k : SpeedLimitKey) :
    (k.1.rate.1 * k.1.unit.multiplier.1).toNat = rateCells k % 2 ^ 32 :=
  UInt32.toNat_mul _ _

theorem toGovernorQuota_eq_some (h : k.1.toGovernorQuota k.2 = some q) :
    q.replenish1Per = duration k.1.timeUnit / (rateCells k % 2 ^ 32) ∧ q.replenish1Per ≠ 0 := by
  simp only [BandwidthQuota.toGovernorQuota, toNat_wrappedCells] at h
  split at h
  · split at h
    · cases h
    · rename_i hper
      split at h
      · cases h
        exact ⟨rfl, hper⟩
      · cases h
        exact ⟨rfl, hper⟩
  · cases h

/-- A rate within the range of the counter and with at least a nanosecond for each cell. -/
theorem exists_toGovernorQuota (hfits : rateCells k < 2 ^ 32)
    (hper : rateCells k ≤ duration k.1.timeUnit) : ∃ q, k.1.toGovernorQuota k.2 = some q := by
  have hcells : k.1.rate.1 * k.1.unit.multiplier.1 ≠ 0 := by
    intro h
    have hzero := toNat_wrappedCells k
    rw [h, Nat.mod_eq_of_lt hfits] at hzero
    exact absurd hzero.symm (rateCells_pos k).ne'
  have hinterval : duration k.1.timeUnit / (k.1.rate.1 * k.1.unit.multiplier.1).toNat ≠ 0 := by
    rw [toNat_wrappedCells, Nat.mod_eq_of_lt hfits]
    exact (Nat.div_pos hper (rateCells_pos k)).ne'
  simp only [BandwidthQuota.toGovernorQuota, dif_pos hcells, if_neg hinterval]
  cases k.2 with
  | none => exact ⟨_, rfl⟩
  | some n => exact ⟨_, rfl⟩

/-- The interval of the wrapped number of cells is too long for the real one. -/
theorem rateCells_lt_of_replenish (hq : k.1.toGovernorQuota k.2 = some q)
    (hle : rateCells k * q.replenish1Per ≤ duration k.1.timeUnit) : rateCells k < 2 ^ 32 := by
  obtain ⟨hper, hpos⟩ := toGovernorQuota_eq_some hq
  refine Nat.lt_of_not_le fun hover => ?_
  have hwrapped : rateCells k % 2 ^ 32 + 2 ^ 32 ≤ rateCells k := by omega
  have hpos' : 0 < rateCells k % 2 ^ 32 := by
    refine Nat.pos_of_ne_zero fun hzero => hpos ?_
    rw [hper, hzero, Nat.div_zero]
  have hlt : duration k.1.timeUnit < (rateCells k % 2 ^ 32) * (q.replenish1Per + 1) := by
    rw [hper]
    exact Nat.lt_mul_div_succ _ hpos'
  have hge : (rateCells k % 2 ^ 32 + 2 ^ 32) * q.replenish1Per ≤ duration k.1.timeUnit :=
    (Nat.mul_le_mul_right _ hwrapped).trans hle
  have hmod : rateCells k % 2 ^ 32 < 2 ^ 32 := Nat.mod_lt _ (by decide)
  have hbig : 2 ^ 32 * 1 ≤ 2 ^ 32 * q.replenish1Per :=
    Nat.mul_le_mul_left _ (Nat.pos_of_ne_zero hpos)
  rw [Nat.add_mul] at hge
  rw [Nat.mul_add] at hlt
  omega

/-- A rate is enforced, up to the whole nanoseconds of its interval, exactly if its kilobytes fit
into 32 bits and a kilobyte takes at least a nanosecond. -/
theorem rate_enforced_iff (k : SpeedLimitKey) :
    (∃ q, k.1.toGovernorQuota k.2 = some q ∧
        rateCells k * q.replenish1Per ≤ duration k.1.timeUnit ∧
        duration k.1.timeUnit < rateCells k * (q.replenish1Per + 1)) ↔
      rateCells k < 2 ^ 32 ∧ rateCells k ≤ duration k.1.timeUnit := by
  constructor
  · rintro ⟨q, hq, hle, -⟩
    have hone : 1 ≤ q.replenish1Per := Nat.pos_of_ne_zero (toGovernorQuota_eq_some hq).2
    refine ⟨rateCells_lt_of_replenish hq hle, ?_⟩
    calc rateCells k = rateCells k * 1 := (Nat.mul_one _).symm
      _ ≤ rateCells k * q.replenish1Per := Nat.mul_le_mul_left _ hone
      _ ≤ duration k.1.timeUnit := hle
  · rintro ⟨hfits, hper⟩
    obtain ⟨q, hq⟩ := exists_toGovernorQuota hfits hper
    obtain ⟨hinterval, -⟩ := toGovernorQuota_eq_some hq
    rw [Nat.mod_eq_of_lt hfits] at hinterval
    refine ⟨q, hq, ?_, ?_⟩
    · rw [hinterval]
      exact Nat.mul_div_le _ _
    · rw [hinterval]
      exact Nat.lt_mul_div_succ _ (rateCells_pos k)

/-- Rates that parse: `4096gb/s` is a multiple of the counter's range and panics, `4097gb/s` is
enforced as `1gb/s`, and with `2000000000kb/s` the interval of a kilobyte is zero, which panics. -/
theorem accepted_rates_not_enforced :
    ((BandwidthQuota.fromStr "4096gb/s".toList).toOption.map fun b => b.toGovernorQuota none) =
        some none ∧
      ((BandwidthQuota.fromStr "4097gb/s".toList).toOption.map fun b => b.toGovernorQuota none) =
        ((BandwidthQuota.fromStr "1gb/s".toList).toOption.map fun b => b.toGovernorQuota none) ∧
      ((BandwidthQuota.fromStr "2000000000kb/s".toList).toOption.map
        fun b => b.toGovernorQuota none) = some none := by
  decide +kernel

end Rates

/-! ## Limits of users -/

/-- The rate of a user in a direction. -/
def rateIn (quota : UserQuota) : Direction → QuotaOverride BandwidthQuota
  | .read => quota.rateRead
  | .write => quota.rateWrite

/-- The burst of a user in a direction. -/
def burstIn (quota : UserQuota) : Direction → Option NonZeroU32
  | .read => quota.rateReadBurst
  | .write => quota.rateWriteBurst

/-- The burst of the server in a direction. -/
def DefaultQuotasToml.burstIn (defaults : DefaultQuotasToml) : Direction → Option NonZeroU32
  | .read => defaults.rateReadBurst
  | .write => defaults.rateWriteBurst

/-- The rate of the server in a direction. -/
def DefaultQuotasToml.rateIn (defaults : DefaultQuotasToml) : Direction → Option BandwidthQuota
  | .read => defaults.rateRead
  | .write => defaults.rateWrite

def resolveWithDefaults (quota : UserQuota) (defaultStorageMb : Option UInt64)
    (defaultQuotas : DefaultQuotasToml) : UserQuota where
  storageQuotaMb := quota.storageQuotaMb.resolved defaultStorageMb
  rateRead := quota.rateRead.resolved defaultQuotas.rateRead
  rateWrite := quota.rateWrite.resolved defaultQuotas.rateWrite
  rateReadBurst := quota.rateReadBurst.or
    (if quota.rateRead.isDefault then defaultQuotas.rateReadBurst else none)
  rateWriteBurst := quota.rateWriteBurst.or
    (if quota.rateWrite.isDefault then defaultQuotas.rateWriteBurst else none)
  allowedWritePaths := quota.allowedWritePaths

/-- A rate, and a burst in its unit. -/
abbrev Limit := BandwidthQuota × NonZeroU32

/-- A burst that is not given is that of the rate. -/
def limitOf (k : SpeedLimitKey) : Limit := (k.1, k.2.getD k.1.rate)

/-- The limit that a resolved quota states for a direction. -/
def statedLimit (quota : UserQuota) (d : Direction) : Option Limit :=
  match rateIn quota d with
  | .value rate => some (limitOf (rate, burstIn quota d))
  | _ => none

variable {S Svc Addr : Type} {s s' : State S Svc Addr} {defaults : DefaultQuotasToml}
  {quota : UserQuota} {d : Direction}

/-- The limit of the limiter that a throttler has. -/
def Throttler.limit (t : Throttler Svc Addr) : Option Limit :=
  match t.limiter with
  | .pooled _ k _ => some (limitOf k)
  | .unauthenticated _ => none

theorem resolvedRate_eq (defaults : DefaultQuotasToml) (quota : UserQuota) (d : Direction) :
    resolvedRate defaults quota d =
      ((rateIn quota d).resolveWithDefault (defaults.rateIn d),
        (burstIn quota d).or (defaults.burstIn d)) := by
  cases d <;> rfl

theorem rateIn_resolveWithDefaults (quota : UserQuota) (defaultStorageMb : Option UInt64)
    (defaults : DefaultQuotasToml) (d : Direction) :
    rateIn (resolveWithDefaults quota defaultStorageMb defaults) d =
      (rateIn quota d).resolved (defaults.rateIn d) := by
  cases d <;> rfl

theorem burstIn_resolveWithDefaults (quota : UserQuota) (defaultStorageMb : Option UInt64)
    (defaults : DefaultQuotasToml) (d : Direction) :
    burstIn (resolveWithDefaults quota defaultStorageMb defaults) d =
      (burstIn quota d).or (if (rateIn quota d).isDefault then defaults.burstIn d else none) := by
  cases d <;> rfl

theorem statedLimit_resolveWithDefaults (quota : UserQuota) (defaultStorageMb : Option UInt64)
    (defaults : DefaultQuotasToml) (d : Direction) :
    statedLimit (resolveWithDefaults quota defaultStorageMb defaults) d =
      ((rateIn quota d).resolveWithDefault (defaults.rateIn d)).map fun rate =>
        limitOf (rate, (burstIn quota d).or
          (if (rateIn quota d).isDefault then defaults.burstIn d else none)) := by
  rw [statedLimit, rateIn_resolveWithDefaults, burstIn_resolveWithDefaults]
  cases rateIn quota d with
  | default => cases defaults.rateIn d <;> rfl
  | unlimited => rfl
  | value rate => rfl

section

variable [DecidableEq Svc] {service : Svc} {info : RequestInfo Addr} {pubkey : PublicKey}
  {throttler : Option (Throttler Svc Addr)}

/-- The limit of the limiter that a request of a known user gets. -/
theorem limit_of_resolveBandwidthThrottler (huser : info.userPubkey = some pubkey)
    (h : s.resolveBandwidthThrottler defaults service info (.ok (some quota)) =
      some (.ok throttler, s')) :
    throttler.bind Throttler.limit =
      ((rateIn quota info.direction).resolveWithDefault (defaults.rateIn info.direction)).map
        fun rate => limitOf (rate, (burstIn quota info.direction).or
          (defaults.burstIn info.direction)) := by
  simp only [State.resolveBandwidthThrottler, huser, resolvedRate_eq] at h
  split at h
  · rename_i heq
    obtain ⟨hrate, -⟩ := Prod.mk.inj heq
    obtain ⟨rfl, -⟩ : none = throttler ∧ _ := by simpa using h
    rw [hrate]
    rfl
  · rename_i rate burst heq
    obtain ⟨hrate, rfl⟩ := Prod.mk.inj heq
    obtain ⟨⟨n, s₁⟩, -, hlimiter⟩ := Option.map_eq_some_iff.1 h
    obtain ⟨rfl, -⟩ : some _ = throttler ∧ _ := by simpa using hlimiter
    rw [hrate]
    rfl

/-- The limit that is enforced for a user is the one that is reported, except for a user with a rate
and no burst of their own on a server with another default burst. -/
theorem limits_agree_iff (huser : info.userPubkey = some pubkey)
    (h : s.resolveBandwidthThrottler defaults service info (.ok (some quota)) =
      some (.ok throttler, s')) (defaultStorageMb : Option UInt64) :
    throttler.bind Throttler.limit =
        statedLimit (resolveWithDefaults quota defaultStorageMb defaults) info.direction ↔
      ∀ rate burst, rateIn quota info.direction = .value rate →
        burstIn quota info.direction = none →
        defaults.burstIn info.direction = some burst → burst = rate.rate := by
  rw [limit_of_resolveBandwidthThrottler huser h, statedLimit_resolveWithDefaults]
  cases rateIn quota info.direction with
  | default =>
    exact ⟨fun _ _ _ hrate => (nomatch hrate), fun _ => rfl⟩
  | unlimited => exact ⟨fun _ _ _ hrate => (nomatch hrate), fun _ => rfl⟩
  | value rate =>
    cases burstIn quota info.direction with
    | some burst => exact ⟨fun _ _ _ _ hburst => (nomatch hburst), fun _ => rfl⟩
    | none =>
      cases defaults.burstIn info.direction with
      | none => exact ⟨fun _ _ _ _ _ hburst => (nomatch hburst), fun _ => rfl⟩
      | some burst =>
        simp [QuotaOverride.resolveWithDefault, QuotaOverride.isDefault, limitOf]

end

theorem ten_ne_zero : (10 : UInt32) ≠ 0 := by decide

/-- Ten megabytes per second for reading, and no burst of their own. -/
def ownRate : UserQuota :=
  { UserQuota.default with rateRead := .value ⟨⟨10, ten_ne_zero⟩, .megabyte, .second⟩ }

/-- Five megabytes per second for reading, with a burst of a hundred megabytes. -/
def serverBurst : DefaultQuotasToml where
  rateRead := some ⟨⟨5, by decide⟩, .megabyte, .second⟩
  rateWrite := none
  rateReadBurst := some ⟨100, by decide⟩
  rateWriteBurst := none
  unauthenticatedIpRateRead := none

/-- A download of alice. -/
def userDownload : RequestInfo Unit := ⟨"GET".toList, some Storage.Sample.alice, none, true⟩

theorem limits_agree_by_default : ∃ s s' : State ℕ Unit Unit, ∃ throttler,
    State.new serverBurst 0 = some s ∧
    s.resolveBandwidthThrottler serverBurst () userDownload (.ok (some .default)) =
      some (.ok throttler, s') ∧
    throttler.bind Throttler.limit =
      statedLimit (resolveWithDefaults .default none serverBurst) userDownload.direction := by
  obtain ⟨s, hnew, s', throttler, h⟩ : ∃ s : State ℕ Unit Unit, State.new serverBurst 0 = some s ∧
      ∃ s' throttler, s.resolveBandwidthThrottler serverBurst () userDownload
        (.ok (some .default)) = some (.ok throttler, s') := ⟨_, rfl, _, _, rfl⟩
  exact ⟨s, s', throttler, hnew, h, (limits_agree_iff rfl h none).2 fun _ _ hrate => nomatch hrate⟩

/-- The user gets ten megabytes per second with the burst of the server, a hundred megabytes; the
report says a burst of ten. -/
theorem server_burst_enforced : ∃ s s' : State ℕ Unit Unit, ∃ throttler,
    State.new serverBurst 0 = some s ∧
    s.resolveBandwidthThrottler serverBurst () userDownload (.ok (some ownRate)) =
      some (.ok throttler, s') ∧
    throttler.bind Throttler.limit =
      some (⟨⟨10, by decide⟩, .megabyte, .second⟩, ⟨100, by decide⟩) ∧
    statedLimit (resolveWithDefaults ownRate none serverBurst) userDownload.direction =
      some (⟨⟨10, by decide⟩, .megabyte, .second⟩, ⟨10, by decide⟩) :=
  ⟨_, _, _, rfl, rfl, rfl, rfl⟩

end Bandwidth

end Pubky.Homeserver

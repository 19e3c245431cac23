import Pubky.Homeserver.Storage.Entities

/-!
# Quotas of users

`shared/quota/{user_quota,bandwidth_quota,rate_unit,time_unit}.rs`: what an operator sets for a
user, the texts of bandwidths, the checks before a quota is stored, and the six columns of the
tables `users` and `signup_codes` that hold it.
-/

namespace Pubky.Homeserver.Quota

open Storage (QuotaOverride)

/-! ## Bandwidths -/

abbrev NonZeroU32 := { n : UInt32 // n ≠ 0 }

inductive SpeedRateUnit where
  | kilobyte
  | megabyte
  | gigabyte
  deriving DecidableEq, Repr

namespace SpeedRateUnit

def toText : SpeedRateUnit → Text
  | kilobyte => "kb".toList
  | megabyte => "mb".toList
  | gigabyte => "gb".toList

/-- `char::to_lowercase`, as far as the result is a letter of ASCII: besides the capital letters
that is the Kelvin sign. -/
def toLowercase (c : Char) : Char :=
  if c = Char.ofNat 0x212A then 'k' else c.toLower

def fromStr (s : Text) : Except Text SpeedRateUnit :=
  match s.map toLowercase with
  | ['k', 'b'] => .ok kilobyte
  | ['m', 'b'] => .ok megabyte
  | ['g', 'b'] => .ok gigabyte
  | _ => .error ("Invalid speed rate unit: ".toList ++ s)

theorem fromStr_toText (u : SpeedRateUnit) : fromStr u.toText = .ok u := by
  cases u <;> rfl

end SpeedRateUnit

inductive TimeUnit where
  | second
  | minute
  | hour
  | day
  deriving DecidableEq, Repr

namespace TimeUnit

def toText : TimeUnit → Text
  | second => ['s']
  | minute => ['m']
  | hour => ['h']
  | day => ['d']

def fromStr : Text → Except Text TimeUnit
  | ['s'] => .ok second
  | ['m'] => .ok minute
  | ['h'] => .ok hour
  | ['d'] => .ok day
  | s => .error ("Invalid time unit: ".toList ++ s)

theorem fromStr_toText (u : TimeUnit) : fromStr u.toText = .ok u := by
  cases u <;> rfl

end TimeUnit

structure BandwidthQuota where
  rate : NonZeroU32
  unit : SpeedRateUnit
  timeUnit : TimeUnit
  deriving DecidableEq

/-- `NonZeroU32::from_str` -/
def parseNonZero (s : Text) : Option NonZeroU32 := do
  let n ← Text.parseUnsigned 32 s
  if h : UInt32.ofNat n ≠ 0 then some ⟨UInt32.ofNat n, h⟩ else none

namespace BandwidthQuota

def toText (b : BandwidthQuota) : Text :=
  Nat.toDigits 10 b.rate.1.toNat ++ b.unit.toText ++ '/' :: b.timeUnit.toText

def fromStr (s : Text) : Except Text BandwidthQuota :=
  match s.splitOn '/' with
  | [rateWithUnit, time] => do
    let timeUnit ← TimeUnit.fromStr time
    let rateStr := rateWithUnit.takeWhile Char.isDigit
    let unitStr := rateWithUnit.dropWhile Char.isDigit
    if rateStr = [] then
      .error ("Missing rate value in '".toList ++ rateWithUnit ++ ['\''])
    else
      let rate ← (parseNonZero rateStr).okOr
        ("Failed to parse rate from '".toList ++ rateStr ++ ['\''])
      let unit ← (SpeedRateUnit.fromStr unitStr).mapError fun _ =>
        "BandwidthQuota does not accept '".toList ++ unitStr ++ ("' as a unit. Use a bandwidth " ++
          "unit (kb, mb, gb), e.g. \"10mb/s\".").toList
      .ok ⟨rate, unit, timeUnit⟩
  | _ =>
    .error ("Invalid bandwidth rate format: '".toList ++ s ++
      "', expected \x7brate\x7d\x7bunit\x7d/\x7btime\x7d".toList)

end BandwidthQuota

/-! ## The quota of a user -/

/-- All limits of a user: those of `Storage.UserQuota`, and those of the rate limiter. -/
structure UserQuota extends Storage.UserQuota where
  rateRead : QuotaOverride BandwidthQuota
  rateWrite : QuotaOverride BandwidthQuota
  rateReadBurst : Option NonZeroU32
  rateWriteBurst : Option NonZeroU32
  deriving DecidableEq

/-- `UserQuota::default` -/
def UserQuota.default : UserQuota := ⟨⟨.default, none⟩, .default, .default, none, none⟩

def maxRateColumnLen : ℕ := 32

/-- `i32::MAX` -/
def maxI32 : ℕ := 2147483647

def validateRateValue (label : Text) : QuotaOverride BandwidthQuota → Except Text Unit
  | .value b =>
    let s := b.toText
    if maxRateColumnLen < Text.byteLen s then
      .error (label ++ " string \"".toList ++ s ++ "\" exceeds DB column limit of ".toList ++
        Nat.toDigits 10 maxRateColumnLen ++ " characters".toList)
    else
      match BandwidthQuota.fromStr s with
      | .ok _ => .ok ()
      | .error e =>
        .error (label ++ " roundtrip validation failed for \"".toList ++ s ++ "\": ".toList ++ e)
  | _ => .ok ()

def validateBurstValue (label : Text) : Option NonZeroU32 → Except Text Unit
  | some b =>
    if maxI32 < b.1.toNat then
      .error (label ++ " value ".toList ++ Nat.toDigits 10 b.1.toNat ++
        " exceeds maximum (".toList ++ Nat.toDigits 10 maxI32 ++ [')'])
    else .ok ()
  | none => .ok ()

def validateBurst (label : Text) (burst : Option NonZeroU32) (rate : QuotaOverride BandwidthQuota) :
    Except Text Unit :=
  match burst, rate with
  | none, _ | some _, .value _ => validateBurstValue label burst
  | some _, _ =>
    .error (label ++ " requires the corresponding rate to be set to a value".toList)

/-- The checks of the entries from the `i`-th on, with those before it. -/
def validateEntries (seen : List StoragePath) (i : ℕ) : List StoragePath → Except Text Unit
  | [] => .ok ()
  | p :: rest =>
    let field := "allowed_write_paths[".toList ++ Nat.toDigits 10 i ++ [']']
    if p.asStr = ['/'] then
      .error (field ++ " must not be '/'; use null for unrestricted access".toList)
    else if p ∈ seen then .error (field ++ " is a duplicate: \"".toList ++ p.asStr ++ ['"'])
    else validateEntries (p :: seen) (i + 1) rest

def validateAllowedWritePaths : Option (List StoragePath) → Except Text Unit
  | some entries => validateEntries [] 0 entries
  | none => .ok ()

namespace UserQuota

def validate (q : UserQuota) : Except Text Unit := do
  validateRateValue "rate_read".toList q.rateRead
  validateRateValue "rate_write".toList q.rateWrite
  validateBurst "rate_read_burst".toList q.rateReadBurst q.rateRead
  validateBurst "rate_write_burst".toList q.rateWriteBurst q.rateWrite
  validateAllowedWritePaths q.allowedWritePaths

end UserQuota

/-! ## Columns -/

/-- The columns that `users` and `signup_codes` have for a quota. -/
structure Columns where
  quotaStorageMb : Option Int32
  quotaRateRead : Option Text
  quotaRateWrite : Option Text
  quotaRateReadBurst : Option Int32
  quotaRateWriteBurst : Option Int32
  allowedWritePaths : Option Text
  deriving DecidableEq, Repr

/-- `i32::try_from(n).unwrap_or(i32::MAX)` -/
def truncate (n : ℕ) : Int32 := Int32.ofNat (min n maxI32)

/-- `QuotaOverride::<u64>::to_db_int` -/
def toDbInt : QuotaOverride UInt64 → Option Int32
  | .default => none
  | .unlimited => some (-1)
  | .value v => some (truncate v.toNat)

/-- `QuotaOverride::<u64>::from_db_int` -/
def fromDbInt : Option Int32 → QuotaOverride UInt64
  | none => .default
  | some v =>
    if v = -1 then .unlimited
    else if 0 ≤ v then .value (UInt64.ofNat v.toNatClampNeg)
    else .default

/-- `QuotaOverride::<BandwidthQuota>::to_db_varchar` -/
def toDbVarchar : QuotaOverride BandwidthQuota → Option Text
  | .default => none
  | .unlimited => some "unlimited".toList
  | .value b => some b.toText

/-- `QuotaOverride::<BandwidthQuota>::from_db_varchar` -/
def fromDbVarchar : Option Text → QuotaOverride BandwidthQuota
  | none => .default
  | some s =>
    if s = "unlimited".toList then .unlimited
    else
      match BandwidthQuota.fromStr s with
      | .ok rate => .value rate
      | .error _ => .default

def burstToI32 (burst : Option NonZeroU32) : Option Int32 :=
  burst.map fun v => truncate v.1.toNat

/-- `u32::try_from(v).ok()?.try_into().ok()` -/
def burstFromI32 (column : Option Int32) : Option NonZeroU32 := do
  let v ← column
  if 0 ≤ v then
    let n := UInt32.ofNat v.toNatClampNeg
    if h : n ≠ 0 then some ⟨n, h⟩ else none
  else none

/-- `serde_json::from_str::<Vec<StoragePath>>`, where what cannot be read allows nothing -/
def pathsFromJson (C : Crates) (s : Text) : List StoragePath :=
  ((C.textsFromJson s).bind fun ts => ts.mapM fun t => (StoragePath.new t).toOption).getD []

namespace UserQuota

def fromNullableColumns (C : Crates) (columns : Columns) : UserQuota where
  storageQuotaMb := fromDbInt columns.quotaStorageMb
  rateRead := fromDbVarchar columns.quotaRateRead
  rateWrite := fromDbVarchar columns.quotaRateWrite
  rateReadBurst := burstFromI32 columns.quotaRateReadBurst
  rateWriteBurst := burstFromI32 columns.quotaRateWriteBurst
  allowedWritePaths := columns.allowedWritePaths.map (pathsFromJson C)

/-- What `set_quota` writes. -/
def toColumns (C : Crates) (q : UserQuota) : Columns where
  quotaStorageMb := toDbInt q.storageQuotaMb
  quotaRateRead := toDbVarchar q.rateRead
  quotaRateWrite := toDbVarchar q.rateWrite
  quotaRateReadBurst := burstToI32 q.rateReadBurst
  quotaRateWriteBurst := burstToI32 q.rateWriteBurst
  allowedWritePaths := q.allowedWritePaths.map fun paths =>
    C.textsToJson (paths.map StoragePath.asStr)

/-- The quota with the numbers that its columns can hold. -/
def stored (q : UserQuota) : UserQuota where
  storageQuotaMb :=
    match q.storageQuotaMb with
    | .value v => .value (UInt64.ofNat (min v.toNat maxI32))
    | other => other
  rateRead := q.rateRead
  rateWrite := q.rateWrite
  rateReadBurst := q.rateReadBurst
  rateWriteBurst := q.rateWriteBurst
  allowedWritePaths := q.allowedWritePaths

end UserQuota

/-! ## Reading what was written -/

theorem parseNonZero_toDigits (n : NonZeroU32) :
    parseNonZero (Nat.toDigits 10 n.1.toNat) = some n := by
  rw [parseNonZero, Text.parseUnsigned_toDigits n.1.toNat_lt]
  simp [n.2]

theorem BandwidthQuota.fromStr_toText (b : BandwidthQuota) : fromStr b.toText = .ok b := by
  have hdigits : ∀ c ∈ Nat.toDigits 10 b.rate.1.toNat, c.isDigit := fun c hc =>
    Nat.isDigit_of_mem_toDigits (by decide) (by decide) hc
  have hslash : '/' ∉ Nat.toDigits 10 b.rate.1.toNat ++ b.unit.toText := by
    rw [List.mem_append, not_or]
    exact ⟨fun h => absurd (hdigits _ h) (by decide), by cases b.unit <;> decide⟩
  have htime : '/' ∉ b.timeUnit.toText := by cases b.timeUnit <;> decide
  have hunit : b.unit.toText.takeWhile Char.isDigit = [] ∧
      b.unit.toText.dropWhile Char.isDigit = b.unit.toText := by
    cases b.unit <;> decide
  rw [fromStr, toText, Text.splitOn_append hslash, List.splitOn_eq_singleton htime]
  simp only [List.takeWhile_append_of_pos hdigits, List.dropWhile_append_of_pos hdigits, hunit.1,
    hunit.2, List.append_nil, Nat.toDigits_ne_nil, if_false, parseNonZero_toDigits,
    TimeUnit.fromStr_toText, SpeedRateUnit.fromStr_toText]
  rfl

/-- No bandwidth is written like the marker of a user without limit. -/
theorem BandwidthQuota.toText_ne_unlimited (b : BandwidthQuota) :
    b.toText ≠ "unlimited".toList := by
  intro h
  have hfrom := b.fromStr_toText
  rw [h] at hfrom
  cases hfrom

theorem fromDbVarchar_toDbVarchar (rate : QuotaOverride BandwidthQuota) :
    fromDbVarchar (toDbVarchar rate) = rate := by
  cases rate with
  | default => rfl
  | unlimited => rfl
  | value b =>
    simp only [toDbVarchar, fromDbVarchar, b.toText_ne_unlimited, if_false, b.fromStr_toText]

theorem toInt_truncate (n : ℕ) : (truncate n).toInt = min n maxI32 := by
  have hlt : min n maxI32 < 2 ^ 31 := Nat.lt_of_le_of_lt (Nat.min_le_right _ _) (by decide)
  rw [truncate, Int32.toInt_ofNat_of_lt hlt]

theorem truncate_nonneg (n : ℕ) : 0 ≤ truncate n := by
  rw [Int32.le_iff_toInt_le, toInt_truncate]
  exact Int.natCast_nonneg _

theorem toNatClampNeg_truncate (n : ℕ) : (truncate n).toNatClampNeg = min n maxI32 := by
  rw [Int32.toNatClampNeg, toInt_truncate, Int.toNat_natCast]

theorem fromDbInt_toDbInt (q : UserQuota) :
    fromDbInt (toDbInt q.storageQuotaMb) = q.stored.storageQuotaMb := by
  cases h : q.storageQuotaMb with
  | default => simp [UserQuota.stored, h, toDbInt, fromDbInt]
  | unlimited => simp [UserQuota.stored, h, toDbInt, fromDbInt]
  | value v =>
    have hne : truncate v.toNat ≠ -1 := by
      intro heq
      have := truncate_nonneg v.toNat
      rw [heq] at this
      exact absurd this (by decide)
    simp [UserQuota.stored, h, toDbInt, fromDbInt, hne, truncate_nonneg, toNatClampNeg_truncate]

theorem burstFromI32_burstToI32 {burst : Option NonZeroU32}
    (h : ∀ n, burst = some n → n.1.toNat ≤ maxI32) : burstFromI32 (burstToI32 burst) = burst := by
  cases burst with
  | none => rfl
  | some n =>
    have hn : UInt32.ofNat (truncate n.1.toNat).toNatClampNeg = n.1 := by
      rw [toNatClampNeg_truncate, Nat.min_eq_left (h n rfl), UInt32.ofNat_toNat]
    simp [burstToI32, burstFromI32, truncate_nonneg, hn, n.2]

theorem pathsFromJson_textsToJson {C : Crates} (hC : C.ReadsTexts) (paths : List StoragePath) :
    pathsFromJson C (C.textsToJson (paths.map StoragePath.asStr)) = paths := by
  have hmap : (paths.map StoragePath.asStr).mapM (fun t => (StoragePath.new t).toOption) =
      some paths := by
    induction paths with
    | nil => rfl
    | cons p ps ih =>
      rw [List.map_cons, List.mapM_cons, StoragePath.new_asStr, ih]
      rfl
  rw [pathsFromJson, hC, Option.bind_some, hmap, Option.getD_some]

theorem le_maxI32_of_validateBurst {label : Text} {burst : Option NonZeroU32}
    {rate : QuotaOverride BandwidthQuota} (h : validateBurst label burst rate = .ok ()) (n)
    (hn : burst = some n) : n.1.toNat ≤ maxI32 := by
  subst hn
  cases rate with
  | default => cases h
  | unlimited => cases h
  | value b =>
    simp only [validateBurst, validateBurstValue] at h
    split at h
    · cases h
    · omega

namespace UserQuota

variable {C : Crates} {q : UserQuota}

/-- A quota that passes its checks is read back from its columns, up to the size of an integer
column. -/
theorem fromNullableColumns_toColumns (hC : C.ReadsTexts) (hq : q.validate = .ok ()) :
    fromNullableColumns C (q.toColumns C) = q.stored := by
  obtain ⟨⟨⟩, -, h⟩ := Except.bind_ok_iff.1 hq
  obtain ⟨⟨⟩, -, h⟩ := Except.bind_ok_iff.1 h
  obtain ⟨⟨⟩, hread, h⟩ := Except.bind_ok_iff.1 h
  obtain ⟨⟨⟩, hwrite, -⟩ := Except.bind_ok_iff.1 h
  have hpaths : (q.allowedWritePaths.map fun paths =>
      C.textsToJson (paths.map StoragePath.asStr)).map (pathsFromJson C) = q.allowedWritePaths := by
    cases q.allowedWritePaths with
    | none => rfl
    | some paths => simp [pathsFromJson_textsToJson hC]
  simp only [fromNullableColumns, toColumns, fromDbInt_toDbInt, fromDbVarchar_toDbVarchar,
    burstFromI32_burstToI32 (le_maxI32_of_validateBurst hread),
    burstFromI32_burstToI32 (le_maxI32_of_validateBurst hwrite), hpaths]
  rfl

theorem stored_eq_self_iff :
    q.stored = q ↔ ∀ v, q.storageQuotaMb = .value v → v.toNat ≤ maxI32 := by
  have hfield : q.stored = q ↔ q.stored.storageQuotaMb = q.storageQuotaMb := by
    obtain ⟨⟨storage, paths⟩, _, _, _, _⟩ := q
    exact ⟨fun h => by rw [h], fun h => by simp only [stored] at h ⊢; rw [h]⟩
  rw [hfield]
  cases hq : q.storageQuotaMb with
  | default => simp [stored, hq]
  | unlimited => simp [stored, hq]
  | value v =>
    have hlt : min v.toNat maxI32 < 2 ^ 64 := Nat.lt_of_le_of_lt (Nat.min_le_right _ _) (by decide)
    simp only [stored, hq, QuotaOverride.value.injEq, ← UInt64.toNat_inj,
      UInt64.toNat_ofNat_of_lt' hlt]
    exact ⟨fun h w hw => by omega, fun h => Nat.min_eq_left (h v rfl)⟩

/-- A quota that passes its checks is read back as it was written, unless its storage limit is a
number that the integer column does not hold. -/
theorem quota_survives_iff (hC : C.ReadsTexts) (hq : q.validate = .ok ()) :
    fromNullableColumns C (q.toColumns C) = q ↔
      ∀ v, q.storageQuotaMb = .value v → v.toNat ≤ maxI32 := by
  rw [fromNullableColumns_toColumns hC hq]
  exact stored_eq_self_iff

/-- Five gigabytes, ten megabytes per second for reading with a burst, and no limit for writing. -/
def sample : UserQuota where
  storageQuotaMb := .value 5120
  allowedWritePaths := some []
  rateRead := .value ⟨⟨10, by decide⟩, .megabyte, .second⟩
  rateWrite := .unlimited
  rateReadBurst := some ⟨50, by decide⟩
  rateWriteBurst := none

theorem quota_survives_sample :
    sample.validate = .ok () ∧
      fromNullableColumns (.ofTokens [] [] [] []) (sample.toColumns (.ofTokens [] [] [] [])) =
        sample := by
  have hvalid : sample.validate = .ok () := by decide +kernel
  refine ⟨hvalid, (quota_survives_iff Crates.ofTokens_readsTexts hvalid).2 ?_⟩
  rintro v hv
  obtain rfl : 5120 = v := QuotaOverride.value.inj hv
  decide

/-- Two petabytes pass the checks, and come back as one megabyte less. -/
theorem storage_limit_truncated :
    ({ UserQuota.default with storageQuotaMb := .value 2147483648 } : UserQuota).validate = .ok () ∧
      (fromNullableColumns (.ofTokens [] [] [] [])
        (({ UserQuota.default with storageQuotaMb := .value 2147483648 } : UserQuota).toColumns
          (.ofTokens [] [] [] []))).storageQuotaMb = .value 2147483647 := by
  decide +kernel

end UserQuota

end Pubky.Homeserver.Quota

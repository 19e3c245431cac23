import Pubky.Homeserver.RateLimits

/-!
# Retry-After

`check_request_count_limits` in `client_server/middleware/rate_limiter/request_rate_limit.rs` turns
the time that a refused request has to wait into whole seconds, at least one, and rounds down. A
limiter lets a key wait for at most one of its periods, so the answer is right for the limits whose
period is at most a second, and for no others (`retry_after_suffices_iff`).

`governor` is a parameter; `Governor.AsGcra` is the algorithm that its documentation specifies.
-/

namespace Pubky.Homeserver.RateLimits

open Quota (NonZeroU32)

variable {Addr L : Type}

/-! ## The algorithm -/

/-- Another request is allowed at `now` by a quota of a period and a burst, for a key whose requests
are paid for at `due`. -/
def Conforms (quota : ℕ × NonZeroU32) (due now : ℕ) : Prop :=
  max due now + quota.1 ≤ now + quota.2.1.toNat * quota.1

/-- The generic cell rate algorithm for each key: what is kept is the time at which the requests of
the key are paid for. -/
structure Governor.AsGcra (G : Governor Addr L) (quotaOf : L → ℕ × NonZeroU32)
    (due : L → LimitKey Addr → ℕ) : Prop where
  quota_keyed : ∀ q, quotaOf (G.keyed q) = q
  due_keyed : ∀ q k, due (G.keyed q) k = 0
  quota_checkKey : ∀ l k now, quotaOf (G.checkKey l k now).2 = quotaOf l
  due_of_ne : ∀ l k k' now, k' ≠ k → due (G.checkKey l k now).2 k' = due l k'
  granted : ∀ l k now, Conforms (quotaOf l) (due l k) now →
    (G.checkKey l k now).1 = .ok () ∧
      due (G.checkKey l k now).2 k = max (due l k) now + (quotaOf l).1
  /-- The time to wait is the time until the request conforms. -/
  refused : ∀ l k now, ¬ Conforms (quotaOf l) (due l k) now →
    (G.checkKey l k now).1 =
        .error (due l k + (quotaOf l).1 - (quotaOf l).2.1.toNat * (quotaOf l).1 - now) ∧
      due (G.checkKey l k now).2 k = due l k

/-! ## Checks -/

namespace LimitTuple

variable (G : Governor Addr L)

/-- The check of one limit for a key. -/
def check (limit : LimitTuple Addr L) (key : LimitKey Addr) (now : ℕ) :
    Except HttpError Unit × LimitTuple Addr L :=
  match G.checkKey limit.limiter key now with
  | (.error wait, limiter) =>
    (.error (.tooManyRequests "Rate limit exceeded".toList (max 1 (wait / 1000000000))),
      { limit with limiter := limiter })
  | (.ok (), limiter) => (.ok (), { limit with limiter := limiter })

/-- A limit after checks of keys at certain times. -/
def after (limit : LimitTuple Addr L) (checks : List (LimitKey Addr × ℕ)) : LimitTuple Addr L :=
  checks.foldl (fun limit c => (limit.check G c.1 c.2).2) limit

end LimitTuple

/-- Whoever was refused and comes back after the announced seconds, while the limit has seen other
keys only, is let through: for every history of the limit. -/
def RetryAfterSuffices (G : Governor Addr L) (limit : PathLimit Addr) : Prop :=
  ∀ tuple, LimitTuple.new G limit = .ok tuple →
    ∀ (checks others : List (LimitKey Addr × ℕ)) (key : LimitKey Addr) (now later r : ℕ),
      (checks.map Prod.snd ++ now :: others.map Prod.snd).Pairwise (· ≤ ·) →
      (∀ c ∈ others, c.1 ≠ key) →
      ((tuple.after G checks).check G key now).1 =
        .error (.tooManyRequests "Rate limit exceeded".toList r) →
      now + r * 1000000000 ≤ later →
      (((((tuple.after G checks).check G key now).2.after G others).check G key later)).1 = .ok ()

section

variable {G : Governor Addr L} {quotaOf : L → ℕ × NonZeroU32} {due : L → LimitKey Addr → ℕ}
  {limit : LimitTuple Addr L} {k : LimitKey Addr} {now : ℕ} {checks : List (LimitKey Addr × ℕ)}

theorem limiter_check : (limit.check G k now).2.limiter = (G.checkKey limit.limiter k now).2 := by
  rw [LimitTuple.check]
  rcases G.checkKey limit.limiter k now with ⟨_ | _, limiter⟩ <;> rfl

theorem check_of_conforms (hG : G.AsGcra quotaOf due)
    (h : Conforms (quotaOf limit.limiter) (due limit.limiter k) now) :
    (limit.check G k now).1 = .ok () := by
  have hok := (hG.granted _ _ _ h).1
  rw [LimitTuple.check]
  rcases hc : G.checkKey limit.limiter k now with ⟨_ | _, limiter⟩
  · rw [hc] at hok
    cases hok
  · rfl

theorem check_of_not_conforms (hG : G.AsGcra quotaOf due)
    (h : ¬ Conforms (quotaOf limit.limiter) (due limit.limiter k) now) :
    (limit.check G k now).1 = .error (.tooManyRequests "Rate limit exceeded".toList (max 1
      ((due limit.limiter k + (quotaOf limit.limiter).1 -
        (quotaOf limit.limiter).2.1.toNat * (quotaOf limit.limiter).1 - now) / 1000000000))) := by
  have herr := (hG.refused _ _ _ h).1
  rw [LimitTuple.check]
  rcases hc : G.checkKey limit.limiter k now with ⟨wait | _, limiter⟩
  · rw [hc] at herr
    obtain rfl := Except.error.inj herr
    rfl
  · rw [hc] at herr
    cases herr

theorem quota_after (hG : G.AsGcra quotaOf due) :
    quotaOf (limit.after G checks).limiter = quotaOf limit.limiter := by
  induction checks generalizing limit with
  | nil => rfl
  | cons c checks ih =>
    rw [LimitTuple.after, List.foldl_cons]
    exact ih.trans (by rw [limiter_check, hG.quota_checkKey])

/-- Other keys do not matter. -/
theorem due_after_of_ne (hG : G.AsGcra quotaOf due) (h : ∀ c ∈ checks, c.1 ≠ k) :
    due (limit.after G checks).limiter k = due limit.limiter k := by
  induction checks generalizing limit with
  | nil => rfl
  | cons c checks ih =>
    obtain ⟨hc, hchecks⟩ := List.forall_mem_cons.1 h
    rw [LimitTuple.after, List.foldl_cons]
    exact (ih hchecks).trans (by rw [limiter_check, hG.due_of_ne _ _ _ _ hc.symm])

/-- A key is never further ahead than its burst. -/
theorem due_check_le (hG : G.AsGcra quotaOf due) {t : ℕ} (htime : now ≤ t) (k' : LimitKey Addr)
    (h : due limit.limiter k ≤
      t + (quotaOf limit.limiter).2.1.toNat * (quotaOf limit.limiter).1) :
    due (limit.check G k' now).2.limiter k ≤
      t + (quotaOf limit.limiter).2.1.toNat * (quotaOf limit.limiter).1 := by
  rw [limiter_check]
  by_cases hk : k = k'
  · subst hk
    by_cases hc : Conforms (quotaOf limit.limiter) (due limit.limiter k) now
    · rw [(hG.granted _ _ _ hc).2]
      exact le_trans hc (Nat.add_le_add_right htime _)
    · rw [(hG.refused _ _ _ hc).2]
      exact h
  · rw [hG.due_of_ne _ _ _ _ hk]
    exact h

theorem due_after_le (hG : G.AsGcra quotaOf due) {t : ℕ} (htimes : ∀ c ∈ checks, c.2 ≤ t)
    (h : due limit.limiter k ≤
      t + (quotaOf limit.limiter).2.1.toNat * (quotaOf limit.limiter).1) :
    due (limit.after G checks).limiter k ≤
      t + (quotaOf limit.limiter).2.1.toNat * (quotaOf limit.limiter).1 := by
  induction checks generalizing limit with
  | nil => exact h
  | cons c checks ih =>
    obtain ⟨hc, hchecks⟩ := List.forall_mem_cons.1 htimes
    have hquota : quotaOf (limit.check G c.1 c.2).2.limiter = quotaOf limit.limiter := by
      rw [limiter_check, hG.quota_checkKey]
    have hstep := due_check_le hG hc c.1 h
    rw [← hquota] at hstep ⊢
    exact ih hchecks hstep

/-- Requests of one key at one time, up to the burst. -/
theorem due_after_replicate (hG : G.AsGcra quotaOf due) (hdue : due limit.limiter k = 0) {n : ℕ}
    (hn : n ≤ (quotaOf limit.limiter).2.1.toNat) :
    due (limit.after G (List.replicate n (k, 0))).limiter k =
      n * (quotaOf limit.limiter).1 := by
  induction n with
  | zero => rw [Nat.zero_mul]; exact hdue
  | succ n ih =>
    have hlast : limit.after G (List.replicate (n + 1) (k, 0)) =
        ((limit.after G (List.replicate n (k, 0))).check G k 0).2 := by
      rw [List.replicate_succ', LimitTuple.after, LimitTuple.after, List.foldl_append]
      rfl
    have hbefore := ih (Nat.le_of_succ_le hn)
    have hquota : quotaOf (limit.after G (List.replicate n (k, 0))).limiter =
        quotaOf limit.limiter := quota_after hG
    have hconforms : Conforms (quotaOf (limit.after G (List.replicate n (k, 0))).limiter)
        (due (limit.after G (List.replicate n (k, 0))).limiter k) 0 := by
      rw [Conforms, hquota, hbefore, Nat.max_zero, Nat.zero_add, ← Nat.succ_mul]
      exact Nat.mul_le_mul_right _ hn
    rw [hlast, limiter_check, (hG.granted _ _ _ hconforms).2, hbefore, hquota, Nat.max_zero,
      Nat.succ_mul]

theorem period_le_burst (quota : ℕ × NonZeroU32) : quota.1 ≤ quota.2.1.toNat * quota.1 :=
  Nat.le_mul_of_pos_left _ (Nat.pos_of_ne_zero fun h => quota.2.2 (UInt32.toNat_inj.1 h))

/-- A key that is refused has to wait, for at most one period. -/
theorem wait_of_not_conforms {quota : ℕ × NonZeroU32} {due now : ℕ}
    (hdue : due ≤ now + quota.2.1.toNat * quota.1) (h : ¬ Conforms quota due now) :
    now + quota.2.1.toNat * quota.1 < due + quota.1 ∧
      due + quota.1 - quota.2.1.toNat * quota.1 - now ≤ quota.1 := by
  have hburst := period_le_burst quota
  simp only [Conforms] at h
  omega

theorem new_limiter {limit : PathLimit Addr} {tuple : LimitTuple Addr L}
    (hnew : LimitTuple.new G limit = .ok tuple) : ∃ quota, limit.toGovernorQuota = .ok quota ∧
      tuple.limiter = G.keyed quota := by
  obtain ⟨⟨⟩, -, hnew⟩ := Except.bind_ok_iff.1 hnew
  obtain ⟨quota, hquota, hnew⟩ := Except.bind_ok_iff.1 hnew
  cases hnew
  exact ⟨quota, hquota, rfl⟩

/-- Of a limit whose period is at most a second. -/
theorem retryAfterSuffices_of_period_le (hG : G.AsGcra quotaOf due) {limit : PathLimit Addr}
    {quota : ℕ × NonZeroU32} (hquota : limit.toGovernorQuota = .ok quota)
    (hperiod : quota.1 ≤ 1000000000) : RetryAfterSuffices G limit := by
  intro tuple hnew checks others key now later r htimes hothers hrefused hlater
  obtain ⟨quota', hquota', hlimiter⟩ := new_limiter hnew
  obtain rfl := Except.ok.inj (hquota.symm.trans hquota')
  obtain ⟨-, -, hbefore⟩ := List.pairwise_append.1 htimes
  have hpast : ∀ c ∈ checks, c.2 ≤ now := fun c hc =>
    hbefore c.2 (List.mem_map_of_mem hc) now List.mem_cons_self
  -- what the limiter keeps for the key when the request is refused
  have hq : quotaOf (tuple.after G checks).limiter = quota := by
    rw [quota_after hG, hlimiter, hG.quota_keyed]
  have hdue : due (tuple.after G checks).limiter key ≤ now + quota.2.1.toNat * quota.1 := by
    have hstart : due tuple.limiter key ≤
        now + (quotaOf tuple.limiter).2.1.toNat * (quotaOf tuple.limiter).1 := by
      rw [hlimiter, hG.due_keyed]
      exact Nat.zero_le _
    have := due_after_le hG hpast hstart
    rwa [hlimiter, hG.quota_keyed] at this
  by_cases hc : Conforms quota (due (tuple.after G checks).limiter key) now
  · rw [check_of_conforms hG (by rwa [hq])] at hrefused
    cases hrefused
  · have hwait := wait_of_not_conforms hdue hc
    rw [check_of_not_conforms hG (by rwa [hq]), hq] at hrefused
    have hr : max 1 _ = r := congrArg (fun e : HttpError => e.retryAfterSecs.getD 0)
      (Except.error.inj hrefused)
    -- and when it comes back
    refine check_of_conforms hG ?_
    rw [quota_after hG, limiter_check, hG.quota_checkKey, hq, due_after_of_ne hG hothers,
      limiter_check, (hG.refused _ _ _ (by rwa [hq])).2]
    have hburst := period_le_burst quota
    simp only [Conforms]
    omega

/-- The burst of a key can be used up at once. -/
theorem exists_exhausted (hG : G.AsGcra quotaOf due) {limit : PathLimit Addr}
    {tuple : LimitTuple Addr L} {quota : ℕ × NonZeroU32}
    (hquota : limit.toGovernorQuota = .ok quota) (hnew : LimitTuple.new G limit = .ok tuple)
    (key : LimitKey Addr) : ∃ checks : List (LimitKey Addr × ℕ), (∀ c ∈ checks, c.2 = 0) ∧
      quotaOf (tuple.after G checks).limiter = quota ∧
      due (tuple.after G checks).limiter key = quota.2.1.toNat * quota.1 := by
  obtain ⟨quota', hquota', hlimiter⟩ := new_limiter hnew
  obtain rfl := Except.ok.inj (hquota.symm.trans hquota')
  have hkeyed : quotaOf tuple.limiter = quota := by rw [hlimiter, hG.quota_keyed]
  refine ⟨List.replicate quota.2.1.toNat (key, 0), fun c hc => ?_, ?_, ?_⟩
  · rw [(List.mem_replicate.1 hc).2]
  · rw [quota_after hG, hkeyed]
  · rw [due_after_replicate hG (by rw [hlimiter, hG.due_keyed]) (by rw [hkeyed]), hkeyed]

/-- Of a limit whose period is longer than a second: the burst is used up at once, and a request
that has to wait for a part of a second comes back too early. -/
theorem not_retryAfterSuffices_of_lt_period (hG : G.AsGcra quotaOf due) {limit : PathLimit Addr}
    {tuple : LimitTuple Addr L} {quota : ℕ × NonZeroU32}
    (hquota : limit.toGovernorQuota = .ok quota) (hnew : LimitTuple.new G limit = .ok tuple)
    (key : LimitKey Addr) (hperiod : 1000000000 < quota.1) : ¬ RetryAfterSuffices G limit := by
  intro hall
  obtain ⟨checks, htimes, hq, hdue⟩ := exists_exhausted hG hquota hnew key
  -- the time of the refused request, such that the wait is no whole number of seconds
  obtain ⟨now, r, hr, hearly⟩ : ∃ now r, r = max 1 ((quota.1 - now) / 1000000000) ∧
      now + r * 1000000000 < quota.1 := by
    by_cases hwhole : quota.1 % 1000000000 = 0
    · exact ⟨1, _, rfl, by omega⟩
    · exact ⟨0, _, rfl, by omega⟩
  have hnot : ∀ t, t < quota.1 → ¬ Conforms quota (quota.2.1.toNat * quota.1) t := by
    intro t ht h
    simp only [Conforms] at h
    omega
  have hfirst : ¬ Conforms (quotaOf (tuple.after G checks).limiter)
      (due (tuple.after G checks).limiter key) now := by
    rw [hq, hdue]
    exact hnot now (by omega)
  have hrefused : ((tuple.after G checks).check G key now).1 =
      .error (.tooManyRequests "Rate limit exceeded".toList r) := by
    rw [check_of_not_conforms hG hfirst, hq, hdue, Nat.add_sub_cancel_left, hr]
  have hadmitted := hall tuple hnew checks [] key now _ r
    (List.pairwise_append.2 ⟨List.pairwise_of_forall_mem_list fun a ha b hb => by
      obtain ⟨c, hc, rfl⟩ := List.mem_map.1 ha
      rw [htimes c hc]
      exact Nat.zero_le b, List.pairwise_singleton _ _, fun a ha b _ => by
      obtain ⟨c, hc, rfl⟩ := List.mem_map.1 ha
      rw [htimes c hc]
      exact Nat.zero_le b⟩) (by simp) hrefused (Nat.le_refl _)
  have hsecond : ¬ Conforms (quotaOf ((tuple.after G checks).check G key now).2.limiter)
      (due ((tuple.after G checks).check G key now).2.limiter key) (now + r * 1000000000) := by
    rw [limiter_check, hG.quota_checkKey, (hG.refused _ _ _ hfirst).2, hq, hdue]
    exact hnot _ hearly
  rw [LimitTuple.after, List.foldl_nil, check_of_not_conforms hG hsecond] at hadmitted
  cases hadmitted

end

open Storage.Sample (alice)

/-- `Retry-After` is long enough for every history of a limit exactly if the limit allows another
request at least every second. -/
theorem retry_after_suffices_iff {G : Governor Addr L} {quotaOf : L → ℕ × NonZeroU32}
    {due : L → LimitKey Addr → ℕ} (hG : G.AsGcra quotaOf due) {limit : PathLimit Addr}
    {tuple : LimitTuple Addr L} (hnew : LimitTuple.new G limit = .ok tuple) :
    RetryAfterSuffices G limit ↔
      duration limit.quota.timeUnit / limit.quota.rate.1.toNat ≤ 1000000000 := by
  obtain ⟨quota, hquota, -⟩ := new_limiter hnew
  have hperiod : quota.1 = duration limit.quota.timeUnit / limit.quota.rate.1.toNat := by
    rw [PathLimit.toGovernorQuota] at hquota
    split at hquota
    · cases hquota
    · cases hquota
      rfl
  rw [← hperiod]
  refine ⟨fun h => Nat.le_of_not_lt fun hlt => ?_, retryAfterSuffices_of_period_le hG hquota⟩
  exact not_retryAfterSuffices_of_lt_period hG hquota hnew (.user alice) hlt h

/-! ## Examples -/

/-- Limiters that keep the time at which the requests of each key are paid for. -/
def gcraByKey : Governor ℕ ((ℕ × NonZeroU32) × (LimitKey ℕ → ℕ)) where
  keyed quota := (quota, fun _ => 0)
  checkKey l k now :=
    if max (l.2 k) now + l.1.1 ≤ now + l.1.2.1.toNat * l.1.1 then
      (.ok (), l.1, Function.update l.2 k (max (l.2 k) now + l.1.1))
    else (.error (l.2 k + l.1.1 - l.1.2.1.toNat * l.1.1 - now), l)

theorem gcraByKey_asGcra : gcraByKey.AsGcra Prod.fst Prod.snd where
  quota_keyed _ := rfl
  due_keyed _ _ := rfl
  quota_checkKey l k now := by
    simp only [gcraByKey]
    split <;> rfl
  due_of_ne l k k' now hk := by
    simp only [gcraByKey]
    split
    · exact Function.update_of_ne hk _ _
    · rfl
  granted l k now h := by
    simp only [gcraByKey, if_pos (show max (l.2 k) now + l.1.1 ≤ _ from h), Function.update_self,
      and_self]
  refused l k now h := by
    simp only [gcraByKey, if_neg (show ¬ max (l.2 k) now + l.1.1 ≤ _ from h), and_self]

/-- So many requests in a unit of time for each user, and a burst. -/
def userLimit (rate : NonZeroU32) (timeUnit : Quota.TimeUnit) (burst : Option NonZeroU32) :
    PathLimit ℕ :=
  ⟨"/pub/a".toList, "GET".toList, ⟨rate, timeUnit⟩, .user, burst, []⟩

theorem retry_after_suffices_ten_per_second :
    RetryAfterSuffices gcraByKey (userLimit ⟨10, by decide⟩ .second none) :=
  (retry_after_suffices_iff gcraByKey_asGcra rfl).2 (by decide)

/-- Forty requests a minute, one at a time: a second request is told to come back after a second,
and is refused then, since the next one is allowed after a second and a half. -/
theorem retry_after_too_short : ∃ tuple,
    LimitTuple.new gcraByKey (userLimit ⟨40, by decide⟩ .minute (some ⟨1, by decide⟩)) =
      .ok tuple ∧
    ((tuple.after gcraByKey [(.user alice, 0)]).check gcraByKey (.user alice) 0).1 =
      .error (.tooManyRequests "Rate limit exceeded".toList 1) ∧
    ((tuple.after gcraByKey [(.user alice, 0), (.user alice, 0)]).check gcraByKey (.user alice)
      1000000000).1 = .error (.tooManyRequests "Rate limit exceeded".toList 1) :=
  ⟨_, rfl, by decide +kernel, by decide +kernel⟩

end Pubky.Homeserver.RateLimits

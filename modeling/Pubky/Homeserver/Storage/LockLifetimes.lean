import Pubky.Homeserver.Storage.Sample

/-!
# The lifetimes of write locks

`EntryLockRepository` as calls that act on the committed rows at once, each at a reading of the
clock of the database: a lock is acquired, refreshed, kept alive, released or swept. The statements
of `Storage.Database` have these effects if no other transaction is in the way (`acquireLock_eq`,
`extendLock_commit`, `releaseLock_eq`, `deleteExpiredLocks_eq`).

* `LockChange`: everything that a call can do to the rows.
* `run_keeps`: in a run a live lock stays, with its token and with no earlier expiry, as long as
  its holder does not refresh or release it.
* `run_dead`: an expired lock never comes back under its token.
* `lock_lifetimes`: what the calls do in whatever order and at whatever readings of the clock.
-/

namespace Pubky.Homeserver.Storage

open Sql

variable {C : StorageCrates} {now : ℤ} {rows rows' : List EntryLockRow} {r r' : EntryLockRow}

/-! ## Calls -/

inductive LockCall where
  | acquire (path : EntryPath) (token : Text) (lifetimeSecs : ℤ)
  | refresh (path : EntryPath) (tokens : List Text) (lifetimeSecs : ℤ)
  | keepAlive (path : EntryPath) (tokens : List Text) (horizonSecs : ℤ)
  | release (path : EntryPath) (token : Text)
  | deleteExpired

namespace EntryLockRepository

variable (C now)

/-- Take the lock on `path`, replacing an expired lock if one is there. -/
def acquire (path : EntryPath) (token : Text) (lifetimeSecs : ℤ) (rows : List EntryLockRow) :
    Option EntryLockRow × List EntryLockRow :=
  let row : EntryLockRow := ⟨path.asStr C, token, now + lifetimeSecs⟩
  match lookup rows row.path with
  | some old =>
    if old.expiresAt ≤ now then (some row, Write.apply rows (.put row)) else (none, rows)
  | none => (some row, Write.apply rows (.put row))

/-- Find the live lock by token and update it. -/
def setExpiryOfLiveLock (path : EntryPath) (tokens : List Text) (expiresAt : ℤ → ℤ)
    (rows : List EntryLockRow) : Option EntryLockRow × List EntryLockRow :=
  match lookup rows (path.asStr C) with
  | none => (none, rows)
  | some row =>
    if tokens.contains row.token ∧ now < row.expiresAt then
      let row' := { row with expiresAt := expiresAt row.expiresAt }
      (some row', Write.apply rows (.put row'))
    else (none, rows)

/-- Restart the lifetime of the live lock on `path` held with one of `tokens`. -/
def refresh (path : EntryPath) (tokens : List Text) (lifetimeSecs : ℤ) :=
  setExpiryOfLiveLock C now path tokens fun _ => now + lifetimeSecs

/-- Make the live lock on `path` held with one of `tokens` last at least `horizonSecs` more. -/
def keepAlive (path : EntryPath) (tokens : List Text) (horizonSecs : ℤ) :=
  setExpiryOfLiveLock C now path tokens fun expiresAt => max expiresAt (now + horizonSecs)

/-- Remove the lock held with `token` on `path`, expired or not. -/
def release (path : EntryPath) (token : Text) (rows : List EntryLockRow) :
    Bool × List EntryLockRow :=
  match lookup rows (path.asStr C) with
  | none => (false, rows)
  | some row =>
    if row.token = token then (true, Write.apply rows (.del row.path)) else (false, rows)

/-- Sweep every expired lock. -/
def deleteExpired (rows : List EntryLockRow) : List EntryLockRow :=
  rows.filter fun r => ¬ r.expiresAt ≤ now

end EntryLockRepository

variable (C) in
/-- The rows after a call at a reading of the clock. -/
def LockCall.apply (now : ℤ) (rows : List EntryLockRow) : LockCall → List EntryLockRow
  | .acquire path token lifetimeSecs =>
    (EntryLockRepository.acquire C now path token lifetimeSecs rows).2
  | .refresh path tokens lifetimeSecs =>
    (EntryLockRepository.refresh C now path tokens lifetimeSecs rows).2
  | .keepAlive path tokens horizonSecs =>
    (EntryLockRepository.keepAlive C now path tokens horizonSecs rows).2
  | .release path token => (EntryLockRepository.release C path token rows).2
  | .deleteExpired => EntryLockRepository.deleteExpired now rows

variable (C) in
/-- The rows after a sequence of calls. -/
def lockRun (rows : List EntryLockRow) (calls : List (ℤ × LockCall)) : List EntryLockRow :=
  calls.foldl (fun rows x => x.2.apply C x.1 rows) rows

/-! ## One call -/

variable (C now rows) in
/-- What a call can do to the rows. -/
inductive LockChange : LockCall → List EntryLockRow → Prop
  | nothing (call : LockCall) : LockChange call rows
  | acquired (path : EntryPath) (token : Text) (lifetimeSecs : ℤ)
      (hold : ∀ old ∈ rows, old.path = path.asStr C → old.expiresAt ≤ now) :
      LockChange (.acquire path token lifetimeSecs)
        (Write.apply rows (.put ⟨path.asStr C, token, now + lifetimeSecs⟩))
  | refreshed (path : EntryPath) (tokens : List Text) (lifetimeSecs : ℤ) (row : EntryLockRow)
      (hrow : row ∈ rows) (hpath : row.path = path.asStr C) (htoken : row.token ∈ tokens)
      (hlive : now < row.expiresAt) :
      LockChange (.refresh path tokens lifetimeSecs)
        (Write.apply rows (.put { row with expiresAt := now + lifetimeSecs }))
  | keptAlive (path : EntryPath) (tokens : List Text) (horizonSecs : ℤ) (row : EntryLockRow)
      (hrow : row ∈ rows) (hpath : row.path = path.asStr C) (htoken : row.token ∈ tokens)
      (hlive : now < row.expiresAt) :
      LockChange (.keepAlive path tokens horizonSecs)
        (Write.apply rows (.put { row with expiresAt := max row.expiresAt (now + horizonSecs) }))
  | released (path : EntryPath) (row : EntryLockRow) (hrow : row ∈ rows)
      (hpath : row.path = path.asStr C) :
      LockChange (.release path row.token) (Write.apply rows (.del row.path))
  | swept : LockChange .deleteExpired (rows.filter fun r => ¬ r.expiresAt ≤ now)

theorem lockChange_apply (h : UniqueKeys rows) (call : LockCall) :
    LockChange C now rows call (call.apply C now rows) := by
  have hfind : ∀ {path : EntryPath} {row}, lookup rows (path.asStr C) = some row →
      row ∈ rows ∧ row.path = path.asStr C := fun hrow => lookup_eq_some hrow
  cases call with
  | acquire path token lifetimeSecs =>
    simp only [LockCall.apply, EntryLockRepository.acquire]
    cases hold : lookup rows (path.asStr C) with
    | none =>
      refine .acquired path token lifetimeSecs fun old hmem hpath => ?_
      exact absurd hpath (lookup_eq_none.1 hold old hmem)
    | some row =>
      dsimp only
      split
      · rename_i hexpired
        refine .acquired path token lifetimeSecs fun old hmem hpath => ?_
        have hfound := h.lookup hmem
        rw [key_entryLockRow, hpath, hold] at hfound
        exact Option.some.inj hfound ▸ hexpired
      · exact .nothing _
  | refresh path tokens lifetimeSecs =>
    simp only [LockCall.apply, EntryLockRepository.refresh, EntryLockRepository.setExpiryOfLiveLock]
    cases hold : lookup rows (path.asStr C) with
    | none => exact .nothing _
    | some row =>
      dsimp only
      split
      · rename_i hlive
        obtain ⟨hrow, hpath⟩ := hfind hold
        exact .refreshed path tokens lifetimeSecs row hrow hpath (by simpa using hlive.1) hlive.2
      · exact .nothing _
  | keepAlive path tokens horizonSecs =>
    simp only [LockCall.apply, EntryLockRepository.keepAlive,
      EntryLockRepository.setExpiryOfLiveLock]
    cases hold : lookup rows (path.asStr C) with
    | none => exact .nothing _
    | some row =>
      dsimp only
      split
      · rename_i hlive
        obtain ⟨hrow, hpath⟩ := hfind hold
        exact .keptAlive path tokens horizonSecs row hrow hpath (by simpa using hlive.1) hlive.2
      · exact .nothing _
  | release path token =>
    simp only [LockCall.apply, EntryLockRepository.release]
    cases hold : lookup rows (path.asStr C) with
    | none => exact .nothing _
    | some row =>
      dsimp only
      split
      · rename_i htoken
        obtain ⟨hrow, hpath⟩ := hfind hold
        exact htoken ▸ .released path row hrow hpath
      · exact .nothing _
  | deleteExpired => exact .swept

namespace LockChange

variable {call : LockCall}

theorem unique (h : UniqueKeys rows) (hc : LockChange C now rows call rows') :
    UniqueKeys rows' := by
  cases hc with
  | nothing => exact h
  | acquired => exact h.apply _
  | refreshed => exact h.apply _
  | keptAlive => exact h.apply _
  | released => exact h.apply _
  | swept => exact List.Nodup.sublist (List.filter_sublist.map _) h

/-- A lock that goes or changes was named by the call, or had expired. -/
theorem of_not_mem (hc : LockChange C now rows call rows') (h : UniqueKeys rows) (hr : r ∈ rows)
    (hgone : r ∉ rows') :
    match call with
    | .acquire path _ _ => r.path = path.asStr C ∧ r.expiresAt ≤ now
    | .refresh path tokens _ | .keepAlive path tokens _ =>
      r.path = path.asStr C ∧ r.token ∈ tokens ∧ now < r.expiresAt
    | .release path token => r.path = path.asStr C ∧ r.token = token
    | .deleteExpired => r.expiresAt ≤ now := by
  cases hc with
  | nothing => exact absurd hr hgone
  | acquired path token lifetimeSecs hold =>
    rw [Write.mem_apply_put, not_or, not_and, not_not] at hgone
    exact ⟨hgone.1 hr, hold r hr (hgone.1 hr)⟩
  | refreshed path tokens lifetimeSecs row hrow hpath htoken hlive =>
    rw [Write.mem_apply_put, not_or, not_and, not_not] at hgone
    obtain rfl := h.eq_of_key_eq hr hrow (hgone.1 hr)
    exact ⟨hpath, htoken, hlive⟩
  | keptAlive path tokens horizonSecs row hrow hpath htoken hlive =>
    rw [Write.mem_apply_put, not_or, not_and, not_not] at hgone
    obtain rfl := h.eq_of_key_eq hr hrow (hgone.1 hr)
    exact ⟨hpath, htoken, hlive⟩
  | released path row hrow hpath =>
    rw [Write.mem_apply_del, not_and, not_not] at hgone
    obtain rfl := h.eq_of_key_eq hr hrow (hgone hr)
    exact ⟨hpath, rfl⟩
  | swept =>
    rw [List.mem_filter, not_and] at hgone
    simpa using hgone hr

/-- A lock that is new or changed is one that the call grants, or extends. -/
theorem of_mem (hc : LockChange C now rows call rows') (hr : r' ∈ rows') (hnew : r' ∉ rows) :
    match call with
    | .acquire path token lifetimeSecs => r' = ⟨path.asStr C, token, now + lifetimeSecs⟩
    | .refresh path tokens lifetimeSecs => ∃ r ∈ rows, r.path = path.asStr C ∧ r.token ∈ tokens ∧
        now < r.expiresAt ∧ r' = { r with expiresAt := now + lifetimeSecs }
    | .keepAlive path tokens horizonSecs => ∃ r ∈ rows, r.path = path.asStr C ∧
        r.token ∈ tokens ∧ now < r.expiresAt ∧
        r' = { r with expiresAt := max r.expiresAt (now + horizonSecs) }
    | .release _ _ | .deleteExpired => False := by
  cases hc with
  | nothing => exact absurd hr hnew
  | acquired path token lifetimeSecs hold =>
    exact (Write.mem_apply_put.1 hr).resolve_left fun hr => hnew hr.1
  | refreshed path tokens lifetimeSecs row hrow hpath htoken hlive =>
    obtain rfl := (Write.mem_apply_put.1 hr).resolve_left fun hr => hnew hr.1
    exact ⟨row, hrow, hpath, htoken, hlive, rfl⟩
  | keptAlive path tokens horizonSecs row hrow hpath htoken hlive =>
    obtain rfl := (Write.mem_apply_put.1 hr).resolve_left fun hr => hnew hr.1
    exact ⟨row, hrow, hpath, htoken, hlive, rfl⟩
  | released path row hrow hpath => exact hnew (Write.mem_apply_del.1 hr).1
  | swept => exact hnew (List.mem_filter.1 hr).1

/-- Under `keep_alive` every lock keeps its token and does not expire earlier. -/
theorem keepAlive_forward {path : EntryPath} {tokens : List Text} {horizonSecs : ℤ}
    (hc : LockChange C now rows (.keepAlive path tokens horizonSecs) rows') (h : UniqueKeys rows)
    (hr : r ∈ rows) :
    ∃ r' ∈ rows', r'.path = r.path ∧ r'.token = r.token ∧ r.expiresAt ≤ r'.expiresAt := by
  cases hc with
  | nothing => exact ⟨r, hr, rfl, rfl, le_rfl⟩
  | keptAlive _ _ _ row hrow hpath htoken hlive =>
    by_cases hsame : r.path = row.path
    · obtain rfl := h.eq_of_key_eq hr hrow hsame
      exact ⟨_, Write.mem_apply_put.2 (.inr rfl), rfl, rfl, le_max_left _ _⟩
    · exact ⟨r, Write.mem_apply_put.2 (.inl ⟨hr, hsame⟩), rfl, rfl, le_rfl⟩

end LockChange

theorem mem_release_iff (h : UniqueKeys rows) {path : EntryPath} {token : Text} :
    r ∈ (LockCall.release path token).apply C now rows ↔
      r ∈ rows ∧ ¬ (r.path = path.asStr C ∧ r.token = token) := by
  have hother : ∀ {row : EntryLockRow}, r ∈ rows → row ∈ rows → row.path = path.asStr C →
      r.path = path.asStr C → r = row := fun hr hrow hpath hpath' =>
    h.eq_of_key_eq hr hrow (hpath'.trans hpath.symm)
  simp only [LockCall.apply, EntryLockRepository.release]
  cases hold : lookup rows (path.asStr C) with
  | none =>
    refine ⟨fun hr => ⟨hr, fun hnamed => ?_⟩, And.left⟩
    exact lookup_eq_none.1 hold r hr hnamed.1
  | some row =>
    obtain ⟨hrow, hpath⟩ : row ∈ rows ∧ row.path = path.asStr C := lookup_eq_some hold
    dsimp only
    split
    · rename_i htoken
      rw [Write.mem_apply_del, hpath]
      refine and_congr_right fun hr => ⟨fun hne hnamed => hne hnamed.1, fun hnamed hkey => ?_⟩
      obtain rfl := hother hr hrow hpath hkey
      exact hnamed ⟨hkey, htoken⟩
    · rename_i htoken
      refine ⟨fun hr => ⟨hr, fun hnamed => ?_⟩, And.left⟩
      obtain rfl := hother hr hrow hpath hnamed.1
      exact htoken hnamed.2

/-! ## Sequences of calls -/

variable (C) in
/-- The call gives the lock of the path with the token another lifetime, or gives it up. -/
def LockCall.Ends (key token : Text) : LockCall → Prop
  | .refresh path tokens _ => key = path.asStr C ∧ token ∈ tokens
  | .release path token' => key = path.asStr C ∧ token = token'
  | _ => False

variable (C) in
/-- The call asks for the lock of the path with the token. -/
def LockCall.Grants (key token : Text) : LockCall → Prop
  | .acquire path token' _ => path.asStr C = key ∧ token' = token
  | _ => False

theorem LockChange.forward {call : LockCall} (hc : LockChange C now rows call rows')
    (h : UniqueKeys rows) (hr : r ∈ rows) (hlive : now < r.expiresAt)
    (hends : ¬ call.Ends C r.path r.token) :
    ∃ r' ∈ rows', r'.path = r.path ∧ r'.token = r.token ∧ r.expiresAt ≤ r'.expiresAt := by
  by_cases hstays : r ∈ rows'
  · exact ⟨r, hstays, rfl, rfl, le_rfl⟩
  · have hgone := hc.of_not_mem h hr hstays
    cases call with
    | acquire => exact absurd hgone.2 (not_le.2 hlive)
    | refresh => exact absurd ⟨hgone.1, hgone.2.1⟩ hends
    | keepAlive => exact hc.keepAlive_forward h hr
    | release => exact absurd hgone hends
    | deleteExpired => exact absurd hgone (not_le.2 hlive)

/-- The only lock of the path under the token. -/
def OnlyLock (rows : List EntryLockRow) (r : EntryLockRow) : Prop :=
  ∀ r' ∈ rows, r'.path = r.path → r'.token = r.token → r' = r

theorem LockChange.dead {call : LockCall} (hc : LockChange C now rows call rows')
    (honly : OnlyLock rows r) (hdead : r.expiresAt ≤ now)
    (hgrants : ¬ call.Grants C r.path r.token) : OnlyLock rows' r := by
  intro r' hr' hpath htoken
  by_cases hold : r' ∈ rows
  · exact honly r' hold hpath htoken
  · have hnew := hc.of_mem hr' hold
    cases call with
    | acquire path token lifetimeSecs =>
      obtain rfl := hnew
      exact absurd ⟨hpath, htoken⟩ hgrants
    | refresh path tokens lifetimeSecs =>
      obtain ⟨r₀, hr₀, -, -, hlive, rfl⟩ := hnew
      obtain rfl := honly r₀ hr₀ hpath htoken
      exact absurd hlive (not_lt.2 hdead)
    | keepAlive path tokens horizonSecs =>
      obtain ⟨r₀, hr₀, -, -, hlive, rfl⟩ := hnew
      obtain rfl := honly r₀ hr₀ hpath htoken
      exact absurd hlive (not_lt.2 hdead)
    | release => exact hnew.elim
    | deleteExpired => exact hnew.elim

theorem unique_lockRun (h : UniqueKeys rows) (calls : List (ℤ × LockCall)) :
    UniqueKeys (lockRun C rows calls) := by
  induction calls generalizing rows with
  | nil => exact h
  | cons x calls ih => exact ih ((lockChange_apply h x.2).unique h)

/-- A lock that is live at all calls stays, unless its holder refreshes or releases it, and never
expires earlier than before. -/
theorem run_keeps (h : UniqueKeys rows) (hr : r ∈ rows) {calls : List (ℤ × LockCall)}
    (hlive : ∀ x ∈ calls, x.1 < r.expiresAt)
    (hends : ∀ x ∈ calls, ¬ x.2.Ends C r.path r.token) :
    ∃ r' ∈ lockRun C rows calls, r'.path = r.path ∧ r'.token = r.token ∧
      r.expiresAt ≤ r'.expiresAt := by
  -- the lock may have moved on to a later expiry
  suffices ∀ {rows r₁}, UniqueKeys rows → r₁ ∈ rows → r₁.path = r.path → r₁.token = r.token →
      r.expiresAt ≤ r₁.expiresAt → ∃ r' ∈ lockRun C rows calls, r'.path = r.path ∧
        r'.token = r.token ∧ r.expiresAt ≤ r'.expiresAt from this h hr rfl rfl le_rfl
  induction calls with
  | nil => exact fun _ hr₁ hpath htoken hle => ⟨_, hr₁, hpath, htoken, hle⟩
  | cons x calls ih =>
    intro rows r₁ h hr₁ hpath htoken hle
    obtain ⟨hlive₁, hlive⟩ := List.forall_mem_cons.1 hlive
    obtain ⟨hends₁, hends⟩ := List.forall_mem_cons.1 hends
    rw [← hpath, ← htoken] at hends₁
    have hc : LockChange C x.1 rows x.2 (x.2.apply C x.1 rows) := lockChange_apply h x.2
    obtain ⟨r₂, hr₂, hpath₂, htoken₂, hle₂⟩ := hc.forward h hr₁ (by omega) hends₁
    exact ih hlive hends (hc.unique h) hr₂ (hpath₂.trans hpath) (htoken₂.trans htoken) (by omega)

/-- A lock that is expired at all calls never comes back under its token. -/
theorem run_dead (honly : OnlyLock rows r) (h : UniqueKeys rows) {calls : List (ℤ × LockCall)}
    (hdead : ∀ x ∈ calls, r.expiresAt ≤ x.1)
    (hgrants : ∀ x ∈ calls, ¬ x.2.Grants C r.path r.token) :
    OnlyLock (lockRun C rows calls) r := by
  induction calls generalizing rows with
  | nil => exact honly
  | cons x calls ih =>
    obtain ⟨hdead₁, hdead⟩ := List.forall_mem_cons.1 hdead
    obtain ⟨hgrants₁, hgrants⟩ := List.forall_mem_cons.1 hgrants
    have hc : LockChange C x.1 rows x.2 (x.2.apply C x.1 rows) := lockChange_apply h x.2
    exact ih (hc.dead honly hdead₁ hgrants₁) (hc.unique h) hdead hgrants

/-! ## Timeouts -/

theorem requestedTimeout_bounds (headers : HeaderMap) :
    1 ≤ requestedTimeout headers ∧ requestedTimeout headers ≤ 60 := by
  have hmax : maxLockTimeoutSecs = 60 := rfl
  have hdefault : defaultLockTimeoutSecs = 30 := rfl
  rw [requestedTimeout]
  split
  · omega
  · split <;> omega

/-! ## Lifetimes -/

variable (C) in
/-- What the next call may do to the locks, at any reading of the clock. -/
structure LifetimesKept (rows : List EntryLockRow) : Prop where
  /-- `keep_alive` lets no lock expire earlier. -/
  forward (now : ℤ) (path : EntryPath) (tokens : List Text) (horizonSecs : ℤ) :
    ∀ r ∈ rows, ∃ r' ∈ (LockCall.keepAlive path tokens horizonSecs).apply C now rows,
      r'.path = r.path ∧ r'.token = r.token ∧ r.expiresAt ≤ r'.expiresAt
  /-- `keep_alive` leaves expired locks alone, and locks that have replaced the presented ones. -/
  keepAlive (now : ℤ) (path : EntryPath) (tokens : List Text) (horizonSecs : ℤ) :
    ∀ r, r ∈ (LockCall.keepAlive path tokens horizonSecs).apply C now rows → r ∉ rows →
      ∃ r₀ ∈ rows, r₀.path = path.asStr C ∧ r₀.token ∈ tokens ∧ now < r₀.expiresAt ∧
        r = { r₀ with expiresAt := max r₀.expiresAt (now + horizonSecs) }
  /-- `refresh` changes the live lock of the path, if it has a presented token. -/
  refresh (now : ℤ) (path : EntryPath) (tokens : List Text) (lifetimeSecs : ℤ) :
    (∀ r ∈ rows, r ∉ (LockCall.refresh path tokens lifetimeSecs).apply C now rows →
      r.path = path.asStr C ∧ r.token ∈ tokens ∧ now < r.expiresAt) ∧
    ∀ r, r ∈ (LockCall.refresh path tokens lifetimeSecs).apply C now rows → r ∉ rows →
      ∃ r₀ ∈ rows, r₀.path = path.asStr C ∧ r₀.token ∈ tokens ∧ now < r₀.expiresAt ∧
        r = { r₀ with expiresAt := now + lifetimeSecs }
  /-- `release` removes the lock of the path with the token, whether or not it has expired. -/
  release (now : ℤ) (path : EntryPath) (token : Text) (r : EntryLockRow) :
    r ∈ (LockCall.release path token).apply C now rows ↔
      r ∈ rows ∧ ¬ (r.path = path.asStr C ∧ r.token = token)
  /-- `acquire` replaces expired locks only. -/
  acquire (now : ℤ) (path : EntryPath) (token : Text) (lifetimeSecs : ℤ) :
    ∀ r ∈ rows, r ∉ (LockCall.acquire path token lifetimeSecs).apply C now rows →
      r.path = path.asStr C ∧ r.expiresAt ≤ now

theorem lifetimesKept (h : UniqueKeys rows) : LifetimesKept C rows where
  forward _ _ _ _ _ hr := (lockChange_apply h _).keepAlive_forward h hr
  keepAlive _ path tokens horizonSecs _ hr hnew :=
    (lockChange_apply h (.keepAlive path tokens horizonSecs)).of_mem hr hnew
  refresh _ path tokens lifetimeSecs :=
    ⟨fun _ hr hgone =>
      (lockChange_apply h (.refresh path tokens lifetimeSecs)).of_not_mem h hr hgone,
    fun _ hr hnew => (lockChange_apply h (.refresh path tokens lifetimeSecs)).of_mem hr hnew⟩
  release _ _ _ _ := mem_release_iff h
  acquire _ path token lifetimeSecs _ hr hgone :=
    (lockChange_apply h (.acquire path token lifetimeSecs)).of_not_mem h hr hgone

/-- After any sequence of calls, at any readings of the clock: the next call keeps to its part. A
lock that is live at all calls that follow stays, and never expires earlier, unless its holder
refreshes or releases it; a lock that is expired at all calls that follow never comes back. The
lifetime that a request asks for is between one second and a minute. -/
theorem lock_lifetimes (C : StorageCrates) {rows : List EntryLockRow} (h : UniqueKeys rows)
    (calls : List (ℤ × LockCall)) :
    LifetimesKept C (lockRun C rows calls) ∧
    (∀ r ∈ lockRun C rows calls, ∀ more : List (ℤ × LockCall),
      ((∀ x ∈ more, x.1 < r.expiresAt) → (∀ x ∈ more, ¬ x.2.Ends C r.path r.token) →
        ∃ r' ∈ lockRun C (lockRun C rows calls) more, r'.path = r.path ∧ r'.token = r.token ∧
          r.expiresAt ≤ r'.expiresAt) ∧
      ((∀ x ∈ more, r.expiresAt ≤ x.1) → (∀ x ∈ more, ¬ x.2.Grants C r.path r.token) →
        OnlyLock (lockRun C (lockRun C rows calls) more) r)) ∧
    ∀ headers : HeaderMap, 1 ≤ requestedTimeout headers ∧ requestedTimeout headers ≤ 60 := by
  have hunique : UniqueKeys (lockRun C rows calls) := unique_lockRun h calls
  refine ⟨lifetimesKept hunique, fun r hr more => ⟨?_, ?_⟩, requestedTimeout_bounds⟩
  · exact run_keeps hunique hr
  · refine run_dead (fun r' hr' hpath _ => ?_) hunique
    exact hunique.eq_of_key_eq hr' hr hpath

/-- A lock of Alice's file. -/
def Sample.aliceLock : EntryLockRow := ⟨keyOf alice "/pub/a", "t".toList, 1030⟩

open Sample in
/-- Kept alive once, the lock does not expire earlier. -/
theorem lock_lifetimes_sample :
    ∃ r' ∈ lockRun crates [aliceLock] [(1010, .keepAlive aliceFile ["t".toList] 30)],
      r'.path = aliceLock.path ∧ r'.token = aliceLock.token ∧ 1030 ≤ r'.expiresAt :=
  have hunique : UniqueKeys [aliceLock] := by simp [UniqueKeys]
  have hlater := (lock_lifetimes crates hunique []).2.1 aliceLock (List.mem_singleton_self _)
    [(1010, .keepAlive aliceFile ["t".toList] 30)]
  hlater.1 (by simp [aliceLock]) (by simp [LockCall.Ends])

end Pubky.Homeserver.Storage

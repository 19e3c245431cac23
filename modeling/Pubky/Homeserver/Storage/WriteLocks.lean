import Pubky.Homeserver.Storage.Sample

/-!
# Write locks

A write lock is a row of `entry_locks` with a token and an expiry. It is looked at when a request
starts, kept alive by a task during the upload, and held by the transaction that finalizes the
write. `write_locks_exclude` says what this amounts to under any interleaving:

* while a lock is live no other token is granted for its path,
* a write without a token starts after it has found the path without a live lock,
* a write with tokens is committed by a transaction that has found the lock live under one of
  them, and since then the path has no lock with another token, even if the lock expires.
-/

namespace Pubky.Homeserver.Storage

open Sql Conc Conc.Logic

variable {cfg : Config} {C : StorageCrates} {strict steady : Prop} {i : ℕ} {o : Op}
  {p p' p₀ : Pl} {w : Wld} {s s' : State} {l : Lbl} {r : Request}

/-! ## Tokens -/

/-- The lock has not expired. -/
def State.Live (s : State) (row : EntryLockRow) : Prop :=
  row ∈ s.entryLocks.rows ∧ s.clock < row.expiresAt

/-- The path has no lock with another token. -/
def State.OnlyToken (s : State) (key token : Text) : Prop :=
  ∀ row ∈ s.entryLocks.rows, row.path = key → row.token = token

theorem onlyToken_of_mem (h : UniqueKeys s.entryLocks.rows) {row : EntryLockRow}
    (hrow : row ∈ s.entryLocks.rows) : s.OnlyToken row.path row.token := by
  intro row' hrow' hpath
  rw [h.eq_of_key_eq hrow' hrow hpath]

/-- No operation grants another token while a lock is live. -/
theorem effect_onlyToken (hi : Inv C steady w) (hpre : OpPre cfg C strict steady i w o)
    (h : Effect cfg C i w.state o s') {row : EntryLockRow} (hlive : w.state.Live row) :
    s'.OnlyToken row.path row.token := by
  have hsame : ∀ row' ∈ w.state.entryLocks.rows, row'.path = row.path → row'.token = row.token :=
    onlyToken_of_mem hi.locks.unique hlive.1
  cases h with
  | commit ha =>
    intro row' hrow' hpath
    -- a transaction changes expiries only
    rcases mem_or_put_of_mem_foldl hrow' with hrow' | hput
    · exact hsame row' hrow' hpath
    · obtain ⟨⟨old, hold, hkey, htoken⟩, -⟩ := hi.locks.puts i row' hput
      exact htoken.symm.trans (hsame old hold (hkey.trans hpath))
  | acquireLock path token lifetime now hl hb hold =>
    intro row' hrow' hpath
    rcases Write.mem_apply_put.1 hrow' with ⟨hrow', -⟩ | rfl
    · exact hsame row' hrow' hpath
    · -- a lock that is replaced had expired when the clock was read
      have hfound : lookup w.state.entryLocks.rows (path.asStr C) = some row := by
        have hpath : path.asStr C = row.path := hpath
        rw [hpath]
        exact hi.locks.unique.lookup hlive.1
      exact absurd hlive.2 (Int.not_lt.2 (Int.le_trans (hold row hfound) hpre.2.2))
  | releaseLock path token hl hb =>
    exact fun row' hrow' hpath => hsame row' (Write.mem_apply_del.1 hrow').1 hpath
  | deleteExpiredLocks now hl hb =>
    exact fun row' hrow' hpath => hsame row' (List.mem_filter.1 hrow').1 hpath
  | carriedOut request hmeets =>
    rw [carriedOut_eq]
    exact hsame
  | _ => exact hsame

/-- The environment leaves locks alone; with the connection of a transaction what it holds is
gone. -/
theorem env_locks {e : Env} (h : env C e s = some s') :
    s'.entryLocks.rows = s.entryLocks.rows ∧ s'.unlocked = s.unlocked ∧
      ∀ x ∈ s'.held, x ∈ s.held := by
  cases e with
  | tick clock =>
    simp only [env] at h
    split at h
    · cases h
      exact ⟨rfl, rfl, fun _ hx => hx⟩
    · cases h
  | addUser key quota =>
    simp only [env] at h
    split at h
    · cases h
    · cases h
      exact ⟨rfl, rfl, fun _ hx => hx⟩
  | lose k =>
    simp only [env] at h
    split at h
    · cases h
      exact ⟨rfl, rfl, fun _ hx => (List.mem_filter.1 hx).1⟩
    · cases h
  | land n =>
    simp only [env] at h
    split at h
    · cases h
    · cases h
      rw [carryOut_eq]
      exact ⟨rfl, rfl, fun _ hx => hx⟩
  | disconnect k =>
    cases h
    exact ⟨rfl, rfl, fun _ hx => hx⟩
  | expireQuota key =>
    cases h
    exact ⟨rfl, rfl, fun _ hx => hx⟩

/-- No step grants another token while a lock is live. -/
theorem next_onlyToken {hC : C.Lawful} (hp : (storageLogic cfg hC strict steady).PoolSafe p)
    (h : p.Next (machine cfg C) l p') {row : EntryLockRow} (hlive : p.world.state.Live row) :
    p'.world.state.OnlyToken row.path row.token := by
  have hsame := onlyToken_of_mem hp.inv.locks.unique hlive.1
  cases h with
  | call k c hk => exact hsame
  | ret k a hk => exact hsame
  | drop k q hk => exact hsame
  | env e s hx =>
    intro row' hrow'
    rw [World.setState_state, (env_locks hx).1] at hrow'
    exact hsame row' hrow'
  | op k o q inp res s hk hx => exact effect_onlyToken hp.inv (hp.pre hk).2 (exec_effect hx) hlive

/-! ## Checks -/

/-- Files are recorded as unlocked by the check that finds no live lock. -/
theorem effect_unlocked (h : Effect cfg C i s o s') {x : ℕ × Text} (hx : x ∈ s'.unlocked)
    (hnew : x ∉ s.unlocked) :
    x.1 = i ∧ ∃ path : EntryPath, o = .getActiveLock path ∧ x.2 = path.asStr C ∧
      s.getActiveLock C i path = none := by
  cases h with
  | noLock path hnone =>
    rcases List.mem_cons.1 hx with rfl | hx
    · exact ⟨rfl, path, rfl, rfl, hnone⟩
    · exact absurd hx hnew
  | carriedOut request hmeets =>
    rw [carriedOut_eq] at hx
    exact absurd hx hnew
  | _ => exact absurd hx hnew

theorem next_unlocked (h : p.Next (machine cfg C) l p') {x : ℕ × Text}
    (hx : x ∈ p'.world.state.unlocked) (hnew : x ∉ p.world.state.unlocked) :
    ∃ (path : EntryPath) (c : Choice), l = .op x.1 (.getActiveLock path) c ∧
      x.2 = path.asStr C ∧ p.world.state.getActiveLock C x.1 path = none := by
  cases h with
  | call k c hk => exact absurd hx hnew
  | ret k a hk => exact absurd hx hnew
  | drop k q hk => exact absurd hx hnew
  | env e s he =>
    rw [World.setState_state, (env_locks he).2.1] at hx
    exact absurd hx hnew
  | op k o q inp res s hk he =>
    have heff : Effect cfg C k p.world.state o s := exec_effect he
    obtain ⟨rfl, path, rfl, hkey, hnone⟩ := effect_unlocked heff hx hnew
    exact ⟨path, inp, rfl, hkey, hnone⟩

/-! ## Transactions that hold a lock -/

/-- A transaction holds a lock since the statement that found it live. -/
theorem effect_held (h : Effect cfg C i s o s') {x : Held} (hx : x ∈ s'.held)
    (hnew : x ∉ s.held) :
    x.thread = i ∧ ∃ path : EntryPath, o = .holdLock path x.token x.found ∧
      x.key = path.asStr C ∧ x.found < x.expiresAt ∧ s.lost i = false ∧
      lookup (s.entryLocks.view i) x.key = some ⟨x.key, x.token, x.expiresAt⟩ := by
  cases h with
  | holdLock path now hl row hrow hb hlive =>
    rcases List.mem_cons.1 hx with rfl | hx
    · have hpath : row.path = path.asStr C := (lookup_eq_some hrow).2
      refine ⟨rfl, path, rfl, rfl, hlive, hl, ?_⟩
      rw [← hpath] at hrow ⊢
      exact hrow
    · exact absurd hx hnew
  | commit ha => exact absurd (List.mem_filter.1 hx).1 hnew
  | rollback o ho => exact absurd (List.mem_filter.1 hx).1 hnew
  | carriedOut request hmeets =>
    rw [carriedOut_eq] at hx
    exact absurd hx hnew
  | _ => exact absurd hx hnew

theorem next_held (h : p.Next (machine cfg C) l p') {x : Held}
    (hx : x ∈ p'.world.state.held) (hnew : x ∉ p.world.state.held) :
    ∃ (path : EntryPath) (c : Choice) (k : (Op.holdLock path x.token x.found).Res → _),
      l = .op x.thread (.holdLock path x.token x.found) c ∧
      p.threads x.thread = some (.op (.holdLock path x.token x.found) k) ∧
      x.key = path.asStr C ∧ x.found < x.expiresAt ∧ p.world.state.lost x.thread = false ∧
      lookup (p.world.state.entryLocks.view x.thread) x.key =
        some ⟨x.key, x.token, x.expiresAt⟩ := by
  cases h with
  | call k c hk => exact absurd hx hnew
  | ret k a hk => exact absurd hx hnew
  | drop k q hk => exact absurd (List.mem_filter.1 hx).1 hnew
  | env e s he => exact absurd ((env_locks he).2.2 x hx) hnew
  | op k o q inp res s hk he =>
    have heff : Effect cfg C k p.world.state o s := exec_effect he
    obtain ⟨rfl, path, rfl, hkey, hlive, hl, hrow⟩ := effect_held heff hx hnew
    exact ⟨path, inp, q, rfl, hk, hkey, hlive, hl, hrow⟩

/-! ## Runs -/

variable (cfg C) in
/-- In the run from `p₀` to `p` call `i` has checked the file and found no live lock. -/
def FoundUnlocked (p₀ p : Pl) (i : ℕ) (path : EntryPath) : Prop :=
  ∃ (q q' : Pl) (a : Conc.Action Choice Env Call) (c : Choice), Runs cfg C False False p₀ q ∧
    q.next (machine cfg C) a = some (.op i (.getActiveLock path) c, q') ∧
    (∀ row ∈ q.world.state.entryLocks.rows, row.path = path.asStr C →
      row.expiresAt ≤ q.world.state.clock) ∧
    Runs cfg C False False q' p

variable (cfg C) in
/-- In the run from `p₀` to `p` the transaction of call `i`, which has not ended since, has found
the lock of the file live with this token, and no other token was granted since. -/
def HoldsSince (p₀ p : Pl) (i : ℕ) (path : EntryPath) (token : Text) : Prop :=
  ∃ (q q' : Pl) (a : Conc.Action Choice Env Call) (c : Choice) (now : ℤ),
    Runs cfg C False False p₀ q ∧
    q.next (machine cfg C) a = some (.op i (.holdLock path token now) c, q') ∧
    now ≤ q.world.state.clock ∧
    (∃ row ∈ q.world.state.entryLocks.rows, row.path = path.asStr C ∧ row.token = token ∧
      now < row.expiresAt) ∧
    Steps (machine cfg C) (fun w l => Admits C False False w l ∧ w.state.alive i = true ∧
      w.state.OnlyToken (path.asStr C) token) q' p ∧
    p.world.state.OnlyToken (path.asStr C) token

section

variable (hC : C.Lawful) (h₀ : Initial C p₀) (hrun : Runs cfg C False False p₀ p)
include hC h₀ hrun

theorem foundUnlocked_of_mem {path : EntryPath}
    (h : (i, path.asStr C) ∈ p.world.state.unlocked) : FoundUnlocked cfg C p₀ p i path := by
  have hstart : (i, path.asStr C) ∉ p₀.world.state.unlocked := by simp [h₀.still.unlocked]
  obtain ⟨q, q', l, a, hq, hnext, hallow, hbefore, hafter, hsince⟩ :=
    Steps.since _ _ (X := fun w => (i, path.asStr C) ∈ w.state.unlocked) hrun hstart h
  have hpq := Runs.poolSafe hC hq h₀ False.elim
  obtain ⟨path', c, rfl, hkey, hnone⟩ := next_unlocked (Pool.next_cases _ hnext) hafter hbefore
  obtain rfl := EntryPath.asStr_injective hC hkey
  refine ⟨q, q', a, c, hq, hnext, fun row hrow hpath => ?_,
    Steps.mono _ _ (fun _ _ ha => ha.1) hsince⟩
  -- outside of a transaction the check sees the committed rows
  have hview : q.world.state.entryLocks.view i = q.world.state.entryLocks.rows := by
    cases Pool.next_cases _ hnext with
    | op _ _ k _ res s hi hx =>
      have hout : Outside q.world.state i := (hpq.pre hi).2
      exact Table.view_of_writesOf_eq_nil (hpq.inv.idle i hout.dead).entryLocks
  have hfound : lookup q.world.state.entryLocks.rows (path.asStr C) = some row := by
    rw [← hpath]
    exact hpq.inv.locks.unique.lookup hrow
  rw [State.getActiveLock, hview, hfound] at hnone
  simpa using hnone

/-- While a transaction holds a lock, the lock stays as it was found. -/
theorem holdsSince_of_mem {x : Held} (h : x ∈ p.world.state.held) {path : EntryPath}
    (hpath : x.key = path.asStr C) : HoldsSince cfg C p₀ p x.thread path x.token := by
  have hholds : ∀ {q : Pl}, Runs cfg C False False p₀ q → x ∈ q.world.state.held →
      q.world.state.alive x.thread = true ∧
        q.world.state.OnlyToken (path.asStr C) x.token := by
    intro q hq hx
    have hpq := Runs.poolSafe hC hq h₀ False.elim
    obtain ⟨-, -, -, hrow, -⟩ := hpq.inv.locks.held x hx
    refine ⟨by_contra fun hdead => ?_, hpath ▸ onlyToken_of_mem hpq.inv.locks.unique hrow⟩
    exact (hpq.inv.idle x.thread (by simpa using hdead)).held x hx rfl
  have hstart : x ∉ p₀.world.state.held := by simp [h₀.still.held]
  obtain ⟨q, q', l, a, hq, hnext, hallow, hbefore, hafter, hsince⟩ :=
    Steps.since _ _ (X := fun w => x ∈ w.state.held) hrun hstart h
  have hpq := Runs.poolSafe hC hq h₀ False.elim
  obtain ⟨path', c, k, rfl, hthread, hkey, hlive, hl, hrow⟩ :=
    next_held (Pool.next_cases _ hnext) hafter hbefore
  obtain rfl := EntryPath.asStr_injective hC (hpath.symm.trans hkey)
  have hpre : During q.world.state x.thread (x.found ≤ q.world.state.clock ∧
      q.world.state.entryLocks.writesOf x.thread = []) := (hpq.pre hthread).2
  obtain ⟨-, hnow, hwrites⟩ := hpre.of_not_lost hl
  rw [Table.view_of_writesOf_eq_nil hwrites] at hrow
  refine ⟨q, q', a, c, x.found, hq, hnext, hnow, ⟨_, (lookup_eq_some hrow).1, hkey, rfl, hlive⟩, ?_,
    (hholds hrun h).2⟩
  refine Steps.along _ _ (fun b l hb ha => ?_) hsince
  have hreach : Runs cfg C False False p₀ b :=
    (hq.tail ⟨_, a, hnext, hallow⟩).trans (Steps.mono _ _ (fun _ _ ha => ha.1) hb)
  exact ⟨ha.1, hholds hreach ha.2⟩

end

/-- Write locks exclude. -/
theorem write_locks_exclude (hC : C.Lawful) (h₀ : Initial C p₀)
    (hrun : Runs cfg C False False p₀ p) {a : Conc.Action Choice Env Call}
    (hnext : p.next (machine cfg C) a = some (l, p')) :
    (∀ row, p.world.state.Live row → p'.world.state.OnlyToken row.path row.token) ∧
    ∀ i r, .call i (.request r) ∈ p.world.hist → r.IsWrite →
      (r.tokens = [] → ∀ o c, l = .op i o c → ¬ o.Checks →
        ∃ path, r.target C = .ok path ∧ FoundUnlocked cfg C p₀ p i path) ∧
      (r.tokens ≠ [] → ∀ c, l = .op i .commit c → p.world.state.alive i = true →
        p.world.state.entries.writesOf i ≠ [] →
        ∃ path, r.target C = .ok path ∧ ∃ token ∈ r.tokens, HoldsSince cfg C p₀ p i path token) := by
  have hp := hrun.poolSafe hC h₀ False.elim
  have hcases := Pool.next_cases _ hnext
  refine ⟨fun row hlive => next_onlyToken hp hcases hlive, fun i r hcall hwrite => ⟨?_, ?_⟩⟩
  · rintro htokens o c rfl hcheck
    cases hcases with
    | op _ _ k _ res s hi hx =>
      obtain ⟨path, htarget, hmem⟩ :=
        (hp.pre hi).1.resolve_left hcheck r hcall hwrite htokens
      exact ⟨path, htarget, foundUnlocked_of_mem hC h₀ hrun hmem⟩
  · rintro htokens c rfl halive hwrites
    cases hcases with
    | op _ _ k _ res s hi hx =>
      obtain ⟨-, hholds⟩ := (hp.pre hi).2 halive
      obtain ⟨x, hmem, rfl, htoken, path, htarget, hkey⟩ := hholds r hcall hwrite htokens hwrites
      exact ⟨path, htarget, x.token, htoken, holdsSince_of_mem hC h₀ hrun hmem hkey⟩

open Sample in
/-- The second request is about to commit its file, and every lock has expired. -/
def commitsExpired (p : Pl) : Bool :=
  match p.world.hist, p.next (machine onFileSystem crates) (.run 1 .done) with
  | .call 1 (.request r) :: _, some (.op 1 .commit .done, _) =>
    r = putRequest "/pub/a" (presenting "t") (utf8 "a".toList) &&
      (p.world.state.alive 1 && (p.world.state.entries.writesOf 1 ≠ [] &&
        p.world.state.entryLocks.rows.all fun row => row.expiresAt < p.world.state.clock))
  | _, _ => false

open Sample in
/-- Alice locks `/pub/a` and writes it under the token. The lock expires while the write is
finalized. -/
theorem write_locks_exclude_sample :
    ∃ (p p' : Pl) (path : EntryPath), Runs onFileSystem crates False False start p ∧
      p.next (machine onFileSystem crates) (.run 1 .done) = some (.op 1 .commit .done, p') ∧
      (∀ row ∈ p.world.state.entryLocks.rows, row.expiresAt < p.world.state.clock) ∧
      path.asStr crates = keyOf alice "/pub/a" ∧
      HoldsSince onFileSystem crates start p 1 path "t".toList := by
  have hrun : (start.run (machine onFileSystem crates) (Admits crates False False)
      (.call 0 (.request (lockRequest "/pub/a")) :: proceed 0 1 ++ .run 0 (.token "t".toList) ::
        proceed 0 5 ++
        .call 1 (.request (putRequest "/pub/a" (presenting "t") (utf8 "a".toList))) ::
        proceed 1 26 ++ [.env (.tick 1700001000)])).any commitsExpired := by
    decide +kernel
  obtain ⟨p, hp, h⟩ := Pool.exists_steps_of_run _ _ hrun
  unfold commitsExpired at h
  split at h
  · rename_i r rest p' hhist hnext
    simp only [Bool.and_eq_true, decide_eq_true_eq, List.all_eq_true] at h
    obtain ⟨rfl, halive, hwrites, hexpired⟩ := h
    obtain ⟨path, htarget, token, htoken, hholds⟩ :=
      ((write_locks_exclude crates_lawful start_initial hp hnext).2 1 _
        (hhist ▸ List.mem_cons_self) (.inl rfl)).2 (by decide +kernel) .done rfl halive hwrites
    have htokens : (putRequest "/pub/a" (presenting "t") (utf8 "a".toList)).tokens =
        ["t".toList] := by decide +kernel
    have hkey : ((putRequest "/pub/a" (presenting "t") (utf8 "a".toList)).target crates).toOption.map
        (EntryPath.asStr crates) = some (keyOf alice "/pub/a") := by decide +kernel
    rw [htarget] at hkey
    rw [htokens] at htoken
    obtain rfl := List.mem_singleton.1 htoken
    exact ⟨p, p', path, hp, hnext, hexpired, Option.some.inj hkey, hholds⟩
  · cases h

end Pubky.Homeserver.Storage

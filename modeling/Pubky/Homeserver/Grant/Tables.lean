import Pubky.Homeserver.Grant.Frame

/-!
# The tables in every state

What holds of the users, grants and sessions tables between any two operations, and how the
rows of the grants and users tables develop:

* `UsersOk`: users are only ever added,
* `GrantsOk`: a row of `grants` is only ever changed by a revocation, and the row of a grant
  whose revocation was committed is marked as revoked,
* `SessionsOk`: a transaction that deletes or inserts sessions of a grant holds the lock on the
  grant's row; a grant has at most one session, the one that was inserted last.
-/

namespace Pubky.Homeserver.Grant

open Sql

/-! ## The log -/

section Log

variable {τ : Type}

/-- The sessions that a list of statements inserts. -/
def inserted (stmts : List (Stmt τ)) : List GrantSessionRow :=
  stmts.filterMap fun
    | .insertSession row => some row
    | _ => none

/-- The token hashes that committed transactions inserted for grant `g`, oldest first. -/
def issued (wal : List (ℕ × List (Stmt τ))) (g : Text) : List SessionTokenHash :=
  wal.flatMap fun e => ((inserted e.2).filter fun r => r.grantId = g).map GrantSessionRow.tokenHash

theorem issued_append (i : ℕ) (wal : List (ℕ × List (Stmt τ))) (stmts : List (Stmt τ)) (g : Text) :
    issued (wal ++ [(i, stmts)]) g = issued wal g ++
      ((inserted stmts).filter fun r => r.grantId = g).map GrantSessionRow.tokenHash := by
  simp [issued]

@[simp] theorem inserted_append (st st' : List (Stmt τ)) :
    inserted (st ++ st') = inserted st ++ inserted st' :=
  List.filterMap_append

theorem mem_issued {wal : List (ℕ × List (Stmt τ))} {e : ℕ × List (Stmt τ)}
    {row : GrantSessionRow} {g : Text} (he : e ∈ wal) (hrow : .insertSession row ∈ e.2)
    (hg : row.grantId = g) : row.tokenHash ∈ issued wal g := by
  refine List.mem_flatMap.2 ⟨e, he, List.mem_map.2 ⟨row, List.mem_filter.2 ⟨?_, by simpa using hg⟩,
    rfl⟩⟩
  exact List.mem_filterMap.2 ⟨_, hrow, rfl⟩

theorem issued_mono {wal wal' : List (ℕ × List (Stmt τ))} (h : wal <+: wal') (g : Text) :
    issued wal g <+: issued wal' g := by
  obtain ⟨rest, rfl⟩ := h
  exact ⟨issued rest g, by simp [issued]⟩

/-- All sessions that committed transactions inserted. -/
def allInserted (wal : List (ℕ × List (Stmt τ))) : List GrantSessionRow :=
  wal.flatMap fun e => inserted e.2

theorem issued_eq (wal : List (ℕ × List (Stmt τ))) (g : Text) :
    issued wal g =
      ((allInserted wal).filter fun r => r.grantId = g).map GrantSessionRow.tokenHash := by
  simp only [issued, allInserted, List.filter_flatMap, List.map_flatMap]

theorem mem_issued_iff {wal : List (ℕ × List (Stmt τ))} {g : Text} {h : SessionTokenHash} :
    h ∈ issued wal g ↔ ∃ row ∈ allInserted wal, row.grantId = g ∧ row.tokenHash = h := by
  simp [issued_eq, and_assoc]

/-- If no call inserts two sessions, and different calls insert sessions with different hashes,
then all hashes are different. -/
theorem nodup_allInserted {wal : List (ℕ × List (Stmt τ))}
    (hone : ∀ i, (allInserted (wal.filter fun e => e.1 = i)).length ≤ 1)
    (hne : ∀ e ∈ wal, ∀ e' ∈ wal, e.1 ≠ e'.1 → ∀ r ∈ inserted e.2, ∀ r' ∈ inserted e'.2,
      r.tokenHash ≠ r'.tokenHash) :
    ((allInserted wal).map GrantSessionRow.tokenHash).Nodup := by
  induction wal with
  | nil => simp [allInserted]
  | cons e wal ih =>
    have htail : ((allInserted wal).map GrantSessionRow.tokenHash).Nodup := by
      refine ih (fun i => le_trans ?_ (hone i)) fun e₁ h₁ e₂ h₂ => ?_
      · by_cases hi : e.1 = i <;> simp [allInserted, hi]
      · exact hne e₁ (List.mem_cons_of_mem _ h₁) e₂ (List.mem_cons_of_mem _ h₂)
    -- the sessions of the first transaction, and the later ones of the same call
    have hhead : (inserted e.2).length + (allInserted (wal.filter fun e' => e'.1 = e.1)).length ≤ 1 := by
      simpa [allInserted] using hone e.1
    have hcons : (allInserted (e :: wal)).map GrantSessionRow.tokenHash =
        (inserted e.2).map GrantSessionRow.tokenHash ++
          (allInserted wal).map GrantSessionRow.tokenHash := by
      simp [allInserted]
    rw [hcons]
    refine List.Nodup.append ?_ htail fun k hk hk' => ?_
    · refine List.nodup_iff_count_le_one.2 fun k => (List.count_le_length).trans ?_
      rw [List.length_map]
      omega
    · obtain ⟨r, hr, rfl⟩ := List.mem_map.1 hk
      obtain ⟨r', hr', heq⟩ := List.mem_map.1 hk'
      obtain ⟨e', he', hre'⟩ := List.mem_flatMap.1 hr'
      by_cases hcall : e'.1 = e.1
      · have hmem : r' ∈ allInserted (wal.filter fun e' => e'.1 = e.1) :=
          List.mem_flatMap.2 ⟨e', List.mem_filter.2 ⟨he', by simpa using hcall⟩, hre'⟩
        have h₁ := List.length_pos_of_mem hr
        have h₂ := List.length_pos_of_mem hmem
        omega
      · exact hne e (List.mem_cons_self ..) e' (List.mem_cons_of_mem _ he') (Ne.symm hcall) r hr r' hre'
          heq.symm

end Log

/-! ## Versions of a grant -/

section Versions

variable {τ : Type} {r r₁ r₂ r₃ : GrantRow τ}

/-- The second row is a later version of the first. -/
structure GrantRow.Becomes (r₁ r₂ : GrantRow τ) : Prop where
  eq : r₂ = { r₁ with revokedAt := r₂.revokedAt }
  revoked : r₁.revokedAt.isSome → r₂.revokedAt.isSome

theorem GrantRow.Becomes.refl (r : GrantRow τ) : r.Becomes r :=
  ⟨rfl, fun h => h⟩

theorem GrantRow.Becomes.trans (h : r₁.Becomes r₂) (h' : r₂.Becomes r₃) : r₁.Becomes r₃ := by
  refine ⟨?_, h'.revoked ∘ h.revoked⟩
  rw [h'.eq, h.eq]

theorem GrantRow.Becomes.id_eq (h : r₁.Becomes r₂) : r₂.id = r₁.id := by
  rw [h.eq]

/-- The row after `UPDATE grants SET revoked_at`. -/
def GrantRow.revoke (r : GrantRow τ) (now : Int64) : GrantRow τ :=
  { r with revokedAt := some now }

theorem GrantRow.becomes_revoke (r : GrantRow τ) (now : Int64) : r.Becomes (r.revoke now) :=
  ⟨rfl, fun _ => rfl⟩

/-- Call `i` is about to revoke the grant `g`. -/
def Revoking (t : Table (GrantRow τ) Text) (i : ℕ) (g : Text) : Prop :=
  ∃ r ∈ t.rows, r.id = g ∧ ∃ now, t.writesOf i = [.put (r.revoke now)]

variable {t t' : Table (GrantRow τ) Text} {i j : ℕ} {g : Text}

/-- Only the lock on its row and the row itself matter to a revocation. -/
theorem Revoking.mono (h : Revoking t i g) (hw : t'.writesOf i = t.writesOf i)
    (hrows : ∀ r ∈ t.rows, r.id = g → r ∈ t'.rows) : Revoking t' i g := by
  obtain ⟨r, hr, hid, now, hput⟩ := h
  exact ⟨r, hrows r hr hid, hid, now, hw.trans hput⟩

theorem Revoking.lock_mem (h : Revoking t i g) (hl : t.Locked) : (i, g) ∈ t.locks := by
  obtain ⟨r, -, rfl, now, hput⟩ := h
  exact hl.writes (w := .put (r.revoke now)) (by simp [hput])

/-- The view of a transaction that writes the new version of one row. -/
theorem mem_view_of_revoking {v : GrantRow τ} {now : Int64}
    (hput : t.writesOf i = [.put (r.revoke now)]) :
    v ∈ t.view i ↔ (v ∈ t.rows ∧ v.id ≠ r.id) ∨ v = r.revoke now := by
  rw [Table.view, hput, List.foldl_cons, List.foldl_nil, Write.mem_apply_put]
  rfl

end Versions

variable {τ : Type} [Field τ] [LinearOrder τ] {C : Crates} {i j : ℕ} {s s' : State τ} {o : Op τ}

/-! ## Users -/

/-- A transaction adds at most one user, under a key that no committed row has. -/
structure UsersOk (t : Table UserRow Text) : Prop where
  locked : t.Locked
  writes : ∀ i, t.writesOf i = [] ∨
    ∃ u, t.writesOf i = [.put u] ∧ ∀ r ∈ t.rows, r.publicKey ≠ u.publicKey

namespace UsersOk

variable {t : Table UserRow Text}

theorem view_eq (h : UsersOk t) (i : ℕ) : t.view i = t.rows ∨
    ∃ u, t.writesOf i = [.put u] ∧ t.view i = t.rows ++ [u] := by
  rcases h.writes i with hw | ⟨u, hw, hu⟩
  · exact .inl (Table.view_of_writesOf_eq_nil hw)
  · refine .inr ⟨u, hw, ?_⟩
    rw [Table.view, hw, List.foldl_cons, List.foldl_nil, Write.apply,
      List.filter_eq_self.2 fun r hr => by simpa using hu r hr]

theorem rows_prefix_view (h : UsersOk t) (i : ℕ) : t.rows <+: t.view i := by
  rcases h.view_eq i with hv | ⟨u, -, hv⟩ <;> simp [hv]

theorem write (h : UsersOk t) {u : UserRow} (hi : t.writesOf i = [])
    (hb : t.blocked i u.publicKey = false) (hnew : ∀ r ∈ t.view i, r.publicKey ≠ u.publicKey) :
    UsersOk (t.write i (.put u)) where
  locked := h.locked.write hb
  writes := by
    intro j
    by_cases hj : j = i
    · subst hj
      rw [Table.view_of_writesOf_eq_nil hi] at hnew
      exact .inr ⟨u, by simp [hi], hnew⟩
    · rw [Table.writesOf_write_of_ne hj]
      exact h.writes j

theorem rollback (h : UsersOk t) : UsersOk (t.rollback i) where
  locked := h.locked.finish
  writes := by
    intro j
    by_cases hj : j = i
    · subst hj
      exact .inl Table.writesOf_finish_self
    · rw [Table.rollback, Table.writesOf_finish_of_ne hj]
      exact h.writes j

theorem commit (h : UsersOk t) : UsersOk (t.commit i) where
  locked := h.locked.finish
  writes := by
    intro j
    by_cases hj : j = i
    · subst hj
      exact .inl Table.writesOf_finish_self
    · rw [Table.commit, Table.writesOf_finish_of_ne hj]
      rcases h.writes j with hw | ⟨u, hw, hu⟩
      · exact .inl hw
      · refine .inr ⟨u, hw, fun r hr => ?_⟩
        rcases h.view_eq i with hv | ⟨v, hv, hview⟩
        · exact hu r (hv ▸ hr)
        · rcases List.mem_append.1 (hview ▸ hr) with hr | hr
          · exact hu r hr
          · -- both transactions have written, hence locked, their own key
            obtain rfl := List.mem_singleton.1 hr
            intro hk
            have h₁ := h.locked.writes (i := i) (w := .put r) (by simp [hv])
            have h₂ := h.locked.writes (i := j) (w := .put u) (by simp [hw])
            simp only [Write.key, key_userRow, hk] at h₁ h₂
            exact hj (h.locked.excl h₂ h₁)

end UsersOk

theorem UsersOk.effect (h : UsersOk s.users) (e : Effect C i s o s')
    (hpre : ∀ k, o = .createUser k → s.users.writesOf i = []) : UsersOk s'.users := by
  cases e with
  | commit => exact h.commit
  | rollback => exact h.rollback
  | createUser key hb hnew => exact h.write (hpre key rfl) hb hnew
  | same | now | mint | userConflict | setQuota | markAsUsed | createGrant | revokeNone | revoke | lockGrant
  | deleteSessions | insertSession | garbageCollect | trackNonce | notifyGrant => exact h

theorem UsersOk.rows_prefix (h : UsersOk s.users) (e : Effect C i s o s') :
    s.users.rows <+: s'.users.rows := by
  cases e with
  | commit => exact h.rows_prefix_view i
  | rollback | same | now | mint | userConflict | createUser | setQuota | markAsUsed | createGrant
  | revokeNone | revoke | lockGrant | deleteSessions | insertSession | garbageCollect | trackNonce
  | notifyGrant => exact List.prefix_rfl

/-! ## Grants -/

structure GrantsOk (s : State τ) : Prop where
  unique : UniqueKeys s.grants.rows
  locked : s.grants.Locked
  writes : ∀ i, s.grants.writesOf i = [] ∨ ∃ g, Revoking s.grants i g
  pending : ∀ i g, .revoke g ∈ s.pendingOf i → Revoking s.grants i g
  wal : ∀ e ∈ s.wal, ∀ g, .revoke g ∈ e.2 → ∃ r ∈ s.grants.rows, r.id = g ∧ r.revokedAt.isSome

namespace GrantsOk

/-- The grants table does not depend on statements other than revocations. -/
theorem congr (h : GrantsOk s) (hg : s'.grants = s.grants)
    (hp : ∀ i g, .revoke g ∈ s'.pendingOf i → .revoke g ∈ s.pendingOf i)
    (hw : ∀ e ∈ s'.wal, ∀ g, .revoke g ∈ e.2 → e ∈ s.wal) : GrantsOk s' where
  unique := hg ▸ h.unique
  locked := hg ▸ h.locked
  writes := hg ▸ h.writes
  pending := fun i g hi => hg ▸ h.pending i g (hp i g hi)
  wal := fun e he g hr => hg ▸ h.wal e (hw e he g hr) g hr

theorem issue {stmt : Stmt τ} (h : GrantsOk s) (hs : ∀ g, stmt ≠ .revoke g) :
    GrantsOk (s.issue i stmt) := by
  refine h.congr rfl (fun j g hj => ?_) fun e he _ _ => he
  exact (State.mem_pendingOf_issue.1 hj).resolve_right fun hn => hs g hn.2.symm

theorem autocommit {stmt : Stmt τ} (h : GrantsOk s) (hs : ∀ g, stmt ≠ .revoke g) :
    GrantsOk (s.autocommit i stmt) := by
  refine h.congr rfl (fun j g hj => hj) fun e he g hr => ?_
  rcases List.mem_append.1 he with he | he
  · exact he
  · obtain rfl := List.mem_singleton.1 he
    exact absurd (List.mem_singleton.1 hr).symm (hs g)

theorem lock (h : GrantsOk s) {g : Text} (hb : s.grants.blocked i g = false) :
    GrantsOk { s with grants := s.grants.lock i g } where
  unique := h.unique
  locked := h.locked.lock hb
  writes := h.writes
  pending := h.pending
  wal := h.wal

/-- Every row has a version in every transaction's view. -/
theorem exists_becomes_view (h : GrantsOk s) (i : ℕ) {r : GrantRow τ} (hr : r ∈ s.grants.rows) :
    ∃ r' ∈ s.grants.view i, r.Becomes r' := by
  rcases h.writes i with hw | ⟨g, r₀, hr₀, rfl, now, hw⟩
  · exact ⟨r, Table.view_of_writesOf_eq_nil hw ▸ hr, .refl r⟩
  · by_cases hid : r.id = r₀.id
    · obtain rfl := h.unique.eq_of_key_eq hr hr₀ hid
      exact ⟨_, (mem_view_of_revoking hw).2 (.inr rfl), r.becomes_revoke now⟩
    · exact ⟨r, (mem_view_of_revoking hw).2 (.inl ⟨hr, hid⟩), .refl r⟩

/-- A revocation survives the commit of another transaction. -/
theorem revoking_commit (h : GrantsOk s) {g : Text} (hj : j ≠ i) (hrev : Revoking s.grants j g) :
    Revoking (s.grants.commit i) j g := by
  refine hrev.mono (Table.writesOf_finish_of_ne hj) fun r hr hid => ?_
  rcases h.writes i with hw | ⟨g', hrev'⟩
  · rwa [Table.commit_rows, Table.view_of_writesOf_eq_nil hw]
  · have hlock' := hrev'.lock_mem h.locked
    obtain ⟨r', hr', rfl, now, hw⟩ := hrev'
    refine (mem_view_of_revoking hw).2 (.inl ⟨hr, fun heq => ?_⟩)
    have hlock := hrev.lock_mem h.locked
    rw [← hid, heq] at hlock
    exact hj (h.locked.excl hlock hlock')

theorem commit (h : GrantsOk s) : GrantsOk (s.commit i) where
  unique := h.unique.foldl _
  locked := h.locked.finish
  writes := by
    intro j
    by_cases hj : j = i
    · subst hj
      exact .inl Table.writesOf_finish_self
    · rcases h.writes j with hw | ⟨g, hrev⟩
      · exact .inl ((Table.writesOf_finish_of_ne hj).trans hw)
      · exact .inr ⟨g, h.revoking_commit hj hrev⟩
  pending := by
    intro j g hg
    by_cases hj : j = i
    · subst hj
      simp at hg
    · rw [State.pendingOf_commit_of_ne hj] at hg
      exact h.revoking_commit hj (h.pending j g hg)
  wal := by
    intro e he g hg
    rcases List.mem_append.1 he with he | he
    · obtain ⟨r, hr, hid, hsome⟩ := h.wal e he g hg
      obtain ⟨r', hr', hb⟩ := h.exists_becomes_view i hr
      exact ⟨r', hr', hb.id_eq.trans hid, hb.revoked hsome⟩
    · obtain rfl := List.mem_singleton.1 he
      obtain ⟨r, hr, hid, now, hw⟩ := h.pending i g hg
      exact ⟨r.revoke now, (mem_view_of_revoking hw).2 (.inr rfl), hid, rfl⟩

theorem rollback (h : GrantsOk s) : GrantsOk (s.rollback i) where
  unique := h.unique
  locked := h.locked.finish
  writes := by
    intro j
    by_cases hj : j = i
    · subst hj
      exact .inl Table.writesOf_finish_self
    · rcases h.writes j with hw | ⟨g, hrev⟩
      · exact .inl ((Table.writesOf_finish_of_ne hj).trans hw)
      · exact .inr ⟨g, hrev.mono (Table.writesOf_finish_of_ne hj) fun r hr _ => hr⟩
  pending := by
    intro j g hg
    by_cases hj : j = i
    · subst hj
      simp at hg
    · rw [State.pendingOf_rollback_of_ne hj] at hg
      exact (h.pending j g hg).mono (Table.writesOf_finish_of_ne hj) fun r hr _ => hr
  wal := h.wal

theorem create (h : GrantsOk s) {row : GrantRow τ} (hnew : ∀ r ∈ s.grants.rows, r.id ≠ row.id) :
    GrantsOk { s with grants := { s.grants with rows := s.grants.rows ++ [row] } } where
  unique := h.unique.concat hnew
  locked := ⟨h.locked.excl, h.locked.writes⟩
  writes := fun i => (h.writes i).imp_right fun ⟨g, hrev⟩ =>
    ⟨g, hrev.mono rfl fun _ hr _ => List.mem_append_left _ hr⟩
  pending := fun i g hg => (h.pending i g hg).mono rfl fun _ hr _ => List.mem_append_left _ hr
  wal := fun e he g hg =>
    let ⟨r, hr, hid⟩ := h.wal e he g hg
    ⟨r, List.mem_append_left _ hr, hid⟩

/-- The revocation of an existing grant by a transaction that has not revoked any other. -/
theorem revoke (h : GrantsOk s) {r : GrantRow τ} {now : Int64} (hi : s.grants.writesOf i = [])
    (hr : r ∈ s.grants.rows) (hb : s.grants.blocked i r.id = false) :
    GrantsOk ({ s with grants := s.grants.write i (.put (r.revoke now)) }.issue i
      (.revoke r.id)) where
  unique := h.unique
  locked := h.locked.write hb
  writes := by
    intro j
    by_cases hj : j = i
    · subst hj
      exact .inr ⟨r.id, r, hr, rfl, now, by simp [State.issue, hi]⟩
    · rcases h.writes j with hw | ⟨g, hrev⟩
      · exact .inl ((Table.writesOf_write_of_ne hj).trans hw)
      · exact .inr ⟨g, hrev.mono (Table.writesOf_write_of_ne hj) fun _ hr _ => hr⟩
  pending := by
    intro j g hg
    rcases State.mem_pendingOf_issue.1 hg with hold | ⟨rfl, hnew⟩
    · have hrev : Revoking s.grants j g := h.pending j g hold
      have hj : j ≠ i := by
        rintro rfl
        obtain ⟨_, _, _, _, hw⟩ := hrev
        simp [hi] at hw
      exact hrev.mono (Table.writesOf_write_of_ne hj) fun _ hr _ => hr
    · obtain rfl : g = r.id := by simpa using hnew
      exact ⟨r, hr, rfl, now, by simp [State.issue, hi]⟩
  wal := h.wal

end GrantsOk

/-- What a call has to know before it revokes a grant. -/
def RevokePre (s : State τ) (i : ℕ) (id : GrantId) : Prop :=
  s.grants.writesOf i = [] ∧ ∃ r ∈ s.grants.rows, r.id = id.asStr

theorem GrantsOk.effect (h : GrantsOk s) (e : Effect C i s o s')
    (hpre : ∀ id now, o = .revoke id now → RevokePre s i id) : GrantsOk s' := by
  cases e with
  | commit => exact h.commit
  | rollback => exact h.rollback
  | createGrant grant hnew => exact (h.create hnew).autocommit (by simp)
  | lockGrant id hb => exact h.lock hb
  | revokeNone id now hnone =>
    obtain ⟨hi, r, hr, hid⟩ := hpre id now rfl
    rw [Table.view_of_writesOf_eq_nil hi] at hnone
    exact absurd hid (hnone r hr)
  | revoke id now r hr hid hb =>
    obtain ⟨hi, -⟩ := hpre id now rfl
    rw [Table.view_of_writesOf_eq_nil hi] at hr
    exact hid ▸ h.revoke hi hr (hid ▸ hb)
  | trackNonce => exact GrantsOk.autocommit (h.congr rfl (fun _ _ h => h) fun _ h _ _ => h) (by simp)
  | notifyGrant => exact h.issue (by simp)
  | createUser | setQuota | markAsUsed | deleteSessions | insertSession =>
    exact GrantsOk.issue (h.congr rfl (fun _ _ h => h) fun _ h _ _ => h) (by simp)
  | same | now | mint | userConflict | garbageCollect =>
    exact h.congr rfl (fun _ _ h => h) fun _ h _ _ => h

/-- Rows of `grants` are never deleted, and only their `revoked_at` changes. -/
theorem GrantsOk.exists_becomes (h : GrantsOk s) (e : Effect C i s o s') {r : GrantRow τ}
    (hr : r ∈ s.grants.rows) : ∃ r' ∈ s'.grants.rows, r.Becomes r' := by
  cases e with
  | commit => exact h.exists_becomes_view i hr
  | createGrant => exact ⟨r, List.mem_append_left _ hr, .refl r⟩
  | rollback | same | now | mint | userConflict | createUser | setQuota | markAsUsed | revokeNone | revoke
  | lockGrant | deleteSessions | insertSession | garbageCollect | trackNonce | notifyGrant =>
    exact ⟨r, hr, .refl r⟩

/-! ## Sessions -/

/-- The open transaction of call `i` deletes the sessions `ds` and then inserts `v`. It works
under the lock on the grant's row and leaves no session next to `v`. -/
structure SessionTx (s : State τ) (i : ℕ) (ds : List SessionTokenHash)
    (v : Option GrantSessionRow) : Prop where
  writes : s.sessions.writesOf i = ds.map .del ++ v.toList.map .put
  logged : inserted (s.pendingOf i) = v.toList
  del_locked : ∀ r ∈ s.sessions.rows, r.tokenHash ∈ ds → (i, r.grantId) ∈ s.grants.locks
  put_locked : ∀ r ∈ v, (i, r.grantId) ∈ s.grants.locks
  put_alone : ∀ r ∈ v, ∀ r' ∈ s.sessions.rows, r'.grantId = r.grantId → r'.tokenHash ∈ ds
  put_fresh : ∀ r ∈ v, ∀ r' ∈ s.sessions.rows, r'.tokenHash = r.tokenHash → r'.tokenHash ∈ ds

structure SessionsOk (s : State τ) : Prop where
  unique : UniqueKeys s.sessions.rows
  locked : s.sessions.Locked
  tx : ∀ i, ∃ ds v, SessionTx s i ds v
  one_per_grant : ∀ r ∈ s.sessions.rows, ∀ r' ∈ s.sessions.rows, r.grantId = r'.grantId → r = r'
  last_issued : ∀ r ∈ s.sessions.rows, (issued s.wal r.grantId).getLast? = some r.tokenHash

namespace SessionTx

variable {ds : List SessionTokenHash} {v : Option GrantSessionRow}

/-- A transaction without writes. -/
theorem idle (hw : s.sessions.writesOf i = []) (hp : inserted (s.pendingOf i) = []) :
    SessionTx s i [] none where
  writes := hw
  logged := hp
  del_locked := by simp
  put_locked := by simp
  put_alone := by simp
  put_fresh := by simp

/-- A transaction stays as it is while its own writes, its locks and the sessions of the grants
it has locked do. -/
theorem congr (h : SessionTx s i ds v) (hw : s'.sessions.writesOf i = s.sessions.writesOf i)
    (hp : inserted (s'.pendingOf i) = inserted (s.pendingOf i))
    (hl : ∀ g, (i, g) ∈ s.grants.locks → (i, g) ∈ s'.grants.locks)
    (hrows : ∀ r ∈ s'.sessions.rows, r ∈ s.sessions.rows ∨
      r.tokenHash ∉ ds ∧ ∀ r' ∈ v, r.grantId ≠ r'.grantId ∧ r.tokenHash ≠ r'.tokenHash) :
    SessionTx s' i ds v where
  writes := hw.trans h.writes
  logged := hp.trans h.logged
  del_locked := by
    intro r hr hd
    rcases hrows r hr with hr | ⟨hnd, -⟩
    · exact hl _ (h.del_locked r hr hd)
    · exact absurd hd hnd
  put_locked := fun r hr => hl _ (h.put_locked r hr)
  put_alone := by
    intro r hr r' hr' hg
    rcases hrows r' hr' with hr' | ⟨-, hne⟩
    · exact h.put_alone r hr r' hr' hg
    · exact absurd hg (hne r hr).1
  put_fresh := by
    intro r hr r' hr' hk
    rcases hrows r' hr' with hr' | ⟨-, hne⟩
    · exact h.put_fresh r hr r' hr' hk
    · exact absurd hk (hne r hr).2

/-- The rows that the transaction leaves behind. -/
theorem mem_view (h : SessionTx s i ds v) {r : GrantSessionRow} :
    r ∈ s.sessions.view i ↔ (r ∈ s.sessions.rows ∧ r.tokenHash ∉ ds) ∨ r ∈ v := by
  rw [Table.view, h.writes, List.foldl_append]
  cases v with
  | none => simp [mem_foldl_del]
  | some u =>
    simp only [Option.toList_some, List.map_cons, List.map_nil, List.foldl_cons, List.foldl_nil,
      Write.mem_apply_put, mem_foldl_del, key_sessionRow, Option.mem_some_iff, eq_comm (a := u)]
    constructor
    · rintro (⟨hr, -⟩ | rfl)
      · exact .inl hr
      · exact .inr rfl
    · rintro (hr | rfl)
      · exact .inl ⟨hr, fun hk => hr.2 (h.put_fresh u rfl r hr.1 hk)⟩
      · exact .inr rfl

theorem lock_of_del (h : SessionTx s i ds v) (hl : s.sessions.Locked) {k : SessionTokenHash}
    (hk : k ∈ ds) : (i, k) ∈ s.sessions.locks :=
  hl.writes (w := .del k) (by simp [h.writes, hk])

theorem lock_of_put (h : SessionTx s i ds v) (hl : s.sessions.Locked) {r : GrantSessionRow}
    (hr : r ∈ v) : (i, r.tokenHash) ∈ s.sessions.locks :=
  hl.writes (w := .put r) (by simp [h.writes, Option.mem_def.1 hr])

/-- What another transaction inserts has nothing to do with this one. -/
theorem put_ne {ds' : List SessionTokenHash} {v' : Option GrantSessionRow}
    (h : SessionTx s i ds v) (h' : SessionTx s j ds' v') (hj : j ≠ i) (hg : s.grants.Locked)
    (hs : s.sessions.Locked) {r : GrantSessionRow} (hr : r ∈ v) :
    r.tokenHash ∉ ds' ∧ ∀ r' ∈ v', r.grantId ≠ r'.grantId ∧ r.tokenHash ≠ r'.tokenHash := by
  refine ⟨fun hd => ?_, fun r' hr' => ⟨fun heq => ?_, fun heq => ?_⟩⟩
  · exact hj (hs.excl (h'.lock_of_del hs hd) (h.lock_of_put hs hr))
  · exact hj (hg.excl (h'.put_locked r' hr') (heq ▸ h.put_locked r hr))
  · exact hj (hs.excl (h'.lock_of_put hs hr') (heq ▸ h.lock_of_put hs hr))

/-- While call `j` holds the lock on a grant, no other transaction changes its sessions. -/
theorem mem_view_of_locked (h : SessionTx s i ds v) (hg : s.grants.Locked) (hj : j ≠ i)
    {r : GrantSessionRow} (hl : (j, r.grantId) ∈ s.grants.locks) :
    r ∈ s.sessions.view i ↔ r ∈ s.sessions.rows := by
  rw [h.mem_view]
  constructor
  · rintro (⟨hr, -⟩ | hr)
    · exact hr
    · exact absurd (hg.excl hl (h.put_locked r hr)) hj
  · exact fun hr => .inl ⟨hr, fun hd => hj (hg.excl hl (h.del_locked r hr hd))⟩

end SessionTx

namespace SessionsOk

/-- Sessions depend only on the recorded inserts and on the locks of the grants table. -/
theorem congr (h : SessionsOk s) (hs : s'.sessions = s.sessions)
    (hp : ∀ j, inserted (s'.pendingOf j) = inserted (s.pendingOf j))
    (hl : ∀ l ∈ s.grants.locks, l ∈ s'.grants.locks)
    (hw : ∀ g, issued s'.wal g = issued s.wal g) : SessionsOk s' where
  unique := hs ▸ h.unique
  locked := hs ▸ h.locked
  tx := fun j =>
    let ⟨ds, v, ht⟩ := h.tx j
    ⟨ds, v, ht.congr (by rw [hs]) (hp j) (fun g => hl (j, g)) fun r hr => .inl (hs ▸ hr)⟩
  one_per_grant := hs ▸ h.one_per_grant
  last_issued := fun r hr => by rw [hw, h.last_issued r (hs ▸ hr)]

theorem issue {stmt : Stmt τ} (h : SessionsOk s) (hs : inserted [stmt] = []) :
    SessionsOk (s.issue i stmt) := by
  refine h.congr rfl (fun j => ?_) (fun _ hl => hl) fun _ => rfl
  by_cases hj : j = i
  · subst hj
    simp [hs]
  · rw [State.pendingOf_issue_of_ne hj]

theorem autocommit {stmt : Stmt τ} (h : SessionsOk s) (hs : inserted [stmt] = []) :
    SessionsOk (s.autocommit i stmt) := by
  refine h.congr rfl (fun _ => rfl) (fun _ hl => hl) fun g => ?_
  rw [State.autocommit, issued_append, hs]
  simp

theorem rollback (h : SessionsOk s) : SessionsOk (s.rollback i) where
  unique := h.unique
  locked := h.locked.finish
  tx := by
    intro j
    by_cases hj : j = i
    · subst hj
      exact ⟨[], none, .idle Table.writesOf_finish_self (by simp [inserted])⟩
    · obtain ⟨ds, v, ht⟩ := h.tx j
      refine ⟨ds, v, ht.congr (Table.writesOf_finish_of_ne hj) ?_ (fun g hg => ?_)
        fun r hr => .inl hr⟩
      · rw [State.pendingOf_rollback_of_ne hj]
      · exact Table.mem_locks_finish.2 ⟨hg, hj⟩
  one_per_grant := h.one_per_grant
  last_issued := h.last_issued

theorem commit (h : SessionsOk s) (hg : GrantsOk s) : SessionsOk (s.commit i) := by
  obtain ⟨ds, v, ht⟩ := h.tx i
  refine ⟨h.unique.foldl _, h.locked.finish, fun j => ?_, fun r hr r' hr' heq => ?_,
    fun r hr => ?_⟩
  · by_cases hj : j = i
    · subst hj
      exact ⟨[], none, .idle Table.writesOf_finish_self (by simp [inserted])⟩
    · obtain ⟨ds', v', ht'⟩ := h.tx j
      refine ⟨ds', v', ht'.congr (Table.writesOf_finish_of_ne hj) ?_ (fun g hl => ?_)
        fun r hr => ?_⟩
      · rw [State.pendingOf_commit_of_ne hj]
      · exact Table.mem_locks_finish.2 ⟨hl, hj⟩
      · exact (ht.mem_view.1 hr).imp And.left (ht.put_ne ht' hj hg.locked h.locked)
  · rcases ht.mem_view.1 hr with ⟨hr, hnd⟩ | hr <;> rcases ht.mem_view.1 hr' with ⟨hr', hnd'⟩ | hr'
    · exact h.one_per_grant r hr r' hr' heq
    · exact absurd (ht.put_alone r' hr' r hr heq) hnd
    · exact absurd (ht.put_alone r hr r' hr' heq.symm) hnd'
    · exact Option.mem_unique hr hr'
  · change (issued (s.wal ++ [(i, s.pendingOf i)]) r.grantId).getLast? = some r.tokenHash
    rw [issued_append, ht.logged]
    rcases ht.mem_view.1 hr with ⟨hr, hnd⟩ | hr
    · -- a session of another grant: the transaction issued nothing for it
      have hnone : (v.toList.filter fun u => u.grantId = r.grantId) = [] := by
        refine List.filter_eq_nil_iff.2 fun u hu => ?_
        have hu : u ∈ v := Option.mem_toList.1 hu
        simpa using fun heq => hnd (ht.put_alone u hu r hr heq.symm)
      rw [hnone, List.map_nil, List.append_nil, h.last_issued r hr]
    · simp [Option.mem_def.1 hr]

/-- A transaction that holds the lock on the grant's row deletes sessions of the grant. -/
theorem delete (h : SessionsOk s) {g : Text} {doomed : List SessionTokenHash}
    (hi : s.sessions.writesOf i = []) (hlock : (i, g) ∈ s.grants.locks)
    (hdoomed : ∀ k ∈ doomed, ∃ r ∈ s.sessions.rows, r.grantId = g ∧ r.tokenHash = k)
    (hb : ∀ k ∈ doomed, s.sessions.blocked i k = false) :
    SessionsOk { s with sessions := s.sessions.deleteAll i doomed } where
  unique := by simpa using h.unique
  locked := h.locked.deleteAll hb
  tx := by
    intro j
    obtain ⟨ds, v, ht⟩ := h.tx j
    by_cases hj : j = i
    · subst hj
      refine ⟨doomed, none, by simp [hi], ?_, fun r hr hd => ?_, by simp, by simp, by simp⟩
      · have hv : v.toList = [] := by
          have := ht.writes.symm.trans hi
          simpa using (List.append_eq_nil_iff.1 this).2
        exact ht.logged.trans hv
      · obtain ⟨r', hr', hg, hk⟩ := hdoomed _ hd
        rw [Table.deleteAll_rows] at hr
        obtain rfl := h.unique.eq_of_key_eq hr' hr hk
        exact hg ▸ hlock
    · exact ⟨ds, v, ht.congr (Table.writesOf_deleteAll_of_ne hj) rfl (fun _ h => h)
        fun r hr => .inl (by simpa using hr)⟩
  one_per_grant := by simpa using h.one_per_grant
  last_issued := by simpa using h.last_issued

/-- A transaction that has deleted every session of the grant inserts a new one. -/
theorem insert (h : SessionsOk s) {row : GrantSessionRow} {ds : List SessionTokenHash}
    (hi : s.sessions.writesOf i = ds.map .del) (hlock : (i, row.grantId) ∈ s.grants.locks)
    (hds : ∀ r ∈ s.sessions.rows, r.grantId = row.grantId → r.tokenHash ∈ ds)
    (hb : s.sessions.blocked i row.tokenHash = false)
    (hnew : ∀ r ∈ s.sessions.view i, r.tokenHash ≠ row.tokenHash) :
    SessionsOk ({ s with sessions := s.sessions.write i (.put row) }.issue i
      (.insertSession row)) where
  unique := h.unique
  locked := h.locked.write hb
  tx := by
    intro j
    obtain ⟨ds', v, ht⟩ := h.tx j
    by_cases hj : j = i
    · subst hj
      obtain rfl : v = none := by
        cases v with
        | none => rfl
        | some u =>
          have hmem : (.put u : Write GrantSessionRow Bytes) ∈ s.sessions.writesOf j := by
            simp [ht.writes]
          simp [hi] at hmem
      have hds' : ds'.map Write.del = ds.map (Write.del : Bytes → Write GrantSessionRow Bytes) := by
        simpa using ht.writes.symm.trans hi
      obtain rfl := List.map_injective_iff.2 (fun _ _ => Write.del.inj) hds'
      refine ⟨ds', some row, ?_, ?_, ht.del_locked, ?_, ?_, ?_⟩
      · simp [State.issue, hi]
      · rw [State.pendingOf_issue_self, inserted_append]
        have hl : inserted (s.pendingOf j) = [] := ht.logged
        exact congrArg (· ++ [row]) hl
      · rintro r ⟨⟩
        exact hlock
      · rintro r ⟨⟩
        exact hds
      · rintro r ⟨⟩ r' hr' hk
        by_contra hnd
        exact hnew r' (ht.mem_view.2 (.inl ⟨hr', hnd⟩)) hk
    · refine ⟨ds', v, ht.congr (Table.writesOf_write_of_ne hj) ?_ (fun _ h => h)
        fun r hr => .inl hr⟩
      rw [State.pendingOf_issue_of_ne hj]
      rfl
  one_per_grant := h.one_per_grant
  last_issued := h.last_issued

end SessionsOk

/-- What a call has to know before it deletes the sessions of a grant. -/
def DeletePre (s : State τ) (i : ℕ) (g : Text) : Prop :=
  s.sessions.writesOf i = [] ∧ (i, g) ∈ s.grants.locks

/-- What a call has to know before it inserts a session. -/
def InsertPre (s : State τ) (i : ℕ) (g : Text) : Prop :=
  (i, g) ∈ s.grants.locks ∧ ∃ ds : List SessionTokenHash,
    s.sessions.writesOf i = ds.map .del ∧ ∀ r ∈ s.sessions.rows, r.grantId = g → r.tokenHash ∈ ds

theorem SessionsOk.effect (h : SessionsOk s) (hg : GrantsOk s) (e : Effect C i s o s')
    (hdel : ∀ g ks, o = .deleteSessions g ks → DeletePre s i g.asStr)
    (hins : ∀ n, o = .insertSession n → InsertPre s i n.grantId.asStr) : SessionsOk s' := by
  have hsame : ∀ {t : State τ}, t.sessions = s.sessions → t.pending = s.pending →
      (∀ l ∈ s.grants.locks, l ∈ t.grants.locks) → t.wal = s.wal → SessionsOk t :=
    fun hs hp hl hw => h.congr hs (fun _ => by rw [State.pendingOf, hp, State.pendingOf]) hl
      fun _ => by rw [hw]
  cases e with
  | commit => exact h.commit hg
  | rollback => exact h.rollback
  | deleteSessions g ks doomed hdoomed hb =>
    obtain ⟨hi, hl⟩ := hdel g ks rfl
    rw [Table.view_of_writesOf_eq_nil hi] at hdoomed
    exact (h.delete hi hl (fun k hk => ((hdoomed k).1 hk).2) hb).issue rfl
  | insertSession n hb hnew =>
    obtain ⟨hl, ds, hi, hds⟩ := hins n rfl
    exact h.insert hi hl hds hb hnew
  | lockGrant id hb => exact hsame rfl rfl (fun _ => List.mem_cons_of_mem _) rfl
  | revoke id now r hr hid hb =>
    exact (hsame (t := { s with grants := s.grants.write i (.put { r with revokedAt := some now }) })
      rfl rfl (fun _ => List.mem_cons_of_mem _) rfl).issue rfl
  | revokeNone | notifyGrant => exact h.issue rfl
  | createUser | setQuota | markAsUsed => exact SessionsOk.issue (hsame rfl rfl (fun _ hl => hl) rfl) rfl
  | createGrant | trackNonce => exact SessionsOk.autocommit (hsame rfl rfl (fun _ hl => hl) rfl) rfl
  | same | now | mint | userConflict | garbageCollect => exact hsame rfl rfl (fun _ hl => hl) rfl

/-- The sessions of a grant that call `j` has locked do not change under its hands. -/
theorem SessionsOk.mem_rows_of_locked (h : SessionsOk s) (hg : GrantsOk s) (e : Effect C i s o s')
    (hj : j ≠ i) {r : GrantSessionRow} (hl : (j, r.grantId) ∈ s.grants.locks) :
    r ∈ s'.sessions.rows ↔ r ∈ s.sessions.rows := by
  cases e with
  | commit =>
    obtain ⟨ds, v, ht⟩ := h.tx i
    exact ht.mem_view_of_locked hg.locked hj hl
  | deleteSessions => simp [State.issue]
  | rollback | same | now | mint | userConflict | createUser | setQuota | markAsUsed | createGrant
  | revokeNone | revoke | lockGrant | insertSession | garbageCollect | trackNonce
  | notifyGrant => exact Iff.rfl

/-- The locks of the other calls stay. -/
theorem Effect.mem_locks (e : Effect C i s o s') (hj : j ≠ i) {g : Text}
    (hl : (j, g) ∈ s.grants.locks) : (j, g) ∈ s'.grants.locks := by
  cases e with
  | commit | rollback => exact Table.mem_locks_finish.2 ⟨hl, hj⟩
  | lockGrant | revoke => exact List.mem_cons_of_mem _ hl
  | same | now | mint | userConflict | createUser | setQuota | markAsUsed | createGrant | revokeNone
  | deleteSessions | insertSession | garbageCollect | trackNonce | notifyGrant => exact hl

end Pubky.Homeserver.Grant

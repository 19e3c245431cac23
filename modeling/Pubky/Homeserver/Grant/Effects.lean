import Pubky.Homeserver.Grant.Service

/-!
# What an operation does to the state

`Effect` lists the ways in which an operation of a call can change the state, with the
conditions the database checks before it does. Every invariant of the system is proved by
cases on it; `exec_effect` says that there are no other changes.
-/

namespace Pubky.Homeserver.Grant

open Sql

variable {τ : Type} [Field τ] [LinearOrder τ] {C : Crates} {i : ℕ} {s s' : State τ}

/-- The change from `s` to `s'` by operation `o` of call `i`. -/
inductive Effect (C : Crates) (i : ℕ) (s : State τ) : Op τ → State τ → Prop where
  | same (o : Op τ) : Effect C i s o s
  | now : Effect C i s .now { s with readings := s.readings ++ [(i, s.clock)] }
  | mint (b : SessionBearer) :
      Effect C i s .generateBearer { s with minted := s.minted ++ [(i, b)] }
  | commit : Effect C i s .commit (s.commit i)
  | rollback (o : Op τ) (ho : o = .commit ∨ o = .rollback) : Effect C i s o (s.rollback i)
  | userConflict (key : PublicKey) :
      Effect C i s (.createUser key) { s with nextUserId := s.nextUserId + 1 }
  | createUser (key : PublicKey) (hb : s.users.blocked i (C.z32 key) = false)
      (hnew : ∀ r ∈ s.users.view i, r.publicKey ≠ C.z32 key) :
      Effect C i s (.createUser key)
        ({ s with
            nextUserId := s.nextUserId + 1
            users := s.users.write i (.put ⟨s.nextUserId, C.z32 key⟩) }.issue i
          (.createUser ⟨s.nextUserId, C.z32 key⟩))
  | setQuota (userId : ℕ) (quota : Quota.UserQuota) (hquota : quota.validate = .ok ())
      (hb : s.quotas.blocked i userId = false) :
      Effect C i s (.setQuota userId quota)
        ({ s with quotas := s.quotas.write i (.put ⟨userId, quota.toColumns C⟩) }.issue i
          (.setQuota ⟨userId, quota.toColumns C⟩))
  | markAsUsed (id : SignupCode) (key : PublicKey) (row : SignupCodeRow)
      (hb : s.signupCodes.blocked i id.asStr = false) (hrow : row ∈ s.signupCodes.view i)
      (hid : row.id = id.asStr) (hunused : row.usedBy = none) :
      Effect C i s (.markAsUsed id key)
        ({ s with
            signupCodes :=
              s.signupCodes.write i (.put { row with usedBy := some (C.z32 key) }) }.issue i
          (.markAsUsed id.asStr (C.z32 key)))
  | createGrant (grant : NewGrant) (hnew : ∀ r ∈ s.grants.rows, r.id ≠ grant.id.asStr) :
      Effect C i s (.createGrant grant)
        ({ s with
            grants :=
              { s.grants with rows := s.grants.rows ++ [grant.toRow s.clock.secs] } }.autocommit i
          (.createGrant (grant.toRow s.clock.secs)))
  | revokeNone (id : GrantId) (now : Int64) (hnone : ∀ r ∈ s.grants.view i, r.id ≠ id.asStr) :
      Effect C i s (.revoke id now) (s.issue i (.revoke id.asStr))
  | revoke (id : GrantId) (now : Int64) (r : GrantRow τ) (hr : r ∈ s.grants.view i)
      (hid : r.id = id.asStr) (hb : s.grants.blocked i id.asStr = false) :
      Effect C i s (.revoke id now)
        ({ s with grants := s.grants.write i (.put { r with revokedAt := some now }) }.issue i
          (.revoke id.asStr))
  | lockGrant (id : GrantId) (hb : s.grants.blocked i id.asStr = false) :
      Effect C i s (.lockGrant id) { s with grants := s.grants.lock i id.asStr }
  | deleteSessions (grantId : GrantId) (keys : List SessionTokenHash)
      (doomed : List SessionTokenHash)
      (hdoomed : ∀ k, k ∈ doomed ↔ k ∈ keys ∧
        ∃ r ∈ s.sessions.view i, r.grantId = grantId.asStr ∧ r.tokenHash = k)
      (hb : ∀ k ∈ doomed, s.sessions.blocked i k = false) :
      Effect C i s (.deleteSessions grantId keys)
        ({ s with sessions := s.sessions.deleteAll i doomed }.issue i
          (.deleteSessions grantId.asStr))
  | insertSession (session : NewGrantSession)
      (hb : s.sessions.blocked i session.tokenHash = false)
      (hnew : ∀ r ∈ s.sessions.view i, r.tokenHash ≠ session.tokenHash) :
      Effect C i s (.insertSession session)
        ({ s with sessions := s.sessions.write i (.put session.toRow) }.issue i
          (.insertSession session.toRow))
  | garbageCollect (cutoff : τ) :
      Effect C i s (.garbageCollect cutoff)
        { s with popNonces := s.popNonces.filter fun r => ¬ r.createdAt < cutoff }
  | trackNonce (nonce : PopNonce) (hnew : ∀ r ∈ s.popNonces, r.nonce ≠ nonce.asStr) :
      Effect C i s (.trackNonce nonce)
        ({ s with
            popNonces :=
              s.popNonces ++ [(⟨nonce.asStr, s.clock.secs⟩ : PopNonceRow τ)] }.autocommit i
          (.trackNonce nonce.asStr))
  | notifyGrant (id : GrantId) :
      Effect C i s (.notifyGrant id) (s.issue i (.notifyGrant id.asStr))

/-- A statement that the environment does not let fail without an effect was carried out. -/
theorem answer_eq_some {α σ : Type} {c : Choice} {t t' : σ} {x : Option (Except SqlError α × σ)}
    {r : Except SqlError α} (h : answer c t x = some (r, t')) :
    t' = t ∨ ∃ r', x = some (r', t') := by
  cases c with
  | done => exact .inr ⟨r, h⟩
  | failed =>
    cases h
    exact .inl rfl
  | lost =>
    obtain ⟨⟨r', u⟩, hx, hu⟩ := Option.map_eq_some_iff.1 h
    obtain ⟨-, rfl⟩ := Prod.mk.inj hu
    exact .inr ⟨r', hx⟩
  | random bytes => cases h

/-- A statement that succeeds was carried out and gave its own answer. -/
theorem answer_eq_ok {α σ : Type} {c : Choice} {t t' : σ} {x : Option (Except SqlError α × σ)}
    {a : α} (h : answer c t x = some (.ok a, t')) : x = some (.ok a, t') := by
  cases c with
  | done => exact h
  | failed =>
    obtain ⟨h, -⟩ := Prod.mk.inj (Option.some.inj h)
    cases h
  | lost =>
    obtain ⟨⟨r', u⟩, -, hu⟩ := Option.map_eq_some_iff.1 h
    obtain ⟨hu, -⟩ := Prod.mk.inj hu
    cases hu
  | random bytes => cases h

/-- A statement that only reads leaves the state alone. -/
theorem answer_read {α σ : Type} {c : Choice} {t t' : σ} {x r : Except SqlError α}
    (h : answer c t (some (x, t)) = some (r, t')) : t' = t := by
  rcases answer_eq_some h with h | ⟨r', h⟩
  · exact h
  · exact (Prod.mk.inj (Option.some.inj h)).2.symm

/-- The rows that a successful lookup in a view rules out. -/
theorem view_ne_of_lookup_none {V K : Type} [Keyed V K] [DecidableEq K] {rows : List V} {k : K}
    (h : (lookup rows k).isSome = false) : ∀ r ∈ rows, key r ≠ k :=
  lookup_eq_none.1 (by simpa using h)

theorem createUser_eq_some {key : PublicKey} {r : Except SqlError UserEntity}
    (h : s.createUser C i key = some (r, s')) :
    (r = .error .database ∧ s' = { s with nextUserId := s.nextUserId + 1 }) ∨
    s.users.blocked i (C.z32 key) = false ∧ (∀ row ∈ s.users.view i, row.publicKey ≠ C.z32 key) ∧
      r = UserRow.decode C ⟨s.nextUserId, C.z32 key⟩ ∧
      s' = { s with
          nextUserId := s.nextUserId + 1
          users := s.users.write i (.put ⟨s.nextUserId, C.z32 key⟩) }.issue i
        (.createUser ⟨s.nextUserId, C.z32 key⟩) := by
  simp only [State.createUser, Table.insert] at h
  split at h
  · cases h
  · cases h
    exact .inl ⟨rfl, rfl⟩
  · rename_i users hins
    cases h
    split at hins
    · cases hins
    · rename_i hb
      split at hins
      · cases hins
      · rename_i hnew
        cases hins
        exact .inr ⟨by simpa using hb, view_ne_of_lookup_none (by simpa using hnew), rfl, rfl⟩

theorem createUser_effect {key : PublicKey} {r : Except SqlError UserEntity}
    (h : s.createUser C i key = some (r, s')) : Effect C i s (.createUser key) s' := by
  rcases createUser_eq_some h with ⟨-, rfl⟩ | ⟨hb, hnew, -, rfl⟩
  · exact .userConflict key
  · exact .createUser key hb hnew

theorem setQuota_eq_some {userId : ℕ} {quota : Quota.UserQuota} {r : Except SqlError UserEntity}
    (h : s.setQuota C i userId quota = some (r, s')) :
    (∃ e, r = .error e ∧ s' = s) ∨ quota.validate = .ok () ∧ s.quotas.blocked i userId = false ∧
      s' = { s with quotas := s.quotas.write i (.put ⟨userId, quota.toColumns C⟩) }.issue i
        (.setQuota ⟨userId, quota.toColumns C⟩) := by
  simp only [State.setQuota] at h
  split at h
  · cases h
    exact .inl ⟨_, rfl, rfl⟩
  · rename_i hquota
    split at h
    · cases h
      exact .inl ⟨_, rfl, rfl⟩
    · split at h
      · cases h
      · rename_i hb
        cases h
        rw [Bool.or_eq_true, not_or] at hb
        exact .inr ⟨hquota, by simpa using hb.2, rfl⟩

theorem setQuota_effect {userId : ℕ} {quota : Quota.UserQuota} {r : Except SqlError UserEntity}
    (h : s.setQuota C i userId quota = some (r, s')) :
    Effect C i s (.setQuota userId quota) s' := by
  rcases setQuota_eq_some h with ⟨_, -, rfl⟩ | ⟨hquota, hb, rfl⟩
  · exact .same _
  · exact .setQuota userId quota hquota hb

theorem markAsUsed_eq_some {id : SignupCode} {key : PublicKey}
    {r : Except SqlError SignupCodeEntity} (h : s.markAsUsed C i id key = some (r, s')) :
    (r = .error .rowNotFound ∧ s' = s) ∨
    ∃ row ∈ s.signupCodes.view i, row.id = id.asStr ∧ row.usedBy = none ∧
      s.signupCodes.blocked i id.asStr = false ∧
      s' = { s with
          signupCodes :=
            s.signupCodes.write i (.put { row with usedBy := some (C.z32 key) }) }.issue i
        (.markAsUsed id.asStr (C.z32 key)) := by
  simp only [State.markAsUsed] at h
  split at h
  · cases h
    exact .inl ⟨rfl, rfl⟩
  · rename_i row hrow
    split at h
    · cases h
    · rename_i hb
      split at h
      · cases h
        exact .inl ⟨rfl, rfl⟩
      · rename_i hunused
        cases h
        obtain ⟨hmem, hid⟩ := lookup_eq_some hrow
        exact .inr ⟨row, hmem, hid, by simpa using hunused, by simpa using hb, rfl⟩

theorem markAsUsed_effect {id : SignupCode} {key : PublicKey}
    {r : Except SqlError SignupCodeEntity} (h : s.markAsUsed C i id key = some (r, s')) :
    Effect C i s (.markAsUsed id key) s' := by
  rcases markAsUsed_eq_some h with ⟨-, rfl⟩ | ⟨row, hmem, hid, hunused, hb, rfl⟩
  · exact .same _
  · exact .markAsUsed id key row hb hmem hid hunused

theorem createGrant_effect {grant : NewGrant} {r : Except SqlError Unit}
    (h : s.createGrant i grant = (r, s')) : Effect C i s (.createGrant grant) s' := by
  simp only [State.createGrant] at h
  split at h
  · obtain ⟨-, rfl⟩ := Prod.mk.inj h
    exact .same _
  · split at h
    · obtain ⟨-, rfl⟩ := Prod.mk.inj h
      exact .same _
    · rename_i hnew
      obtain ⟨-, rfl⟩ := Prod.mk.inj h
      exact .createGrant grant (view_ne_of_lookup_none (by simpa using hnew))

theorem revoke_eq_some {id : GrantId} {now : Int64} {r : Except SqlError Unit}
    (h : s.revoke i id now = some (r, s')) :
    ((∀ row ∈ s.grants.view i, row.id ≠ id.asStr) ∧ s' = s.issue i (.revoke id.asStr)) ∨
    ∃ row ∈ s.grants.view i, row.id = id.asStr ∧ s.grants.blocked i id.asStr = false ∧
      s' = { s with grants := s.grants.write i (.put { row with revokedAt := some now }) }.issue i
        (.revoke id.asStr) := by
  simp only [State.revoke, Table.update] at h
  split at h
  · cases h
  · rename_i grants hup
    cases h
    split at hup
    · rename_i hnone
      cases hup
      exact .inl ⟨lookup_eq_none.1 hnone, rfl⟩
    · rename_i row hrow
      split at hup
      · cases hup
      · rename_i hb
        cases hup
        obtain ⟨hmem, hid⟩ := lookup_eq_some hrow
        exact .inr ⟨row, hmem, hid, by simpa using hb, rfl⟩

theorem revoke_effect {id : GrantId} {now : Int64} {r : Except SqlError Unit}
    (h : s.revoke i id now = some (r, s')) : Effect C i s (.revoke id now) s' := by
  rcases revoke_eq_some h with ⟨hnone, rfl⟩ | ⟨row, hmem, hid, hb, rfl⟩
  · exact .revokeNone id now hnone
  · exact .revoke id now row hmem hid hb

theorem lockGrant_eq_some {id : GrantId} {r : Except SqlError (Option Int64 × Int64)}
    (h : s.lockGrant i id = some (r, s')) :
    (r = .error .rowNotFound ∧ s' = s) ∨
      s.grants.blocked i id.asStr = false ∧ s' = { s with grants := s.grants.lock i id.asStr } := by
  simp only [State.lockGrant, Table.selectForUpdate] at h
  split at h
  · cases h
  · cases h
    exact .inl ⟨rfl, rfl⟩
  · rename_i row grants hsel
    cases h
    split at hsel
    · cases hsel
    · split at hsel
      · cases hsel
      · rename_i hb
        cases hsel
        exact .inr ⟨by simpa using hb, rfl⟩

theorem lockGrant_effect {id : GrantId} {r : Except SqlError (Option Int64 × Int64)}
    (h : s.lockGrant i id = some (r, s')) : Effect C i s (.lockGrant id) s' := by
  rcases lockGrant_eq_some h with ⟨-, rfl⟩ | ⟨hb, rfl⟩
  · exact .same _
  · exact .lockGrant id hb

theorem deleteSessions_eq_some {grantId : GrantId} {keys : List SessionTokenHash}
    {r : Except SqlError Unit} (h : s.deleteSessions i grantId keys = some (r, s')) :
    ∃ doomed, (∀ k, k ∈ doomed ↔ k ∈ keys ∧
        ∃ r ∈ s.sessions.view i, r.grantId = grantId.asStr ∧ r.tokenHash = k) ∧
      (∀ k ∈ doomed, s.sessions.blocked i k = false) ∧
      s' = { s with sessions := s.sessions.deleteAll i doomed }.issue i
        (.deleteSessions grantId.asStr) := by
  simp only [State.deleteSessions, Table.deleteScanned] at h
  split at h
  · cases h
  · rename_i sessions hdel
    cases h
    split at hdel
    · cases hdel
    · rename_i hb
      cases hdel
      refine ⟨_, fun k => ?_, fun k hk => ?_, rfl⟩
      · simp only [List.mem_map, List.mem_filter, key_sessionRow, Bool.and_eq_true,
          decide_eq_true_eq, List.contains_iff_mem]
        exact ⟨fun ⟨r, ⟨hr, hg, hk⟩, h⟩ => ⟨h ▸ hk, r, hr, hg, h⟩,
          fun ⟨hk, r, hr, hg, h⟩ => ⟨r, ⟨hr, hg, h ▸ hk⟩, h⟩⟩
      · exact Bool.eq_false_iff.2 fun h => hb (List.any_eq_true.2 ⟨k, hk, h⟩)

theorem deleteSessions_effect {grantId : GrantId} {keys : List SessionTokenHash}
    {r : Except SqlError Unit} (h : s.deleteSessions i grantId keys = some (r, s')) :
    Effect C i s (.deleteSessions grantId keys) s' := by
  obtain ⟨doomed, hdoomed, hb, rfl⟩ := deleteSessions_eq_some h
  exact .deleteSessions grantId keys doomed hdoomed hb

theorem insertSession_eq_some {session : NewGrantSession} {r : Except SqlError Unit}
    (h : s.insertSession i session = some (r, s')) :
    (r = .error .database ∧ s' = s) ∨ s.sessions.blocked i session.tokenHash = false ∧
      (∀ r ∈ s.sessions.view i, r.tokenHash ≠ session.tokenHash) ∧
      s' = { s with sessions := s.sessions.write i (.put session.toRow) }.issue i
        (.insertSession session.toRow) := by
  simp only [State.insertSession, Table.insert] at h
  split at h
  · cases h
    exact .inl ⟨rfl, rfl⟩
  · split at h
    · cases h
    · cases h
      exact .inl ⟨rfl, rfl⟩
    · rename_i sessions hins
      cases h
      split at hins
      · cases hins
      · rename_i hb
        split at hins
        · cases hins
        · rename_i hnew
          cases hins
          exact .inr ⟨by simpa using hb, view_ne_of_lookup_none (by simpa using hnew), rfl⟩

theorem insertSession_effect {session : NewGrantSession} {r : Except SqlError Unit}
    (h : s.insertSession i session = some (r, s')) :
    Effect C i s (.insertSession session) s' := by
  rcases insertSession_eq_some h with ⟨-, rfl⟩ | ⟨hb, hnew, rfl⟩
  · exact .same _
  · exact .insertSession session hb hnew

theorem trackNonce_effect {nonce : PopNonce} {r : Except SqlError ℕ}
    (h : s.trackNonce i nonce = (r, s')) : Effect C i s (.trackNonce nonce) s' := by
  simp only [State.trackNonce] at h
  split at h
  · obtain ⟨-, rfl⟩ := Prod.mk.inj h
    exact .same _
  · rename_i hnew
    obtain ⟨-, rfl⟩ := Prod.mk.inj h
    exact .trackNonce nonce (by simpa using hnew)

/-- A commit that is reported as successful took place. -/
theorem commit_eq_ok {c : Choice} (h : exec C i .commit c s = some (.ok (), s')) :
    s' = s.commit i := by
  cases c with
  | done => exact (Prod.mk.inj (Option.some.inj h)).2.symm
  | failed | lost => cases (Prod.mk.inj (Option.some.inj h)).1
  | random bytes => cases h

/-- Inversion of `env`. -/
theorem env_cases {e : Env τ} (h : env e s = some s') :
    (∃ t : Instant τ, s.clock.secs ≤ t.secs ∧ s' = { s with clock := t }) ∨
    ∃ row : SignupCodeRow, row.usedBy = none ∧ (∀ r ∈ s.signupCodes.rows, r.id ≠ row.id) ∧
      s' = { s with signupCodes := { s.signupCodes with rows := s.signupCodes.rows ++ [row] } } := by
  cases e with
  | tick t =>
    simp only [env] at h
    split at h
    · rename_i hle
      exact .inl ⟨t, hle, (Option.some.inj h).symm⟩
    · cases h
  | addSignupCode code quota =>
    simp only [env] at h
    split at h
    · cases h
    · rename_i hnew
      exact .inr ⟨⟨code.asStr, none, quota⟩, rfl, view_ne_of_lookup_none (by simpa using hnew),
        (Option.some.inj h).symm⟩

/-- A statement either has no effect or is carried out. -/
theorem answer_effect {α : Type} {o : Op τ} {c : Choice}
    {x : Option (Except SqlError α × State τ)} {r : Except SqlError α}
    (h : answer c s x = some (r, s')) (hx : ∀ {r'}, x = some (r', s') → Effect C i s o s') :
    Effect C i s o s' := by
  rcases answer_eq_some h with rfl | ⟨r', h⟩
  · exact .same _
  · exact hx h

/-- Inversion of `exec`. -/
theorem exec_effect {o : Op τ} {c : Choice} {r : o.Res τ} (h : exec C i o c s = some (r, s')) :
    Effect C i s o s' := by
  cases o with
  | now =>
    cases h
    exact .now
  | generateBearer =>
    simp only [exec] at h
    split at h
    · split at h
      · cases h
        exact .mint _
      · cases h
    · cases h
  | commit =>
    cases c with
    | done =>
      cases h
      exact .commit
    | failed =>
      cases h
      exact .rollback _ (.inl rfl)
    | lost =>
      cases h
      exact .commit
    | random bytes => cases h
  | rollback =>
    cases h
    exact .rollback _ (.inr rfl)
  | createUser key => exact answer_effect h createUser_effect
  | setQuota userId quota => exact answer_effect h setQuota_effect
  | markAsUsed id key => exact answer_effect h markAsUsed_effect
  | createGrant grant => exact answer_effect h fun h => createGrant_effect (Option.some.inj h)
  | revoke id now => exact answer_effect h revoke_effect
  | lockGrant id => exact answer_effect h lockGrant_effect
  | deleteSessions grantId keys => exact answer_effect h deleteSessions_effect
  | insertSession session => exact answer_effect h insertSession_effect
  | garbageCollect cutoff =>
    rcases answer_eq_some h with rfl | ⟨r', h⟩
    · exact .same _
    · cases h
      exact .garbageCollect cutoff
  | trackNonce nonce => exact answer_effect h fun h => trackNonce_effect (Option.some.inj h)
  | notifyGrant id =>
    rcases answer_eq_some h with rfl | ⟨r', h⟩
    · exact .same _
    · cases h
      exact .notifyGrant id
  | begin | getUser | getSignupCode | getGrant | isRevoked | listActiveForUser
  | scanSessions | getSession =>
    obtain rfl := answer_read h
    exact .same _

end Pubky.Homeserver.Grant

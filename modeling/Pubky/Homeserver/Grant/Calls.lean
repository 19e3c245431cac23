import Pubky.Homeserver.Grant.Rules

/-!
# Safety of the calls

Every call of the service meets the preconditions of the operations it issues
(`grantLogic_callSafe`), so that the invariant holds in every run. On the way, what the
procedures establish: an exchange knows a verified grant and proof when it inserts a session,
and a revocation knows that the grant is stored.
-/

namespace Pubky.Homeserver.Grant

open Sql Conc Conc.Logic

variable {τ : Type} [Field τ] [LinearOrder τ] {C : Crates} {svc : GrantAuthService}
  {i : ℕ} {s : State τ} {w w₀ w₁ w' : Wld τ} {ε α β : Type} {o : Op τ}

/-! ## Outside of transactions -/

/-- Call `i` came from `w₀` to `w` and has no transaction open, nor has it inserted a session. -/
structure At (i : ℕ) (w₀ w : Wld τ) : Prop where
  grows : Grows w₀.state w.state
  hist : w₀.hist <:+ w.hist
  idle : Idle w.state i
  fresh : insertedBy w.state i = []

theorem At.start (h : At i w₀ w) : At i w w :=
  ⟨.refl _, List.suffix_rfl, h.idle, h.fresh⟩

theorem At.trans (h : At i w₀ w) (h' : At i w w') : At i w₀ w' :=
  ⟨h.grows.trans h'.grows, h.hist.trans h'.hist, h'.idle, h'.fresh⟩

theorem At.rely (h : At i w₀ w) (hr : Rely i w w') : At i w₀ w' :=
  ⟨h.grows.trans hr.grows, h.hist.trans hr.hist, h.idle.congr hr.tx, hr.inserted.trans h.fresh⟩

/-! ## Inside a transaction -/

/-- Call `i` came from `w₀` to `w`, holds the lock on the row of the grant `g` in its open
transaction, and has deleted the sessions `ds` in it. -/
structure Holding (i : ℕ) (w₀ w : Wld τ) (g : Text) (ds : List SessionTokenHash) : Prop where
  grows : Grows w₀.state w.state
  hist : w₀.hist <:+ w.hist
  locked : (i, g) ∈ w.state.grants.locks
  writes : w.state.sessions.writesOf i = ds.map .del
  fresh : insertedBy w.state i = []

/-- All sessions of the grant `g` are among `ds`. -/
def Covers (s : State τ) (g : Text) (ds : List SessionTokenHash) : Prop :=
  ∀ r ∈ s.sessions.rows, r.grantId = g → r.tokenHash ∈ ds

section Holding

variable {g : Text} {ds ds' : List SessionTokenHash}

theorem Holding.rely (h : Holding i w₀ w g ds) (hr : Rely i w w') : Holding i w₀ w' g ds where
  grows := h.grows.trans hr.grows
  hist := h.hist.trans hr.hist
  locked := hr.locks h.locked
  writes := (congrArg Tx.sessions hr.tx).trans h.writes
  fresh := hr.inserted.trans h.fresh

theorem Covers.rely (hc : Covers w.state g ds) (hl : (i, g) ∈ w.state.grants.locks)
    (hr : Rely i w w') : Covers w'.state g ds :=
  fun r hmem hg => hc r ((hr.sessions (hg ▸ hl)).1 hmem) hg

theorem Holding.effect (h : Holding i w₀ w g ds) (hu : UsersOk w.state.users)
    (hg : GrantsOk w.state) (e : Effect C i w.state o s) (ho : ∀ n, o ≠ .insertSession n)
    (hl : ∀ l ∈ w.state.grants.locks, l ∈ s.grants.locks)
    (hw : s.sessions.writesOf i = ds'.map .del) : Holding i w₀ (w.setState s) g ds' where
  grows := h.grows.trans (e.grows hu hg)
  hist := h.hist
  locked := hl _ h.locked
  writes := hw
  fresh := e.insertedBy_eq_nil h.fresh ho

end Holding

/-! ## Reading grants -/

/-- A grant that is read outside of a transaction is a committed row. -/
theorem getGrant_eq_ok {id : GrantId} {e : GrantEntity τ} (hidle : Idle s i)
    (h : s.getGrant C i id = .ok e) :
    ∃ r ∈ s.grants.rows, r.id = id.asStr ∧ r.decode C s.users.rows = .ok e := by
  rw [State.getGrant, Table.view_of_writesOf_eq_nil hidle.grants,
    Table.view_of_writesOf_eq_nil hidle.users] at h
  obtain ⟨r, hr, hdec⟩ := Except.bind_ok_iff.1 h
  cases hl : lookup s.grants.rows id.asStr with
  | none => simp [hl, found] at hr
  | some r' =>
    obtain rfl : r' = r := by simpa [hl, found] using hr
    obtain ⟨hmem, hid⟩ := lookup_eq_some hl
    exact ⟨r', hmem, hid, hdec⟩

variable [FloorRing τ]

/-! ## Statements outside of transactions -/

theorem At.effect (h : At i w₀ w) (hi : Inv C svc w) (ho : o.Pooled)
    (e : Effect C i w.state o s) : At i w₀ (w.setState s) where
  grows := h.grows.trans (e.grows hi.users hi.grants)
  hist := h.hist
  idle := e.idle ho h.idle
  fresh := e.insertedBy_eq_nil h.fresh fun n hn => by
    subst hn
    exact ho.elim

theorem pre_of_pooled (ho : o.Pooled) : Pre C svc i o w := by
  cases o <;> first | exact ho.elim | trivial

/-- Frame rule: a procedure that issues its operations outside of a transaction. -/
theorem safe_pooled {p : Proc τ ε α} (hp : p.run.Uses Op.Pooled) (hat : At i w₀ w) :
    (grantLogic τ C svc).SafeE i p (fun _ w' => At i w₀ w') w := by
  refine Safe.mono (Safe.of_uses (P := Op.Pooled) (R := At i w₀) hp (fun _ _ hr h => h.rely hr)
    (fun o w' ho hi h => ⟨pre_of_pooled ho, fun c r s _ hx => ?_⟩) hat) fun _ _ _ h _ _ => h
  exact h.effect hi ho (exec_effect hx)

theorem safe_reads {p : Proc τ ε α} (hp : p.run.Uses Op.Reads) (hat : At i w₀ w) :
    (grantLogic τ C svc).SafeE i p (fun _ w' => At i w₀ w') w :=
  safe_pooled (hp.mono fun _ => Op.Reads.pooled) hat

/-- A statement outside of a transaction. -/
theorem safe_pooled_sql {f : SqlError → ε} {p : Prog (Op τ) (Op.Res τ) (Except SqlError α)}
    {g : o.Res τ → Except SqlError α} {Q : α → Wld τ → Prop} (hat : At i w₀ w)
    (hp : p = .op o fun r => .ret (g r)) (ho : o.Pooled)
    (h : ∀ w₁ c r s a, At i w₀ w₁ → Inv C svc w₁ → exec C i o c w₁.state = some (r, s) →
      g r = .ok a → ∀ w₂, At i w₁ w₂ → Inv C svc w₂ → Q a w₂) :
    (grantLogic τ C svc).SafeE i (sql f p) Q w := by
  refine safe_sql hp fun w₁ hr hi => ⟨pre_of_pooled ho, fun c r s a _ hx ha w₂ hr₂ hi₂ => ?_⟩
  have hat₁ := hat.rely hr
  exact h w₁ c r s a hat₁ hi hx ha w₂ ((hat₁.start.effect hi ho (exec_effect hx)).rely hr₂) hi₂

theorem safe_pooled_utcNow {k : Instant τ → Proc τ ε β} {Q : β → Wld τ → Prop} (hat : At i w₀ w)
    (h : ∀ w₁ t, At i w₀ w₁ → Inv C svc w₁ → (i, t) ∈ w₁.state.readings →
      (grantLogic τ C svc).SafeE i (k t) Q w₁) :
    (grantLogic τ C svc).SafeE i (utcNow >>= k) Q w := by
  refine safe_utcNow_bind fun w₁ hr hi => ⟨trivial, fun _ => SafeE.of_rely fun w₂ hr₂ hi₂ => ?_⟩
  refine h w₂ w₁.state.clock (((hat.rely hr).effect (o := .now) hi trivial .now).rely hr₂) hi₂ ?_
  exact hr₂.grows.readings.subset (by simp)

/-! ## Verification of grants and proofs -/

theorem verifyGrant_safe (g : JwsCompact) (hat : At i w₀ w) :
    (grantLogic τ C svc).SafeE i (verifyGrant C g) (fun claims w' => At i w₀ w' ∧
      verifyGrantForRevocation C g = .ok claims ∧
      ∃ t, (i, t) ∈ w'.state.readings ∧ checkExpiry claims t.timestampU64 = .ok ()) w := by
  refine safe_check_bind fun claims hg => safe_pooled_utcNow hat fun w₁ t hat₁ _ ht => ?_
  refine safe_check_bind fun _ hexp => SafeE.pure fun w₂ hr _ => ?_
  exact ⟨hat₁.rely hr, hg, t, hr.grows.readings.subset ht, hexp⟩

theorem verifyPopProof_safe (p : JwsCompact) (claims : GrantClaims) (hat : At i w₀ w) :
    (grantLogic τ C svc).SafeE i (verifyPopProof C svc p claims) (fun _ w' => At i w₀ w' ∧
      ∃ raw, PopProof.verifyClaims C p (popContext C svc claims) = .ok raw) w := by
  refine safe_check_bind fun raw hraw => safe_pooled_utcNow hat fun w₁ t hat₁ _ ht => ?_
  exact safe_check fun _ _ w₂ hr _ => ⟨hat₁.rely hr, raw, hraw⟩

theorem verifyGrantAndPop_safe {g p : JwsCompact} (hcall : .call i (.createGrantSession g p) ∈ w.hist)
    (hat : At i w w) :
    (grantLogic τ C svc).SafeE i (verifyGrantAndPop C svc g p) (fun claims w' => At i w w' ∧
      ∃ pop, Exchange C svc w' i g p claims pop) w := by
  refine SafeE.bind ((verifyGrant_safe g hat).mono fun claims w₁ _ ⟨hat₁, hg, t, ht, hexp⟩ => ?_)
  refine SafeE.bind ((safe_reads (checkGrantNotRevoked_uses claims) hat₁.start).mono
    fun _ w₂ _ hat₂ => ?_)
  refine SafeE.bind ((verifyPopProof_safe p claims hat₂).mono fun pop w₃ _ ⟨hat₃, raw, hraw⟩ => ?_)
  refine SafeE.bind ((safe_pooled (checkNonceReplay_uses pop) hat₃).mono fun _ w₄ _ hat₄ => ?_)
  refine SafeE.pure fun w₅ hr _ => ?_
  have hat₅ := hat₁.trans (hat₄.rely hr)
  exact ⟨hat₅, raw, hat₅.hist.subset hcall, hg,
    ⟨t, (hat₄.rely hr).grows.readings.subset ht, hexp⟩, hraw⟩

theorem getGrant_safe (id : GrantId) (hat : At i w₀ w) :
    (grantLogic τ C svc).SafeE i (getGrant id) (fun e w' => ∃ w₁, At i w₀ w₁ ∧ Inv C svc w₁ ∧
      At i w₁ w' ∧ ∃ r ∈ w₁.state.grants.rows, r.id = id.asStr ∧
        r.decode C w₁.state.users.rows = .ok e) w := by
  refine safe_pooled_sql hat rfl trivial fun w₁ c r s e hat₁ hi hx he w₂ hat₂ _ => ?_
  obtain rfl : r = .ok e := he
  have hget : w₁.state.getGrant C i id = .ok e := by
    simpa using congrArg (Option.map Prod.fst) (answer_eq_ok hx)
  exact ⟨w₁, hat₁, hi, hat₂, getGrant_eq_ok hat₁.idle hget⟩

theorem requireStoredGrantMatches_safe (claims : GrantClaims) (hat : At i w₀ w) :
    (grantLogic τ C svc).SafeE i (requireStoredGrantMatches C claims) (fun _ w' => At i w₀ w' ∧
      Stored C w'.state claims) w := by
  refine SafeE.bind ((getGrant_safe claims.jti hat).mono fun e w₂ _ h => ?_)
  obtain ⟨w₁, hat₁, -, hat₂, r, hr, hid, hdec⟩ := h
  refine safe_unless fun hm => SafeE.pure fun w₃ hr₃ _ => ⟨(hat₁.trans hat₂).rely hr₃, ?_⟩
  have hstored : Stored C w₁.state claims := ⟨r, hr, hid, e, hdec, by simpa using hm⟩
  exact hstored.mono (hat₂.rely hr₃).grows

/-! ## Sessions -/

theorem deleteAllForGrant_safe {f : SqlError → ε} {id : GrantId}
    (h : Holding i w₀ w id.asStr []) :
    (grantLogic τ C svc).SafeE i (deleteAllForGrant ε f id) (fun _ w' =>
      ∃ ds, Holding i w₀ w' id.asStr ds ∧ Covers w'.state id.asStr ds) w := by
  -- the snapshot holds every session of the grant, and the lock keeps it that way
  refine safe_sql_bind rfl fun w₁ hr hi => ⟨trivial, fun c r s keys _ hx hkeys => ?_⟩
  have h₁ := h.rely hr
  obtain rfl : r = .ok keys := hkeys
  obtain ⟨hscan, rfl⟩ : w₁.state.scanSessions i id = keys ∧ s = w₁.state := by
    simpa [eq_comm] using answer_eq_ok hx
  have hcov : Covers w₁.state id.asStr keys := by
    intro r hmem hg
    rw [← hscan, State.scanSessions, Table.scan, Table.view_of_writesOf_eq_nil h₁.writes]
    exact List.mem_map.2 ⟨r, List.mem_filter.2 ⟨hmem, by simpa using hg⟩, rfl⟩
  refine safe_sql rfl fun w₂ hr₂ hi₂ => ?_
  have h₂ : Holding i w₀ w₂ id.asStr [] := h₁.rely hr₂
  have hcov₂ : Covers w₂.state id.asStr keys := hcov.rely h₁.locked hr₂
  refine ⟨⟨h₂.writes, h₂.locked⟩, fun c r s u _ hx hu w₃ hr₃ _ => ?_⟩
  obtain rfl : r = .ok u := hu
  obtain ⟨doomed, hdoomed, -, hs⟩ := deleteSessions_eq_some (answer_eq_ok hx)
  rw [Table.view_of_writesOf_eq_nil h₂.writes] at hdoomed
  have hsessions : s.sessions = w₂.state.sessions.deleteAll i doomed := by rw [hs]; rfl
  have h₃ : Holding i w₀ (w₂.setState s) id.asStr doomed := by
    refine h₂.effect hi₂.users hi₂.grants (exec_effect hx) (by simp) (fun l hl => ?_) ?_
    · rw [hs]
      exact hl
    · rw [hsessions, Table.writesOf_deleteAll_self, h₂.writes]
      rfl
  have hcov₃ : Covers s id.asStr doomed := by
    intro r hmem hg
    rw [hsessions, Table.deleteAll_rows] at hmem
    exact (hdoomed _).2 ⟨hcov₂ r hmem hg, r, hmem, hg, rfl⟩
  exact ⟨doomed, h₃.rely hr₃, Covers.rely (w := w₂.setState s) hcov₃ h₃.locked hr₃⟩

/-- The lock on the row of the grant, taken at the start of a transaction. -/
theorem Holding.of_lockGrant {id : GrantId} {c : Choice} {x : Option Int64 × Int64}
    (hat : At i w₀ w) (hi : Inv C svc w)
    (hx : exec C i (.lockGrant id) c w.state = some (.ok x, s)) :
    Holding i w₀ (w.setState s) id.asStr [] := by
  have hgrows := (exec_effect hx).grows hi.users hi.grants
  rcases lockGrant_eq_some (answer_eq_ok hx) with ⟨herr, -⟩ | ⟨-, rfl⟩
  · cases herr
  · exact
      { grows := hat.grows.trans hgrows
        hist := hat.hist
        locked := Table.mem_locks_lock.2 (.inl rfl)
        writes := hat.idle.sessions
        fresh := hat.fresh }

theorem replaceForGrant_safe {n : NewGrantSession} {g p : JwsCompact} {claims : GrantClaims}
    {pop : PopProofClaims} {b : SessionBearer} (hat : At i w w)
    (horigin : Origin C svc w n.toRow i g p claims pop b) :
    (grantLogic τ C svc).SafeE i (replaceForGrant n) (fun _ w' => Grows w.state w'.state ∧
      n.tokenHash ∈ issued w'.state.wal n.grantId.asStr) w := by
  refine safe_inTransaction (fun _ _ => trivial) (fun _ _ => trivial) ?_
  refine safe_sql_bind rfl fun w₁ hr hi => ⟨trivial, fun c r s x _ hx hx' => ?_⟩
  obtain rfl : r = .ok x := hx'
  have h₁ := Holding.of_lockGrant (hat.rely hr) hi hx
  refine safe_unless fun _ => safe_utcNow_bind fun w₂ hr₂ hi₂ => ⟨trivial, fun _ => ?_⟩
  have h₂ := h₁.rely hr₂
  have h₂' := h₂.effect (C := C) (o := .now) hi₂.users hi₂.grants .now (by simp)
    (fun _ hl => hl) h₂.writes
  refine safe_unless fun _ => SafeE.bind ((deleteAllForGrant_safe h₂').mono
    fun _ w₃ _ ⟨ds, h₃, hcov⟩ => ?_)
  refine safe_sql rfl fun w₄ hr₄ hi₄ => ?_
  have h₄ := h₃.rely hr₄
  refine ⟨⟨⟨h₄.locked, ds, h₄.writes, hcov.rely h₃.locked hr₄⟩, h₄.fresh, g, p, claims, pop, b,
    horigin.mono h₄.grows h₄.hist⟩, fun c r s u _ hx hu w₅ hr₅ _ w₆ hr₆ hi₆ => ?_⟩
  obtain rfl : r = .ok u := hu
  have hgrows : Grows w.state s := h₄.grows.trans ((exec_effect hx).grows hi₄.users hi₄.grants)
  rcases insertSession_eq_some (answer_eq_ok hx) with ⟨herr, -⟩ | ⟨-, -, hs⟩
  · cases herr
  · -- the statement is in the open transaction from here on and is logged by the commit
    have hpend : .insertSession n.toRow ∈ w₆.state.pendingOf i := by
      have htx : w₆.state.pendingOf i = s.pendingOf i :=
        congrArg Tx.stmts (hr₆.tx.trans hr₅.tx)
      rw [htx, hs, State.pendingOf_issue_self]
      exact List.mem_append_right _ (List.mem_singleton_self _)
    refine ⟨trivial, fun c s' _ hx' w₇ hr₇ _ => ?_⟩
    have hgrows' := (hgrows.trans hr₅.grows).trans (hr₆.grows.trans
      ((exec_effect hx').grows hi₆.users hi₆.grants))
    refine ⟨hgrows'.trans hr₇.grows, (issued_mono hr₇.grows.wal _).subset ?_⟩
    rw [commit_eq_ok hx']
    exact mem_issued (e := (i, w₆.state.pendingOf i))
      (List.mem_append_right _ (List.mem_singleton_self _)) hpend rfl

theorem uint64_min_le_right (a b : UInt64) : min a b ≤ b := by
  change (if a ≤ b then a else b) ≤ b
  split
  · assumption
  · exact UInt64.le_refl b

theorem mintSession_safe {g p : JwsCompact} {claims : GrantClaims} {pop : PopProofClaims}
    (hat : At i w w) (hex : Exchange C svc w i g p claims pop) (hst : Stored C w.state claims) :
    (grantLogic τ C svc).SafeE i (mintSession C svc claims)
      (fun resp w' => Returned C w'.state i resp) w := by
  refine safe_pooled_utcNow hat fun w₁ t hat₁ hi₁ _ => ?_
  refine safe_lift_bind fun w₂ hr₂ hi₂ => ⟨trivial, fun c b s _ hx => ?_⟩
  have hminted : (i, b) ∈ s.minted := by
    cases c with
    | random bytes =>
      simp only [exec] at hx
      split at hx
      · cases hx
        exact List.mem_append_right _ (List.mem_singleton_self _)
      · cases hx
    | done | failed | lost => cases hx
  have hat₂ : At i w (w₂.setState s) :=
    (hat₁.rely hr₂).effect hi₂ (o := .generateBearer) trivial (exec_effect hx)
  refine SafeE.bind ((safe_adapt (replaceForGrant_safe hat₂.start
    { exchange := hex.mono hat₂.grows hat₂.hist
      minted := hminted
      tokenHash := rfl
      grantId := rfl
      expiresAt := ⟨_, uint64_min_le_right _ _, rfl⟩
      stored := hst.mono hat₂.grows })).mono fun _ w₃ _ hw₃ => ?_)
  obtain ⟨hgrows, hiss⟩ := hw₃
  refine SafeE.pure fun w₄ hr₄ _ => ⟨b, ?_, rfl, ?_⟩
  · exact (hgrows.trans hr₄.grows).minted.subset hminted
  · exact (issued_mono hr₄.grows.wal _).subset hiss

theorem createGrantSession_safe {g p : JwsCompact}
    (hcall : .call i (.createGrantSession g p) ∈ w.hist) (hat : At i w w) :
    (grantLogic τ C svc).SafeE i (createGrantSession C svc g p)
      (fun resp w' => Returned C w'.state i resp) w := by
  refine SafeE.bind ((verifyGrantAndPop_safe hcall hat).mono
    fun claims w₁ _ ⟨hat₁, pop, hex⟩ => ?_)
  refine SafeE.bind ((safe_reads (findUser_uses claims) hat₁.start).mono fun user w₂ _ hat₂ => ?_)
  refine SafeE.bind ((safe_pooled (uses_sql (uses_perform trivial)) hat₂).mono
    fun _ w₃ _ hat₃ => ?_)
  refine SafeE.bind ((requireStoredGrantMatches_safe claims hat₃).mono
    fun _ w₄ _ ⟨hat₄, hst⟩ => ?_)
  exact mintSession_safe hat₄.start (hex.mono hat₄.grows hat₄.hist) hst

/-! ## Revocation -/

/-- The grant is stored. -/
def Known (s : State τ) (id : GrantId) : Prop :=
  ∃ r ∈ s.grants.rows, r.id = id.asStr

omit [FloorRing τ] in
theorem Known.mono {s' : State τ} {id : GrantId} (h : Known s id) (hs : Grows s s') :
    Known s' id := by
  obtain ⟨r, hr, hid⟩ := h
  obtain ⟨r', hr', hb⟩ := hs.grants r hr
  exact ⟨r', hr', hb.id_eq.trans hid⟩

/-- A transaction that revokes a grant holds the lock on its row. -/
theorem Holding.of_revoke {id : GrantId} {now : Int64} {c : Choice} (hat : At i w₀ w)
    (hi : Inv C svc w) (hk : Known w.state id)
    (hx : exec C i (.revoke id now) c w.state = some (.ok (), s)) :
    Holding i w₀ (w.setState s) id.asStr [] := by
  have heff := exec_effect hx
  have hfresh : insertedBy s i = [] := heff.insertedBy_eq_nil hat.fresh (by simp)
  have hgrows := heff.grows hi.users hi.grants
  rcases revoke_eq_some (answer_eq_ok hx) with ⟨hnone, -⟩ | ⟨r, -, hid, -, hs⟩
  · obtain ⟨r, hr, hid⟩ := hk
    rw [Table.view_of_writesOf_eq_nil hat.idle.grants] at hnone
    exact absurd hid (hnone r hr)
  · refine ⟨hat.grows.trans hgrows, hat.hist, ?_, ?_, hfresh⟩
    · rw [World.setState_state, hs]
      exact List.mem_cons.2 (.inl (by rw [← hid]; rfl))
    · rw [World.setState_state, hs]
      exact hat.idle.sessions

theorem revokeGrant_safe {id : GrantId} (hat : At i w w) (hk : Known w.state id) :
    (grantLogic τ C svc).SafeE i (revokeGrant id) (fun _ _ => True) w := by
  refine safe_inTransaction (fun _ _ => trivial) (fun _ _ => trivial) ?_
  refine safe_pooled_utcNow hat fun w₁ t hat₁ _ _ => ?_
  refine safe_sql_bind rfl fun w₂ hr₂ hi₂ => ?_
  have hat₂ := hat₁.rely hr₂
  have hk₂ := hk.mono hat₂.grows
  refine ⟨⟨hat₂.idle.grants, hk₂⟩, fun c r s u _ hx hu => ?_⟩
  obtain rfl : r = .ok u := hu
  refine SafeE.bind ((deleteAllForGrant_safe (Holding.of_revoke hat₂ hi₂ hk₂ hx)).mono
    fun _ w₃ _ _ => ?_)
  refine safe_sql rfl fun w₄ _ _ => ⟨trivial, fun c r s u _ _ _ w₅ _ _ w₆ _ _ => ?_⟩
  exact ⟨trivial, fun _ _ _ _ _ _ _ => trivial⟩

theorem getGrant_known (id : GrantId) (hat : At i w₀ w) :
    (grantLogic τ C svc).SafeE i (getGrant id) (fun _ w' => At i w₀ w' ∧ Known w'.state id) w := by
  refine (getGrant_safe id hat).mono fun e w₂ _ h => ?_
  obtain ⟨w₁, hat₁, -, hat₂, r, hr, hid, -⟩ := h
  exact ⟨hat₁.trans hat₂, Known.mono ⟨r, hr, hid⟩ hat₂.grows⟩

theorem signoutWithProof_safe (g p : JwsCompact) (hat : At i w w) :
    (grantLogic τ C svc).SafeE i (signoutWithProof C svc g p) (fun _ _ => True) w := by
  refine safe_check_bind fun claims _ => ?_
  refine SafeE.bind ((safe_reads (verifyPopProof_uses p claims) hat).mono fun pop w₁ _ hat₁ => ?_)
  refine SafeE.bind ((safe_pooled (checkNonceReplay_uses pop) hat₁).mono fun _ w₂ _ hat₂ => ?_)
  refine SafeE.bind ((getGrant_known claims.jti hat₂).mono fun e w₃ _ ⟨hat₃, hk⟩ => ?_)
  exact safe_unless fun _ => revokeGrant_safe hat₃.start hk

theorem revokeUserGrant_safe (id : GrantId) (auth : AuthSession) (hat : At i w w) :
    (grantLogic τ C svc).SafeE i (revokeUserGrant id auth) (fun _ _ => True) w := by
  refine SafeE.bind ((safe_reads (resolveUserId_uses auth) hat).mono fun userId w₁ _ hat₁ => ?_)
  refine SafeE.bind ((getGrant_known id hat₁).mono fun e w₂ _ ⟨hat₂, hk⟩ => ?_)
  exact safe_unless fun _ => revokeGrant_safe hat₂.start hk

/-! ## Resolution of bearers -/

/-- Call `i`, started in `w₀`, resolved the bearer `b` to `session`: it found the session row
`row` in `w₁` and the active grant `r` in `w₂`. -/
structure Resolution (C : Crates) (svc : GrantAuthService) (i : ℕ) (b : SessionBearer)
    (session : GrantSession) (w₀ w₁ w₂ w : Wld τ) (row : GrantSessionRow) (r : GrantRow τ)
    (e : GrantEntity τ) : Prop where
  at₁ : At i w₀ w₁
  inv₁ : Inv C svc w₁
  row_mem : row ∈ w₁.state.sessions.rows
  tokenHash : row.tokenHash = b.hash C
  row_grantId : row.grantId = session.grantId.asStr
  expiresAt : session.tokenExpiresAt = row.expiresAt.toUInt64
  at₂ : At i w₁ w₂
  inv₂ : Inv C svc w₂
  grant_mem : r ∈ w₂.state.grants.rows
  grant_id : r.id = session.grantId.asStr
  decode : r.decode C w₂.state.users.rows = .ok e
  active : e.revokedAt = none
  userKey : session.userKey = e.userPubkey
  capabilities : session.capabilities = e.capabilities
  at₃ : At i w₂ w

omit [FloorRing τ] in
/-- A session that is read outside of a transaction is a committed row. -/
theorem getSession_eq_ok {h : SessionTokenHash} {e : GrantSessionEntity} (hidle : Idle s i)
    (hget : s.getSession i h = .ok e) :
    ∃ row ∈ s.sessions.rows, row.tokenHash = h ∧ row.grantId = e.grantId.asStr ∧
      row.expiresAt = e.expiresAt := by
  rw [State.getSession, Table.view_of_writesOf_eq_nil hidle.sessions] at hget
  obtain ⟨row, hrow, hdec⟩ := Except.bind_ok_iff.1 hget
  cases hl : lookup s.sessions.rows h with
  | none => simp [hl, found] at hrow
  | some row' =>
    obtain rfl : row' = row := by simpa [hl, found] using hrow
    obtain ⟨hmem, hkey⟩ := lookup_eq_some hl
    obtain ⟨gid, hgid, he⟩ := Except.bind_ok_iff.1 hdec
    cases he
    refine ⟨row', hmem, hkey, ?_, rfl⟩
    cases hp : RandomId.parse row'.grantId with
    | error err => simp [hp, decoded] at hgid
    | ok id =>
      obtain rfl : id = gid := by simpa [hp, decoded] using hgid
      exact (RandomId.asStr_of_parse hp).symm

omit [Field τ] [LinearOrder τ] [FloorRing τ] in
theorem requireActive_eq_ok {e : GrantEntity τ} {now : Int64} (h : e.requireActive now = .ok ()) :
    e.revokedAt = none := by
  cases hr : e.revokedAt with
  | none => rfl
  | some t => simp [GrantEntity.requireActive, hr] at h

theorem resolveGrantSessionByBearer_safe (b : SessionBearer) (hat : At i w w) :
    (grantLogic τ C svc).SafeE i (resolveGrantSessionByBearer C b) (fun session w' =>
      ∃ w₁ w₂ row r e, Resolution C svc i b session w w₁ w₂ w' row r e) w := by
  refine SafeE.bind (safe_pooled_sql hat rfl trivial
    fun w₁ c r s se hat₁ hi₁ hx hr w₂ hat₂ _ => ?_)
  obtain rfl : r = .ok se := hr
  have hget : w₁.state.getSession i (b.hash C) = .ok se := by
    simpa using congrArg (Option.map Prod.fst) (answer_eq_ok hx)
  obtain ⟨row, hrow, hhash, hgid, hexp⟩ := getSession_eq_ok hat₁.idle hget
  refine SafeE.bind (safe_pooled_utcNow hat₂ fun w₃ t hat₃ _ _ => safe_unless fun _ => ?_)
  refine SafeE.bind ((getGrant_safe se.grantId hat₃).mono fun e w₅ _ h => ?_)
  obtain ⟨w₄, hat₄, hi₄, hat₅, r, hr, hid, hdec⟩ := h
  refine safe_check_bind fun _ hactive => SafeE.pure fun w₆ hr₆ _ => SafeE.pure fun w₇ hr₇ _ => ?_
  exact ⟨w₁, w₄, row, r, e,
    { at₁ := hat₁, inv₁ := hi₁, row_mem := hrow, tokenHash := hhash, row_grantId := hgid
      expiresAt := congrArg Int64.toUInt64 hexp.symm
      at₂ := hat₄, inv₂ := hi₄, grant_mem := hr, grant_id := hid, decode := hdec
      active := requireActive_eq_ok hactive, userKey := rfl, capabilities := rfl
      at₃ := (hat₅.rely hr₆).rely hr₇ }⟩

theorem signout_safe (b : SessionBearer) (hat : At i w w) :
    (grantLogic τ C svc).SafeE i (signout C b) (fun _ _ => True) w := by
  refine Safe.bind (Safe.mono (resolveGrantSessionByBearer_safe b hat) fun x w' _ hx => ?_)
  cases x with
  | error e => exact fun _ _ _ _ _ => trivial
  | ok session =>
    obtain ⟨w₁, w₂, row, r, e, hres⟩ := hx session rfl
    exact revokeGrant_safe hres.at₃.start
      (Known.mono ⟨r, hres.grant_mem, hres.grant_id⟩ hres.at₃.grows)

/-! ## Signup -/

/-- The statements of a signup before it inserts the user. -/
def Op.BeforeCreate (o : Op τ) : Prop :=
  o.Reads ∨ ∃ id key, o = .markAsUsed id key

omit [FloorRing τ] in
theorem Effect.users_writesOf (h : Effect C i w.state o s) (ho : o.BeforeCreate) :
    s.users.writesOf i = w.state.users.writesOf i := by
  rcases ho with ho | ⟨id, key, rfl⟩
  · cases h with
    | same | now => rfl
    | rollback o ho' => rcases ho' with rfl | rfl <;> exact ho.elim
    | mint | commit | userConflict | createUser | setQuota | markAsUsed | createGrant | revokeNone | revoke
    | lockGrant | deleteSessions | insertSession | garbageCollect | trackNonce | notifyGrant =>
      exact ho.elim
  · cases h with
    | same | markAsUsed => rfl
    | rollback o ho' => rcases ho' with h | h <;> cases h

theorem safe_beforeCreate {p : Proc τ ε α} (hp : p.run.Uses Op.BeforeCreate)
    (hw : w.state.users.writesOf i = []) :
    (grantLogic τ C svc).SafeE i p (fun _ w' => w'.state.users.writesOf i = []) w := by
  refine Safe.mono (Safe.of_uses (P := Op.BeforeCreate)
    (R := fun w' : Wld τ => w'.state.users.writesOf i = []) hp
    (fun _ _ hr h => (congrArg Tx.users hr.tx).trans h) (fun o w' ho hi h => ⟨?_, ?_⟩) hw)
    fun _ _ _ h _ _ => h
  · rcases ho with ho | ⟨id, key, rfl⟩
    · exact pre_of_pooled ho.pooled
    · trivial
  · exact fun c r s _ hx => ((exec_effect hx).users_writesOf ho).trans h

theorem createUserInTx_safe (key : PublicKey) (token : Option SignupCode)
    (hw : w.state.users.writesOf i = []) :
    (grantLogic τ C svc).SafeE i (createUserInTx svc key token) (fun _ _ => True) w := by
  refine SafeE.bind ((safe_beforeCreate ((ensureUserNotExists_uses key).mono fun _ => .inl) hw).mono
    fun _ w₁ _ hw₁ => SafeE.bind ((safe_beforeCreate ?_ hw₁).mono fun quota w₂ _ hw₂ => ?_))
  · split
    · exact uses_bind uses_check fun _ => uses_bind (uses_sql (uses_perform (.inl trivial)))
        fun _ => uses_unless (uses_bind (uses_sql (uses_perform (.inr ⟨_, _, rfl⟩))) fun _ =>
          uses_pure)
    · exact uses_pure
  · refine safe_sql_bind rfl fun w₃ hr _ => ⟨(congrArg Tx.users hr.tx).trans hw₂, ?_⟩
    exact fun _ _ _ _ _ _ _ =>
      safe_sql rfl fun _ _ _ => ⟨trivial, fun _ _ _ _ _ _ _ _ _ _ => trivial⟩

theorem commits_trivial : Commits (grantLogic τ C svc) i (fun _ => True) w :=
  fun _ _ _ => ⟨trivial, fun _ _ _ _ _ _ _ => trivial⟩

theorem createNewUser_safe (key : PublicKey) (token : Option SignupCode) (hat : At i w w) :
    (grantLogic τ C svc).SafeE i (createNewUser svc key token) (fun _ _ => True) w :=
  safe_inTransaction (fun _ _ => trivial) (fun _ _ => trivial)
    ((createUserInTx_safe key token hat.idle.users).mono fun _ _ _ _ => commits_trivial)

theorem verifySignupGrantAndPop_uses (g p : JwsCompact) :
    (verifySignupGrantAndPop C svc g p : Proc τ _ _).run.Uses Op.Pooled :=
  uses_bind ((verifyGrant_uses g).mono fun _ => Op.Reads.pooled) fun claims =>
    uses_bind uses_check fun _ => uses_bind uses_check fun _ =>
      uses_bind (uses_utcNow trivial) fun _ => uses_bind uses_check fun _ =>
        uses_bind ((verifyPopProof_uses p claims).mono fun _ => Op.Reads.pooled) fun pop =>
          uses_bind (checkNonceReplay_uses pop) fun _ => uses_pure

theorem signupGrantAccount_safe (g p : JwsCompact) (token : Option SignupCode) (hat : At i w w) :
    (grantLogic τ C svc).SafeE i (signupGrantAccount C svc g p token) (fun _ _ => True) w := by
  refine SafeE.bind ((safe_pooled (verifySignupGrantAndPop_uses g p) hat).mono
    fun claims w₁ _ hat₁ => ?_)
  refine SafeE.bind (SafeE.mono (safe_inTransaction (Q := fun _ _ => True) (fun _ _ => trivial)
    (fun _ _ => trivial) ((safe_adapt (createUserInTx_safe claims.iss token hat₁.idle.users)).mono
      fun _ _ _ _ => commits_trivial)) fun _ _ _ _ => ?_)
  exact SafeE.pure fun _ _ _ => trivial

/-! ## All calls -/

/-- The calls start outside of a transaction. -/
theorem at_log {c : Call} (hi : Inv C svc w) (hs : ¬ w.Started i) :
    At i (w.log (.call i c)) (w.log (.call i c)) :=
  ⟨.refl _, List.suffix_rfl, (hi.idle i hs).1, (hi.idle i hs).2⟩

/-- The result of a procedure becomes the answer of the call. -/
theorem safe_answer {p : Proc τ ε α} {f : Except ε α → Out τ} {Q : α → Wld τ → Prop}
    {R : Out τ → Wld τ → Prop} (h : (grantLogic τ C svc).SafeE i p Q w)
    (hok : ∀ a w', Inv C svc w' → Q a w' → R (f (.ok a)) w') (herr : ∀ e w', R (f (.error e)) w') :
    (grantLogic τ C svc).Safe i (p.run >>= fun r => .ret (f r)) R w := by
  refine Safe.map (Safe.mono h fun r w' hi hr => ?_)
  cases r with
  | ok a => exact hok a w' hi (hr a rfl)
  | error e => exact herr e w'

theorem grantLogic_callSafe : (grantLogic τ C svc).CallSafe := by
  intro w i c hi hs _
  have hat := at_log (c := c) hi hs
  cases c with
  | createGrantSession g p =>
    exact safe_answer (createGrantSession_safe (List.mem_cons_self ..) hat)
      (fun _ _ _ h => h) fun _ _ => trivial
  | signupGrantAccount g p t =>
    exact safe_answer (signupGrantAccount_safe g p t hat) (fun _ _ _ _ => trivial) fun _ _ => trivial
  | signoutWithProof g p =>
    exact safe_answer (signoutWithProof_safe g p hat) (fun _ _ _ _ => trivial) fun _ _ => trivial
  | revokeUserGrant g a =>
    exact safe_answer (revokeUserGrant_safe g a hat) (fun _ _ _ _ => trivial) fun _ _ => trivial
  | signout b =>
    exact safe_answer (signout_safe b hat) (fun _ _ _ _ => trivial) fun _ _ => trivial
  | resolveGrantSessionByBearer b =>
    exact safe_answer (resolveGrantSessionByBearer_safe b hat) (fun _ _ _ _ => trivial)
      fun _ _ => trivial
  | validateActiveGrantSession s =>
    exact safe_answer (safe_reads (validateActiveGrantSession_uses s) hat)
      (fun _ _ _ _ => trivial) fun _ _ => trivial
  | listActiveGrants u =>
    exact safe_answer (safe_reads (listActiveGrants_uses u) hat) (fun _ _ _ _ => trivial)
      fun _ _ => trivial
  | getGrantSessionInfo s =>
    exact safe_answer (safe_reads (getGrantSessionInfo_uses s) hat) (fun _ _ _ _ => trivial)
      fun _ _ => trivial
  | createNewUser k t =>
    exact safe_answer (createNewUser_safe k t hat) (fun _ _ _ _ => trivial) fun _ _ => trivial

/-! ## Runs -/

/-- A pool before the first call: any users and signup codes, nothing else. -/
structure Initial (p : Pool (State τ) (Op τ) Call (Out τ) (Op.Res τ)) : Prop where
  threads : ∀ i, p.threads i = none
  hist : p.world.hist = []
  users : p.world.state.users.writes = [] ∧ p.world.state.users.locks = []
  quotas : p.world.state.quotas.writes = [] ∧ p.world.state.quotas.locks = []
  signupCodes : p.world.state.signupCodes.writes = [] ∧ p.world.state.signupCodes.locks = []
  grants : p.world.state.grants = ⟨[], [], []⟩
  sessions : p.world.state.sessions = ⟨[], [], []⟩
  popNonces : p.world.state.popNonces = []
  pending : p.world.state.pending = []
  wal : p.world.state.wal = []
  minted : p.world.state.minted = []
  readings : p.world.state.readings = []

variable (C svc) in
/-- Runs of the service: any calls in any interleaving. -/
def Runs : Pool (State τ) (Op τ) Call (Out τ) (Op.Res τ) →
    Pool (State τ) (Op τ) Call (Out τ) (Op.Res τ) → Prop :=
  Steps (machine τ C svc) fun _ _ => True

variable (C svc) in
/-- Pools that a run from an initial one leads to. -/
def Reachable (p : Pool (State τ) (Op τ) Call (Out τ) (Op.Res τ)) : Prop :=
  ∃ p₀, Initial p₀ ∧ Runs C svc p₀ p

section Initial

variable {p : Pool (State τ) (Op τ) Call (Out τ) (Op.Res τ)}

omit [FloorRing τ] in
theorem Initial.idle (h : Initial p) (i : ℕ) : Idle p.world.state i := by
  constructor <;> simp [Table.writesOf, h.users.1, h.quotas.1, h.signupCodes.1, h.grants,
    h.sessions, State.pendingOf, h.pending]

omit [FloorRing τ] in
theorem Initial.usersOk (h : Initial p) : UsersOk p.world.state.users where
  locked := ⟨by simp [h.users.2], by simp [Table.writesOf, h.users.1]⟩
  writes := fun i => .inl (h.idle i).users

theorem Initial.inv (h : Initial p) : Inv C svc p.world where
  idle := fun i _ => ⟨h.idle i, by simp [insertedBy, h.wal, State.pendingOf, h.pending, inserted]⟩
  users := h.usersOk
  grants := by
    refine ⟨?_, ⟨?_, ?_⟩, ?_, ?_, ?_⟩ <;>
      simp [UniqueKeys, h.grants, Table.writesOf, State.pendingOf, h.pending, h.wal]
  sessions := by
    refine ⟨?_, ⟨?_, ?_⟩, fun i => ⟨[], none, .idle ?_ ?_⟩, ?_, ?_⟩ <;>
      simp [UniqueKeys, h.sessions, Table.writesOf, State.pendingOf, h.pending, inserted]
  origin := fun row hrow => by simp [Live, h.sessions, Table.writesOf] at hrow
  returned := fun i resp hr => by simp [h.hist] at hr
  once := fun i => by simp [insertedBy, h.wal, State.pendingOf, h.pending, inserted]
  drawn := fun i row hrow => by
    simp [insertedBy, h.wal, State.pendingOf, h.pending, inserted] at hrow

theorem Initial.poolSafe (h : Initial p) : (grantLogic τ C svc).PoolSafe p :=
  .initial h.inv h.threads h.hist

theorem Reachable.poolSafe (h : Reachable C svc p) : (grantLogic τ C svc).PoolSafe p := by
  obtain ⟨p₀, hp₀, hruns⟩ := h
  exact steps_safe grantLogic_callSafe hp₀.poolSafe hruns

end Initial

end Pubky.Homeserver.Grant

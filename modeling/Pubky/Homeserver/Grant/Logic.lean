import Pubky.Homeserver.Grant.Tables
import Pubky.Lib.RelyGuarantee

/-!
# The logic of the grant service

The invariant that every operation keeps, the changes that a call may count on when other calls
move, and the conditions under which a call may issue an operation, put together as a
rely-guarantee logic for the machine of the service.

* `Grows` is what never goes back: the clock, the logs, the users and the grants.
* `Origin` says where a session row comes from: a call of `create_grant_session` that verified a
  grant and a proof of possession.
* `grantLogic` is the logic.
-/

namespace Pubky.Homeserver.Grant

open Sql Conc

/-- The shared state with the history of calls. -/
abbrev Wld (τ : Type) [Field τ] [LinearOrder τ] := World (State τ) Call (Out τ)

variable {τ : Type} [Field τ] [LinearOrder τ] {C : Crates} {svc : GrantAuthService} {i j : ℕ}
  {s s' s'' : State τ} {o : Op τ} {w w' w'' : Wld τ}

/-! ## What never goes back -/

/-- `s'` is a later state than `s`. -/
structure Grows (s s' : State τ) : Prop where
  clock : s.clock.secs ≤ s'.clock.secs
  wal : s.wal <+: s'.wal
  minted : s.minted <+: s'.minted
  readings : s.readings <+: s'.readings
  users : s.users.rows <+: s'.users.rows
  grants : ∀ r ∈ s.grants.rows, ∃ r' ∈ s'.grants.rows, r.Becomes r'

theorem Grows.refl (s : State τ) : Grows s s where
  clock := le_rfl
  wal := List.prefix_rfl
  minted := List.prefix_rfl
  readings := List.prefix_rfl
  users := List.prefix_rfl
  grants := fun r hr => ⟨r, hr, .refl r⟩

theorem Grows.trans (h : Grows s s') (h' : Grows s' s'') : Grows s s'' where
  clock := h.clock.trans h'.clock
  wal := h.wal.trans h'.wal
  minted := h.minted.trans h'.minted
  readings := h.readings.trans h'.readings
  users := h.users.trans h'.users
  grants := fun r hr =>
    let ⟨r', hr', hb⟩ := h.grants r hr
    let ⟨r'', hr'', hb'⟩ := h'.grants r' hr'
    ⟨r'', hr'', hb.trans hb'⟩

theorem Effect.grows (e : Effect C i s o s') (hu : UsersOk s.users) (hg : GrantsOk s) :
    Grows s s' where
  clock := by cases e <;> exact le_rfl
  wal := by cases e <;> first | exact List.prefix_rfl | exact List.prefix_append _ _
  minted := by cases e <;> first | exact List.prefix_rfl | exact List.prefix_append _ _
  readings := by cases e <;> first | exact List.prefix_rfl | exact List.prefix_append _ _
  users := hu.rows_prefix e
  grants := fun _ hr => hg.exists_becomes e hr

/-! ## Stored grants -/

theorem find?_mono {us us' : List UserRow} (h : us <+: us') {p : UserRow → Bool} {u : UserRow}
    (hu : us.find? p = some u) : us'.find? p = some u := by
  obtain ⟨rest, rfl⟩ := h
  rw [List.find?_append, hu, Option.some_or]

omit [Field τ] [LinearOrder τ] in
/-- Reading a later version of a row gives the same grant, up to its revocation. -/
theorem GrantRow.decode_mono {us us' : List UserRow} {r r' : GrantRow τ} {e : GrantEntity τ}
    (h : r.decode C us = .ok e) (hus : us <+: us') (hb : r.Becomes r') :
    r'.decode C us' = .ok { e with revokedAt := r'.revokedAt } := by
  simp only [GrantRow.decode, Except.bind_ok_iff] at h
  obtain ⟨id, hid, user, huser, key, hkey, client, hclient, caps, hcaps, he⟩ := h
  cases hf : us.find? fun u => u.id = r.user with
  | none => simp [hf, decodedOption] at huser
  | some u =>
    obtain rfl : u = user := by simpa [hf, decodedOption] using huser
    cases he
    rw [hb.eq]
    simp only [GrantRow.decode, Except.bind_ok_iff]
    exact ⟨id, hid, u, by rw [find?_mono hus hf]; rfl, key, hkey, client, hclient, caps, hcaps,
      rfl⟩

/-- The grants table holds the grant with the given claims. -/
def Stored (C : Crates) (s : State τ) (claims : GrantClaims) : Prop :=
  ∃ r ∈ s.grants.rows, r.id = claims.jti.asStr ∧
    ∃ e, r.decode C s.users.rows = .ok e ∧ e.matchesClaims C claims = true

theorem Stored.mono {claims : GrantClaims} (h : Stored C s claims) (hs : Grows s s') :
    Stored C s' claims := by
  obtain ⟨r, hr, hid, e, he, hm⟩ := h
  obtain ⟨r', hr', hb⟩ := hs.grants r hr
  exact ⟨r', hr', hb.id_eq.trans hid, _, GrantRow.decode_mono he hs.users hb, hm⟩

/-! ## Where sessions come from -/

/-- A session row that is committed or about to be. -/
def Live (s : State τ) (row : GrantSessionRow) : Prop :=
  row ∈ s.sessions.rows ∨ ∃ j, .put row ∈ s.sessions.writesOf j

/-- Session rows come from `INSERT` statements only. -/
theorem Effect.live (e : Effect C i s o s') {row : GrantSessionRow} (h : Live s' row) :
    Live s row ∨ ∃ n, o = .insertSession n ∧ row = n.toRow := by
  cases e with
  | commit =>
    rcases h with h | ⟨j, h⟩
    · exact .inl ((mem_or_put_of_mem_foldl h).imp_right fun h => ⟨i, h⟩)
    · exact .inl (.inr ⟨j, Table.mem_writesOf_of_finish h⟩)
  | rollback =>
    exact .inl (h.imp_right fun ⟨j, h⟩ => ⟨j, Table.mem_writesOf_of_finish h⟩)
  | deleteSessions g ks doomed hdoomed hb =>
    refine .inl (h.imp (fun h => ?_) fun ⟨j, h⟩ => ⟨j, Table.put_mem_writesOf_of_deleteAll h⟩)
    simpa [State.issue] using h
  | insertSession n hb hnew =>
    rcases h with h | ⟨j, h⟩
    · exact .inl (.inl h)
    · rcases Table.mem_writesOf_write h with h | h
      · exact .inl (.inr ⟨j, h⟩)
      · exact .inr ⟨n, rfl, by simpa using h⟩
  | same | now | mint | userConflict | createUser | setQuota | markAsUsed | createGrant | revokeNone | revoke
  | lockGrant | garbageCollect | trackNonce | notifyGrant => exact .inl h

/-- The sessions that call `i` has inserted, in committed transactions and in the open one. -/
def insertedBy (s : State τ) (i : ℕ) : List GrantSessionRow :=
  (s.wal.filter fun e => e.1 = i).flatMap (fun e => inserted e.2) ++ inserted (s.pendingOf i)

theorem insertedBy_issue_self {stmt : Stmt τ} :
    insertedBy (s.issue i stmt) i = insertedBy s i ++ inserted [stmt] := by
  simp [insertedBy, State.issue, State.pendingOf]

theorem insertedBy_autocommit {stmt : Stmt τ} (h : inserted [stmt] = []) :
    insertedBy (s.autocommit i stmt) j = insertedBy s j := by
  by_cases hj : i = j <;> simp [insertedBy, State.autocommit, State.pendingOf, hj, h]

theorem insertedBy_commit_self : insertedBy (s.commit i) i = insertedBy s i := by
  simp [insertedBy, State.commit, State.pendingOf, inserted]

theorem insertedBy_commit_of_ne (h : j ≠ i) : insertedBy (s.commit i) j = insertedBy s j := by
  rw [insertedBy, State.pendingOf_commit_of_ne h]
  simp [insertedBy, State.commit, Ne.symm h]

/-- Nobody inserts sessions in the name of another call. -/
theorem Effect.insertedBy_of_ne (e : Effect C i s o s') (hj : j ≠ i) :
    insertedBy s' j = insertedBy s j := by
  have hissue : ∀ {t : State τ} {stmt : Stmt τ}, t.wal = s.wal → t.pending = s.pending →
      insertedBy (t.issue i stmt) j = insertedBy s j := by
    intro t stmt hw hp
    rw [insertedBy, State.pendingOf_issue_of_ne hj, State.pendingOf, hp, ← State.pendingOf,
      show (t.issue i stmt).wal = s.wal from hw, ← insertedBy]
  cases e with
  | commit => exact insertedBy_commit_of_ne hj
  | rollback =>
    rw [insertedBy, State.pendingOf_rollback_of_ne hj]
    rfl
  | createGrant | trackNonce => exact insertedBy_autocommit rfl
  | createUser | setQuota | markAsUsed | revoke | deleteSessions | insertSession | revokeNone
  | notifyGrant => exact hissue rfl rfl
  | same | now | mint | userConflict | lockGrant | garbageCollect => rfl

/-- The only operation that adds to the sessions a call has inserted. -/
theorem Effect.insertedBy_self (e : Effect C i s o s') :
    (insertedBy s' i).Sublist (insertedBy s i) ∨
      ∃ n, o = .insertSession n ∧ insertedBy s' i = insertedBy s i ++ [n.toRow] := by
  cases e with
  | commit => exact .inl (by rw [insertedBy_commit_self])
  | rollback =>
    refine .inl ?_
    rw [insertedBy, State.pendingOf_rollback_self]
    exact (List.Sublist.refl _).append (List.nil_sublist _)
  | createGrant | trackNonce =>
    refine .inl ?_
    rw [insertedBy_autocommit rfl]
    exact List.Sublist.refl _
  | insertSession n => exact .inr ⟨n, rfl, insertedBy_issue_self⟩
  | createUser | setQuota | markAsUsed | revoke | deleteSessions | revokeNone | notifyGrant =>
    refine .inl ?_
    rw [insertedBy_issue_self]
    exact (List.append_nil _).symm ▸ List.Sublist.refl _
  | same | now | mint | userConflict | lockGrant | garbageCollect => exact .inl (List.Sublist.refl _)

theorem Effect.insertedBy_eq_nil (e : Effect C i s o s') (h : insertedBy s i = [])
    (ho : ∀ n, o ≠ .insertSession n) : insertedBy s' i = [] := by
  rcases e.insertedBy_self with hsub | ⟨n, hn, -⟩
  · exact List.eq_nil_of_sublist_nil (h ▸ hsub)
  · exact absurd hn (ho n)

/-- Call `i` drew the bearer of the session. -/
def Drawn (C : Crates) (s : State τ) (i : ℕ) (row : GrantSessionRow) : Prop :=
  ∃ b : SessionBearer, (i, b) ∈ s.minted ∧ row.tokenHash = b.hash C

theorem Drawn.mono {row : GrantSessionRow} (h : Drawn C s i row) (hs : Grows s s') :
    Drawn C s' i row := by
  obtain ⟨b, hb, hrow⟩ := h
  exact ⟨b, hs.minted.subset hb, hrow⟩

/-- Call `i` drew the bearer that it returns, and the session of the bearer was committed. -/
def Returned (C : Crates) (s : State τ) (i : ℕ) (resp : GrantSessionResponse) : Prop :=
  ∃ b : SessionBearer, (i, b) ∈ s.minted ∧ resp.token = b.asStr ∧
    b.hash C ∈ issued s.wal resp.session.grantId.asStr

theorem Returned.mono {resp : GrantSessionResponse} (h : Returned C s i resp) (hs : Grows s s') :
    Returned C s' i resp := by
  obtain ⟨b, hb, htok, hiss⟩ := h
  exact ⟨b, hs.minted.subset hb, htok, (issued_mono hs.wal _).subset hiss⟩

/-! ## What the other calls may do -/

/-- What call `i` may count on when anyone else moves. -/
structure Rely (i : ℕ) (w w' : Wld τ) : Prop where
  grows : Grows w.state w'.state
  hist : w.hist <:+ w'.hist
  tx : w'.state.tx i = w.state.tx i
  locks : ∀ {g}, (i, g) ∈ w.state.grants.locks → (i, g) ∈ w'.state.grants.locks
  sessions : ∀ {r : GrantSessionRow}, (i, r.grantId) ∈ w.state.grants.locks →
    (r ∈ w'.state.sessions.rows ↔ r ∈ w.state.sessions.rows)
  inserted : insertedBy w'.state i = insertedBy w.state i

theorem Rely.refl (i : ℕ) (w : Wld τ) : Rely i w w :=
  ⟨.refl _, List.suffix_rfl, rfl, id, fun _ => Iff.rfl, rfl⟩

theorem Rely.trans (h : Rely i w w') (h' : Rely i w' w'') : Rely i w w'' where
  grows := h.grows.trans h'.grows
  hist := h.hist.trans h'.hist
  tx := h'.tx.trans h.tx
  locks := fun hl => h'.locks (h.locks hl)
  sessions := fun hl => (h'.sessions (h.locks hl)).trans (h.sessions hl)
  inserted := h'.inserted.trans h.inserted

/-- An event only extends the history. -/
theorem Rely.log (i : ℕ) (w : Wld τ) (e : Event Call (Out τ)) : Rely i w (w.log e) :=
  { Rely.refl i w with hist := List.suffix_cons _ _ }

section Floor

variable [FloorRing τ]

/-! ## The invariant -/

/-- Call `j` of `create_grant_session` presented the grant `g` and the proof `p` and verified
them. -/
structure Exchange (C : Crates) (svc : GrantAuthService) (w : Wld τ) (j : ℕ) (g p : JwsCompact)
    (claims : GrantClaims) (pop : PopProofClaims) : Prop where
  call : .call j (.createGrantSession g p) ∈ w.hist
  grant : verifyGrantForRevocation C g = .ok claims
  unexpired : ∃ t, (j, t) ∈ w.state.readings ∧ checkExpiry claims t.timestampU64 = .ok ()
  pop : PopProof.verifyClaims C p (popContext C svc claims) = .ok pop

theorem Exchange.mono {g p : JwsCompact} {claims : GrantClaims} {pop : PopProofClaims}
    (h : Exchange C svc w j g p claims pop) (hs : Grows w.state w'.state)
    (hh : w.hist <:+ w'.hist) : Exchange C svc w' j g p claims pop := by
  obtain ⟨t, ht, he⟩ := h.unexpired
  exact { h with
    call := hh.subset h.call
    unexpired := ⟨t, hs.readings.subset ht, he⟩ }

/-- The session `row` was inserted for such an exchange, under the bearer `b` that it drew. -/
structure Origin (C : Crates) (svc : GrantAuthService) (w : Wld τ) (row : GrantSessionRow) (j : ℕ)
    (g p : JwsCompact) (claims : GrantClaims) (pop : PopProofClaims) (b : SessionBearer) :
    Prop where
  exchange : Exchange C svc w j g p claims pop
  minted : (j, b) ∈ w.state.minted
  tokenHash : row.tokenHash = b.hash C
  grantId : row.grantId = claims.jti.asStr
  expiresAt : ∃ t ≤ claims.exp, row.expiresAt = t.toInt64
  stored : Stored C w.state claims

theorem Origin.mono {row : GrantSessionRow} {g p : JwsCompact} {claims : GrantClaims}
    {pop : PopProofClaims} {b : SessionBearer} (h : Origin C svc w row j g p claims pop b)
    (hs : Grows w.state w'.state) (hh : w.hist <:+ w'.hist) :
    Origin C svc w' row j g p claims pop b :=
  { h with
    exchange := h.exchange.mono hs hh
    minted := hs.minted.subset h.minted
    stored := h.stored.mono hs }

/-- The session row comes from some exchange. -/
def HasOrigin (C : Crates) (svc : GrantAuthService) (w : Wld τ) (row : GrantSessionRow) : Prop :=
  ∃ j g p claims pop b, Origin C svc w row j g p claims pop b

theorem HasOrigin.mono {row : GrantSessionRow} (h : HasOrigin C svc w row)
    (hs : Grows w.state w'.state) (hh : w.hist <:+ w'.hist) : HasOrigin C svc w' row := by
  obtain ⟨j, g, p, claims, pop, b, h⟩ := h
  exact ⟨j, g, p, claims, pop, b, h.mono hs hh⟩

structure Inv (C : Crates) (svc : GrantAuthService) (w : Wld τ) : Prop where
  idle : ∀ i, ¬ w.Started i → Idle w.state i ∧ insertedBy w.state i = []
  users : UsersOk w.state.users
  grants : GrantsOk w.state
  sessions : SessionsOk w.state
  origin : ∀ row, Live w.state row → HasOrigin C svc w row
  returned : ∀ i resp, .ret i (.created (.ok resp)) ∈ w.hist → Returned C w.state i resp
  once : ∀ i, (insertedBy w.state i).length ≤ 1
  drawn : ∀ i, ∀ row ∈ insertedBy w.state i, Drawn C w.state i row

/-- What call `i` has to establish before it issues an operation. -/
def Pre (C : Crates) (svc : GrantAuthService) (i : ℕ) : Op τ → Wld τ → Prop
  | .createUser _, w => w.state.users.writesOf i = []
  | .revoke id _, w => RevokePre w.state i id
  | .deleteSessions g _, w => DeletePre w.state i g.asStr
  | .insertSession n, w => InsertPre w.state i n.grantId.asStr ∧ insertedBy w.state i = [] ∧
      ∃ g p claims pop b, Origin C svc w n.toRow i g p claims pop b
  | _, _ => True

/-- What call `i` has to establish before it returns. -/
def Post (C : Crates) (i : ℕ) : Out τ → Wld τ → Prop
  | .created (.ok resp), w => Returned C w.state i resp
  | _, _ => True

theorem Inv.effect (h : Inv C svc w) (hi : w.Started i) (hpre : Pre C svc i o w)
    (e : Effect C i w.state o s') : Inv C svc (w.setState s') where
  idle := by
    intro j hj
    have hne : j ≠ i := fun heq => hj (heq ▸ hi)
    obtain ⟨hidle, hins⟩ := h.idle j hj
    exact ⟨hidle.congr (e.tx_eq hne), (e.insertedBy_of_ne hne).trans hins⟩
  users := h.users.effect e (by rintro k rfl; exact hpre)
  grants := h.grants.effect e (by rintro id now rfl; exact hpre)
  sessions := h.sessions.effect h.grants e (by rintro g ks rfl; exact hpre)
    (by rintro n rfl; exact hpre.1)
  origin := by
    intro row hrow
    have hgrows := e.grows h.users h.grants
    rcases e.live hrow with hlive | ⟨n, rfl, rfl⟩
    · exact (h.origin row hlive).mono hgrows List.suffix_rfl
    · exact HasOrigin.mono ⟨i, hpre.2.2⟩ hgrows List.suffix_rfl
  returned := fun j resp hr => (h.returned j resp hr).mono (e.grows h.users h.grants)
  once := by
    intro j
    by_cases hj : j = i
    · subst hj
      rcases e.insertedBy_self with hsub | ⟨n, rfl, hins⟩
      · exact hsub.length_le.trans (h.once j)
      · rw [World.setState_state, hins, hpre.2.1]
        exact le_rfl
    · rw [World.setState_state, e.insertedBy_of_ne hj]
      exact h.once j
  drawn := by
    intro j row hrow
    have hgrows := e.grows h.users h.grants
    by_cases hj : j = i
    · subst hj
      rcases e.insertedBy_self with hsub | ⟨n, rfl, hins⟩
      · exact (h.drawn j row (hsub.subset hrow)).mono hgrows
      · rw [World.setState_state, hins, hpre.2.1, List.nil_append, List.mem_singleton] at hrow
        obtain ⟨g, p, claims, pop, b, horigin⟩ := hpre.2.2
        exact Drawn.mono ⟨b, horigin.minted, hrow ▸ horigin.tokenHash⟩ hgrows
    · rw [World.setState_state, e.insertedBy_of_ne hj] at hrow
      exact (h.drawn j row hrow).mono hgrows

theorem Inv.rely (h : Inv C svc w) (e : Effect C i w.state o s') (hj : j ≠ i) :
    Rely j w (w.setState s') where
  grows := e.grows h.users h.grants
  hist := List.suffix_rfl
  tx := e.tx_eq hj
  locks := e.mem_locks hj
  sessions := h.sessions.mem_rows_of_locked h.grants e hj
  inserted := e.insertedBy_of_ne hj

theorem Inv.call (h : Inv C svc w) (c : Call) : Inv C svc (w.log (.call i c)) where
  idle := fun j hj => h.idle j fun hs => hj (World.started_log_call.2 (.inr hs))
  users := h.users
  grants := h.grants
  sessions := h.sessions
  origin := fun row hrow => (h.origin row hrow).mono (.refl _) (List.suffix_cons _ _)
  returned := fun j resp hr => h.returned j resp (by simpa using hr)
  once := h.once
  drawn := h.drawn

theorem Inv.ret (h : Inv C svc w) {a : Out τ} (hpost : Post C i a w) :
    Inv C svc (w.log (.ret i a)) where
  idle := fun j hj => h.idle j fun hs => hj (World.started_log_ret.2 hs)
  users := h.users
  grants := h.grants
  sessions := h.sessions
  origin := fun row hrow => (h.origin row hrow).mono (.refl _) (List.suffix_cons _ _)
  returned := by
    intro j resp hr
    rcases List.mem_cons.1 hr with heq | hr
    · obtain ⟨rfl, rfl⟩ := Event.ret.inj heq
      exact hpost
    · exact h.returned j resp hr
  once := h.once
  drawn := h.drawn

/-- Steps of the environment touch neither grants nor sessions. -/
theorem Inv.env {e : Env τ} (h : Inv C svc w) (he : env e w.state = some s') :
    Inv C svc (w.setState s') ∧ ∀ j, Rely j w (w.setState s') := by
  have hkey : s'.users = w.state.users ∧ s'.grants = w.state.grants ∧
      s'.sessions = w.state.sessions ∧ s'.wal = w.state.wal ∧ s'.minted = w.state.minted ∧
      s'.readings = w.state.readings ∧ w.state.clock.secs ≤ s'.clock.secs := by
    rcases env_cases he with ⟨t, hle, rfl⟩ | ⟨row, -, -, rfl⟩
    · exact ⟨rfl, rfl, rfl, rfl, rfl, rfl, hle⟩
    · exact ⟨rfl, rfl, rfl, rfl, rfl, rfl, le_rfl⟩
  obtain ⟨hu, hg, hs, hw, hm, hr, hclock⟩ := hkey
  have hgrows : Grows w.state s' :=
    { clock := hclock, wal := hw ▸ List.prefix_rfl, minted := hm ▸ List.prefix_rfl
      readings := hr ▸ List.prefix_rfl, users := hu ▸ List.prefix_rfl
      grants := fun r hr => ⟨r, hg ▸ hr, .refl r⟩ }
  have htx : ∀ j, s'.tx j = w.state.tx j := fun j => env_tx_eq he
  have hpend : ∀ j, s'.pendingOf j = w.state.pendingOf j := fun j => congrArg Tx.stmts (htx j)
  have hins : ∀ j, insertedBy s' j = insertedBy w.state j := fun j => by
    rw [insertedBy, insertedBy, hpend, hw]
  refine ⟨⟨fun j hj => ?_, ?_, ?_, ?_, fun row hrow => ?_,
    fun j resp hret => (h.returned j resp hret).mono hgrows, fun j => ?_, fun j row hrow => ?_⟩,
    fun j => ⟨hgrows, List.suffix_rfl, htx j, fun hl => by simpa [hg] using hl,
      fun _ => by simp [hs], hins j⟩⟩
  · obtain ⟨hidle, hnone⟩ := h.idle j hj
    exact ⟨hidle.congr (htx j), (hins j).trans hnone⟩
  · simpa [hu] using h.users
  · exact h.grants.congr hg (fun j g hj => hpend j ▸ hj) fun e he _ _ => hw ▸ he
  · exact h.sessions.congr hs (fun j => congrArg _ (hpend j)) (fun l hl => by simpa [hg] using hl)
      fun g => by simp [hw]
  · exact (h.origin row (by simpa [Live, hs] using hrow)).mono hgrows List.suffix_rfl
  · exact (hins j).symm ▸ h.once j
  · exact (h.drawn j row (hins j ▸ hrow)).mono hgrows

/-! ## The logic -/

variable (τ C svc) in
/-- The logic of the grant service, for any interleaving. -/
def grantLogic : Logic (machine τ C svc) fun _ _ => True where
  Inv := Inv C svc
  Rely := Rely
  Pre := Pre C svc
  Post := Post C
  rely_refl := Rely.refl
  rely_trans := Rely.trans
  op_ok := fun h hi hpre _ hx =>
    ⟨h.effect hi hpre (exec_effect hx), fun _ hj => h.rely (exec_effect hx) hj⟩
  call_ok := fun h _ _ => ⟨h.call _, fun j _ => .log j _ _⟩
  ret_ok := fun h _ hpost _ => ⟨h.ret hpost, fun j _ => .log j _ _⟩
  drop_ok := fun {w i} h hi _ =>
    have e : Effect C i w.state (.rollback : Op τ) (w.state.rollback i) := .rollback _ (.inr rfl)
    ⟨h.effect (o := .rollback) hi trivial e, fun _ hj => h.rely e hj⟩
  env_ok := fun h _ he => h.env he

end Floor

end Pubky.Homeserver.Grant

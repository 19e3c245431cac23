import Pubky.Homeserver.Grant.Sample

/-!
# What bearers stand for

The guarantees of the grant service about bearers, over every run of any number of interleaved
calls:

* a revoked grant is never resolved again,
* a grant has at most one live bearer, the last one that was issued,
* the authority of a bearer comes from a grant that its user has signed,
* the terms of a stored grant never change.
-/

namespace Pubky.Homeserver.Grant

open Sql Conc Conc.Logic

variable {τ : Type} [Field τ] [LinearOrder τ] [FloorRing τ] {C : Crates} {svc : GrantAuthService}
  {i j : ℕ} {s : State τ} {w w₀ w₁ w₂ : Wld τ} {b : SessionBearer} {session : GrantSession}
  {p p₁ p₂ : Pool (State τ) (Op τ) Call (Out τ) (Op.Res τ)}

/-! ## Calls that resolve a bearer -/

/-- What a call that was started after `p₁` has seen if it resolved its bearer. -/
theorem resolved_spec (hp : Reachable C svc p₁) (hrun : Runs C svc p₁ p₂)
    (hi : ¬ p₁.world.Started i)
    (hcall : .call i (.resolveGrantSessionByBearer b) ∈ p₂.world.hist)
    (hret : .ret i (.resolved (.ok session)) ∈ p₂.world.hist) :
    ∃ w₀ w₁ w₂ w row r e, Grows p₁.world.state w₀.state ∧
      Resolution C svc i b session w₀ w₁ w₂ w row r e ∧
      Grows w.state p₂.world.state ∧ w.hist <:+ p₂.world.hist := by
  have hp₂ := steps_safe grantLogic_callSafe hp.poolSafe hrun
  have hsafe : ∀ w c, Inv C svc w → Rely i p₁.world w → ¬ w.Started i → True →
      (grantLogic τ C svc).Safe i (callProgram τ C svc c) (fun a w =>
        ∀ b session, c = .resolveGrantSessionByBearer b → a = .resolved (.ok session) →
        ∃ w₀ w₁ w₂ row r e, Grows p₁.world.state w₀.state ∧
          Resolution C svc i b session w₀ w₁ w₂ w row r e) (w.log (.call i c)) := by
    intro w c hinv hr hs hal
    by_cases hres : ∃ b', c = .resolveGrantSessionByBearer b'
    · obtain ⟨b', rfl⟩ := hres
      refine safe_answer (resolveGrantSessionByBearer_safe b' (at_log hinv hs)) ?_ ?_
      · intro session' w' _ ⟨w₁, w₂, row, r, e, h⟩ b'' session'' hb hsession
        cases hb
        cases hsession
        exact ⟨w.log _, w₁, w₂, row, r, e, hr.grows, h⟩
      · intro e w' b'' session'' _ hsession
        cases hsession
    · refine (grantLogic_callSafe w i c hinv hs hal).mono fun a w' _ _ b' session' hb => ?_
      exact absurd ⟨b', hb⟩ hres
  obtain ⟨c, w, hc, -, hq, hsuf, hrely⟩ :=
    ret_spec grantLogic_callSafe hp.poolSafe hrun hi hsafe hret
  obtain rfl := hp₂.unique i _ _ hc hcall
  obtain ⟨w₀, w₁, w₂, row, r, e, hgrows, hres⟩ := hq b session rfl rfl
  obtain ⟨j, hj⟩ := World.exists_not_started p₂.world
  exact ⟨w₀, w₁, w₂, w, row, r, e, hgrows, hres, (hrely j hj).grows, hsuf⟩

/-! ## Revocation -/

/-- Revocation is final: once the transaction of a `revoke_grant` has committed, no call that
starts later resolves a bearer to a session of the grant. -/
theorem revocation_final {id : GrantId} {stmts : List (Stmt τ)} (hp : Reachable C svc p₁)
    (hcommit : (j, stmts) ∈ p₁.world.state.wal) (hrevoke : .revoke id.asStr ∈ stmts)
    (hrun : Runs C svc p₁ p₂) (hi : ¬ p₁.world.Started i)
    (hcall : .call i (.resolveGrantSessionByBearer b) ∈ p₂.world.hist)
    (hret : .ret i (.resolved (.ok session)) ∈ p₂.world.hist) : session.grantId ≠ id := by
  rintro rfl
  obtain ⟨w₀, w₁, w₂, w, row, r, e, hgrows, hres, -, -⟩ := resolved_spec hp hrun hi hcall hret
  obtain ⟨r₁, hr₁, hid₁, hsome⟩ := hp.poolSafe.inv.grants.wal _ hcommit _ hrevoke
  obtain ⟨r₂, hr₂, hb⟩ := (hgrows.trans (hres.at₁.grows.trans hres.at₂.grows)).grants r₁ hr₁
  -- the grant that the call read is a later version of the revoked row
  have hid : r.id = r₂.id := by rw [hres.grant_id, hb.id_eq, hid₁]
  obtain rfl := hres.inv₂.grants.unique.eq_of_key_eq hres.grant_mem hr₂ hid
  have hnone : r.revokedAt = none := (GrantRow.revokedAt_of_decode hres.decode).symm.trans hres.active
  simpa [hnone] using hb.revoked hsome

open Sample in
/-- Alice signs out of one of two grants; the bearer of the other one still resolves. -/
theorem revocation_final_sample :
    ∃ p₁ p₂ : Pool (State ℚ) (Op ℚ) Call (Out ℚ) (Op.Res ℚ), ∃ j stmts,
      Reachable crates service p₁ ∧ (j, stmts) ∈ p₁.world.state.wal ∧
      .revoke jtiA.asStr ∈ stmts ∧ Runs crates service p₁ p₂ ∧ ¬ p₁.world.Started 3 ∧
      .call 3 (.resolveGrantSessionByBearer bearer₂) ∈ p₂.world.hist ∧
      .ret 3 (.resolved (.ok (sessionOf jtiB bearer₂))) ∈ p₂.world.hist ∧
      (sessionOf jtiB bearer₂).grantId ≠ jtiA := by
  have hrun : ((morning [aliceRow]).run (machine ℚ crates service) (fun _ _ => True)
      (exchange 0 grantA popA (List.replicate 32 7) ++
        exchange 1 grantB popB (List.replicate 32 8) ++
        .call 2 (.signout bearer₁) :: proceed 2 11)).any fun p₁ =>
      p₁.world.state.wal.any (fun e => .revoke jtiA.asStr ∈ e.2) && !p₁.world.started 3 &&
        (p₁.run (machine ℚ crates service) (fun _ _ => True) (resolve 3 bearer₂)).any fun p₂ =>
          .call 3 (.resolveGrantSessionByBearer bearer₂) ∈ p₂.world.hist &&
          .ret 3 (.resolved (.ok (sessionOf jtiB bearer₂))) ∈ p₂.world.hist := by
    decide +kernel
  obtain ⟨p₁, hp₁, h₁⟩ := Pool.exists_steps_of_run _ _ hrun
  simp only [Bool.and_eq_true, Bool.not_eq_true', ← Bool.not_eq_true, World.started_iff] at h₁
  obtain ⟨⟨hwal, hstart⟩, h₂⟩ := h₁
  obtain ⟨e, he, hrevoke⟩ := List.any_eq_true.1 hwal
  obtain ⟨p₂, hp₂, h₂⟩ := Pool.exists_steps_of_run _ _ h₂
  simp only [Bool.and_eq_true, decide_eq_true_eq] at hrevoke h₂
  have hreach : Reachable crates service p₁ := ⟨_, initial_start _ _, hp₁⟩
  exact ⟨p₁, p₂, e.1, e.2, hreach, he, hrevoke, hp₂, hstart, h₂.1, h₂.2,
    revocation_final hreach he hrevoke hp₂ hstart h₂.1 h₂.2⟩

/-! ## One live bearer per grant -/

/-- The random source and the hash function keep the bearers apart: no two draws have the same
hash. -/
def DistinctBearers (C : Crates) (s : State τ) : Prop :=
  (s.minted.map fun e => e.2.hash C).Nodup

instance : Decidable (DistinctBearers C s) :=
  inferInstanceAs (Decidable (List.Nodup _))

omit [FloorRing τ] in
theorem DistinctBearers.of_grows {s' : State τ} (h : DistinctBearers C s') (hs : Grows s s') :
    DistinctBearers C s :=
  List.Nodup.sublist (hs.minted.sublist.map _) h

omit [FloorRing τ] in
theorem DistinctBearers.eq_of_hash_eq {e e' : ℕ × SessionBearer} (h : DistinctBearers C s)
    (he : e ∈ s.minted) (he' : e' ∈ s.minted) (heq : e.2.hash C = e'.2.hash C) : e = e' :=
  List.inj_on_of_nodup_map h he he' heq

/-- Every call inserts at most one session, under a bearer of its own. -/
theorem Inv.nodup_tokenHash (h : Inv C svc w) (hd : DistinctBearers C w.state) :
    ((allInserted w.state.wal).map GrantSessionRow.tokenHash).Nodup := by
  refine nodup_allInserted (fun i => le_trans ?_ (h.once i)) fun e he e' he' hne r hr r' hr' heq => ?_
  · rw [insertedBy, List.length_append]
    exact Nat.le_add_right _ _
  · have hdrawn : ∀ e ∈ w.state.wal, ∀ row ∈ inserted e.2, Drawn C w.state e.1 row := by
      intro e he row hrow
      refine h.drawn e.1 row (List.mem_append_left _ (List.mem_flatMap.2 ⟨e, ?_, hrow⟩))
      exact List.mem_filter.2 ⟨he, by simp⟩
    obtain ⟨b, hb, hhash⟩ := hdrawn e he r hr
    obtain ⟨b', hb', hhash'⟩ := hdrawn e' he' r' hr'
    have := hd.eq_of_hash_eq hb hb' (hhash.symm.trans (heq.trans hhash'))
    exact hne (Prod.mk.inj this).1

/-- A hash that was issued, but not last, is never the last one again. -/
theorem Inv.getLast?_issued_ne (h : Inv C svc w) (hd : DistinctBearers C w.state)
    {wal : List (ℕ × List (Stmt τ))} (hwal : wal <+: w.state.wal) {g g' : Text}
    {k : SessionTokenHash} (hk : k ∈ issued wal g) (hlast : (issued wal g).getLast? ≠ some k) :
    (issued w.state.wal g').getLast? ≠ some k := by
  intro hlast'
  have hnodup := h.nodup_tokenHash hd
  obtain ⟨row, hrow, hg, hhash⟩ := mem_issued_iff.1 ((issued_mono hwal g).subset hk)
  obtain ⟨row', hrow', hg', hhash'⟩ := mem_issued_iff.1 (List.mem_of_getLast? hlast')
  -- the two grants are the same, because the hash determines the session
  obtain rfl := List.inj_on_of_nodup_map hnodup hrow hrow' (hhash.trans hhash'.symm)
  obtain rfl := hg.symm.trans hg'
  have hnodup' : (issued w.state.wal g).Nodup := by
    rw [issued_eq]
    exact hnodup.sublist (List.filter_sublist.map _)
  obtain ⟨rest, hrest⟩ := issued_mono hwal g
  rw [← hrest] at hlast' hnodup'
  rcases List.eq_nil_or_concat rest with rfl | ⟨init, x, rfl⟩
  · exact hlast (by simpa using hlast')
  · obtain rfl : x = k := by simpa using hlast'
    exact (List.nodup_append.1 hnodup').2.2 x hk x (by simp) rfl

/-- One live bearer per grant. In every reachable state a grant has at most one session, the one
that was committed last, and what resolves later was the last one at some moment since. A bearer
that has been superseded never resolves again; every bearer that an exchange returned was
committed. -/
theorem one_live_bearer (hp : Reachable C svc p₁) (hrun : Runs C svc p₁ p₂)
    (hdistinct : DistinctBearers C p₂.world.state) :
    (p₁.world.state.sessions.rows.map GrantSessionRow.grantId).Nodup ∧
    (∀ row ∈ p₁.world.state.sessions.rows,
      (issued p₁.world.state.wal row.grantId).getLast? = some row.tokenHash) ∧
    (∀ i b session, ¬ p₁.world.Started i →
      .call i (.resolveGrantSessionByBearer b) ∈ p₂.world.hist →
      .ret i (.resolved (.ok session)) ∈ p₂.world.hist →
      ∃ wal, p₁.world.state.wal <+: wal ∧ wal <+: p₂.world.state.wal ∧
        (issued wal session.grantId.asStr).getLast? = some (b.hash C)) ∧
    (∀ i b session g, b.hash C ∈ issued p₁.world.state.wal g →
      (issued p₁.world.state.wal g).getLast? ≠ some (b.hash C) → ¬ p₁.world.Started i →
      .call i (.resolveGrantSessionByBearer b) ∈ p₂.world.hist →
      .ret i (.resolved (.ok session)) ∉ p₂.world.hist) ∧
    (∀ i resp, .ret i (.created (.ok resp)) ∈ p₁.world.hist →
      SessionBearer.hash C ⟨resp.token⟩ ∈
        issued p₁.world.state.wal resp.session.grantId.asStr) := by
  have hinv := hp.poolSafe.inv
  refine ⟨?_, hinv.sessions.last_issued, ?_, ?_, ?_⟩
  · refine List.Nodup.map_on ?_ (List.Nodup.of_map _ hinv.sessions.unique)
    exact fun r hr r' hr' heq => hinv.sessions.one_per_grant r hr r' hr' heq
  · intro i b session hi hcall hret
    obtain ⟨w₀, w₁, w₂, w, row, r, e, hgrows, hres, hgrows', -⟩ := resolved_spec hp hrun hi hcall hret
    refine ⟨w₁.state.wal, (hgrows.trans hres.at₁.grows).wal,
      (hres.at₂.grows.trans (hres.at₃.grows.trans hgrows')).wal, ?_⟩
    rw [← hres.row_grantId, ← hres.tokenHash]
    exact hres.inv₁.sessions.last_issued row hres.row_mem
  · intro i b session g hmem hlast hi hcall hret
    obtain ⟨w₀, w₁, w₂, w, row, r, e, hgrows, hres, hgrows', -⟩ := resolved_spec hp hrun hi hcall hret
    have hd : DistinctBearers C w₁.state :=
      hdistinct.of_grows (hres.at₂.grows.trans (hres.at₃.grows.trans hgrows'))
    have hrow := hres.inv₁.sessions.last_issued row hres.row_mem
    rw [hres.tokenHash] at hrow
    exact hres.inv₁.getLast?_issued_ne hd (hgrows.trans hres.at₁.grows).wal hmem hlast hrow
  · intro i resp hret
    obtain ⟨b, -, htok, hiss⟩ := hinv.returned i resp hret
    rw [htok]
    exact hiss

open Sample in
/-- The second exchange of a grant supersedes the bearer of the first one. -/
theorem one_live_bearer_sample :
    ∃ p₁ p₂ : Pool (State ℚ) (Op ℚ) Call (Out ℚ) (Op.Res ℚ),
      Reachable crates service p₁ ∧ Runs crates service p₁ p₂ ∧
      DistinctBearers crates p₂.world.state ∧
      bearer₁.hash crates ∈ issued p₁.world.state.wal jtiA.asStr ∧
      .call 2 (.resolveGrantSessionByBearer bearer₁) ∈ p₂.world.hist ∧
      ∀ session, .ret 2 (.resolved (.ok session)) ∉ p₂.world.hist := by
  have hrun : ((morning [aliceRow]).run (machine ℚ crates service) (fun _ _ => True)
      (exchange 0 grantA popA (List.replicate 32 7) ++
        exchange 1 grantA popA' (List.replicate 32 8))).any fun p₁ =>
      bearer₁.hash crates ∈ issued p₁.world.state.wal jtiA.asStr &&
        (issued p₁.world.state.wal jtiA.asStr).getLast? ≠ some (bearer₁.hash crates) &&
        !p₁.world.started 2 &&
        (p₁.run (machine ℚ crates service) (fun _ _ => True) (.call 2
          (.resolveGrantSessionByBearer bearer₁) :: proceed 2 2)).any fun p₂ =>
          DistinctBearers crates p₂.world.state &&
          .call 2 (.resolveGrantSessionByBearer bearer₁) ∈ p₂.world.hist := by
    decide +kernel
  obtain ⟨p₁, hp₁, h₁⟩ := Pool.exists_steps_of_run _ _ hrun
  simp only [Bool.and_eq_true, decide_eq_true_eq, Bool.not_eq_true', ← Bool.not_eq_true,
    World.started_iff] at h₁
  obtain ⟨⟨⟨hmem, hlast⟩, hstart⟩, h₂⟩ := h₁
  obtain ⟨p₂, hp₂, h₂⟩ := Pool.exists_steps_of_run _ _ h₂
  simp only [Bool.and_eq_true, decide_eq_true_eq] at h₂
  have hreach : Reachable crates service p₁ := ⟨_, initial_start _ _, hp₁⟩
  obtain ⟨-, -, -, hsuperseded, -⟩ := one_live_bearer hreach hp₂ h₂.1
  exact ⟨p₁, p₂, hreach, hp₂, h₂.1, hmem, h₂.2, fun session =>
    hsuperseded 2 bearer₁ session _ hmem hlast hstart h₂.2⟩

/-! ## Authority -/

/-- A grant that passed verification carries the claims that its issuer has signed. -/
theorem verifyGrantForRevocation_eq_ok {g : JwsCompact} {claims : GrantClaims}
    (hC : C.DecodesPayload) (h : verifyGrantForRevocation C g = .ok claims) :
    GrantClaims.decode C g.asStr = .ok claims ∧
      ∃ bytes, C.jwtDecode g.asStr claims.iss = some bytes := by
  simp only [verifyGrantForRevocation, Except.bind_ok_iff] at h
  obtain ⟨key, hkey, claims', hclaims, -, -, hok⟩ := h
  cases hok
  simp only [verifyGrantSignature] at hclaims
  split at hclaims
  · cases hclaims
  · rename_i bytes hdec
    split at hclaims
    · rename_i c hjson
      obtain rfl := Except.ok.inj hclaims
      have hdecode : GrantClaims.decode C g.asStr = .ok c :=
        decodeJwsPayload_of_verified hC g.three_parts hdec hjson
      refine ⟨hdecode, bytes, ?_⟩
      rw [extractIssuerKey, hdecode] at hkey
      rwa [Except.ok.inj hkey]
    · cases hclaims

/-- A proof of possession that passed verification was signed with the `cnf` key for this
homeserver and the grant. -/
theorem verifyClaims_eq_ok {p : JwsCompact} {claims : GrantClaims} {pop : PopProofClaims}
    (hz32 : Function.Injective C.z32)
    (h : PopProof.verifyClaims C p (popContext C svc claims) = .ok pop) :
    (∃ bytes, C.jwtDecode p.asStr claims.cnf = some bytes ∧ C.popFromJson bytes = .ok pop) ∧
      pop.aud = svc.homeserverPublicKey ∧ pop.gid = claims.jti := by
  refine ⟨verifyClaims_signature h, ?_⟩
  simp only [PopProof.verifyClaims, Except.bind_ok_iff] at h
  obtain ⟨raw, -, _, _, _, haud, _, hgid, hok⟩ := h
  cases hok
  constructor
  · simp only [checkAudience] at haud
    split at haud
    · cases haud
    · rename_i hne
      exact hz32 (Classical.not_not.1 hne)
  · simp only [checkGrantBinding] at hgid
    split at hgid
    · cases hgid
    · rename_i hne
      exact Classical.not_not.1 hne

/-- Bearers are secrets: draws do not collide, and whoever presents a bearer that the server has
drawn got it from the exchange it was returned by. -/
structure SecretBearers (C : Crates) (w : Wld τ) : Prop where
  distinct : DistinctBearers C w.state
  unguessed : ∀ i b, .call i (.resolveGrantSessionByBearer b) ∈ w.hist →
    (∃ e ∈ w.state.minted, e.2.hash C = b.hash C) →
    ∃ k resp, .ret k (.created (.ok resp)) ∈ w.hist ∧ resp.token = b.asStr

omit [Field τ] [LinearOrder τ] [FloorRing τ] in
theorem matchesClaims_iff {e : GrantEntity τ} {claims : GrantClaims}
    (h : e.matchesClaims C claims = true) :
    e.userPubkey = claims.iss ∧ e.capabilities = ⟨claims.caps⟩ := by
  simp only [GrantEntity.matchesClaims, Bool.and_eq_true, decide_eq_true_eq] at h
  exact ⟨h.1.1.1.1.1, h.1.1.2⟩

/-- The session that a bearer resolves to is the one that its exchange was entitled to. -/
theorem Resolution.eq_claims {row : GrantSessionRow} {r : GrantRow τ} {e : GrantEntity τ}
    (h : Resolution C svc i b session w₀ w₁ w₂ w row r e) {g p : JwsCompact}
    {claims : GrantClaims} {pop : PopProofClaims} {b' : SessionBearer}
    (horigin : Origin C svc w₁ row j g p claims pop b') :
    session.grantId = claims.jti ∧ session.userKey = claims.iss ∧
      session.capabilities.toVec = claims.caps ∧ session.tokenExpiresAt ≤ claims.exp := by
  have hid : session.grantId = claims.jti :=
    RandomId.asStr_injective (h.row_grantId.symm.trans horigin.grantId)
  obtain ⟨r', hr', hid', e', hdec', hmatch⟩ := horigin.stored.mono h.at₂.grows
  obtain rfl : r = r' :=
    h.inv₂.grants.unique.eq_of_key_eq h.grant_mem hr' (by simp [h.grant_id, hid', hid])
  obtain rfl := Except.ok.inj (h.decode.symm.trans hdec')
  obtain ⟨hiss, hcaps⟩ := matchesClaims_iff hmatch
  obtain ⟨t, hle, ht⟩ := horigin.expiresAt
  refine ⟨hid, h.userKey.trans hiss, by rw [h.capabilities, hcaps], ?_⟩
  rw [h.expiresAt, ht]
  exact hle

/-- Bearer authority comes from a signature. A bearer that resolves to a session was returned by
an exchange that presented a grant and a proof of possession: the grant was signed by the user of
the session, was unexpired, names the session's grant id and capabilities, and bounds its expiry;
the proof was signed with the grant's `cnf` key for this homeserver and this grant. -/
theorem bearer_authority (Signed : PublicKey → Text → Prop)
    (hunforgeable : ∀ m k bytes, C.jwtDecode m k = some bytes → Signed k m)
    (hpayload : C.DecodesPayload) (hz32 : Function.Injective C.z32)
    (hp : Reachable C svc p) (hsecret : SecretBearers C p.world)
    (hcall : .call i (.resolveGrantSessionByBearer b) ∈ p.world.hist)
    (hret : .ret i (.resolved (.ok session)) ∈ p.world.hist) :
    ∃ j grantJws popJws resp claims pop bytes,
      .call j (.createGrantSession grantJws popJws) ∈ p.world.hist ∧
      .ret j (.created (.ok resp)) ∈ p.world.hist ∧ resp.token = b.asStr ∧
      GrantClaims.decode C grantJws.asStr = .ok claims ∧ claims.jti = session.grantId ∧
      Signed session.userKey grantJws.asStr ∧
      (∃ t, (j, t) ∈ p.world.state.readings ∧ t.timestampU64 < claims.exp) ∧
      claims.caps = session.capabilities.toVec ∧ session.tokenExpiresAt ≤ claims.exp ∧
      Signed claims.cnf popJws.asStr ∧ C.jwtDecode popJws.asStr claims.cnf = some bytes ∧
      C.popFromJson bytes = .ok pop ∧ pop.aud = svc.homeserverPublicKey ∧
      pop.gid = session.grantId := by
  obtain ⟨p₀, hp₀, hrun⟩ := hp
  have hstart : ¬ p₀.world.Started i := by simp [World.Started, hp₀.hist]
  obtain ⟨w₀, w₁, w₂, w, row, r, e, -, hres, hgrows, hhist⟩ :=
    resolved_spec ⟨p₀, hp₀, .refl⟩ hrun hstart hcall hret
  obtain ⟨j, g, q, claims, pop, b', horigin⟩ := hres.inv₁.origin row (.inl hres.row_mem)
  obtain ⟨hid, huser, hcaps, hexp⟩ := hres.eq_claims horigin
  have hgrows₁ : Grows w₁.state p.world.state := hres.at₂.grows.trans (hres.at₃.grows.trans hgrows)
  have hhist₁ : w₁.hist <:+ p.world.hist := hres.at₂.hist.trans (hres.at₃.hist.trans hhist)
  -- the call that drew the bearer is the one that returned it
  have hminted : (j, b') ∈ p.world.state.minted := hgrows₁.minted.subset horigin.minted
  have hhash : b'.hash C = b.hash C := horigin.tokenHash.symm.trans hres.tokenHash
  obtain ⟨k, resp, hresp, htok⟩ := hsecret.unguessed i b hcall ⟨_, hminted, hhash⟩
  have hinv := (Reachable.poolSafe ⟨p₀, hp₀, hrun⟩ : (grantLogic τ C svc).PoolSafe p).inv
  obtain ⟨b'', hb'', htok'', -⟩ := hinv.returned k resp hresp
  have hb : b'' = b := by
    cases b''
    cases b
    simpa using htok''.symm.trans htok
  obtain ⟨rfl, -⟩ := Prod.mk.inj
    (hsecret.distinct.eq_of_hash_eq hb'' hminted (by rw [hb, hhash]))
  have hex := horigin.exchange
  obtain ⟨hdecode, bytes, hjwt⟩ := verifyGrantForRevocation_eq_ok hpayload hex.grant
  obtain ⟨⟨popBytes, hpopjwt, hpopjson⟩, haud, hgid⟩ := verifyClaims_eq_ok hz32 hex.pop
  obtain ⟨t, ht, hfresh⟩ := hex.unexpired
  refine ⟨k, g, q, resp, claims, pop, popBytes, hhist₁.subset hex.call, hresp, htok, hdecode, hid.symm,
    huser ▸ hunforgeable _ _ _ hjwt, ⟨t, hgrows₁.readings.subset ht, ?_⟩, hcaps.symm, hexp,
    hunforgeable _ _ _ hpopjwt, hpopjwt, hpopjson, haud, hgid.trans hid.symm⟩
  simp only [checkExpiry] at hfresh
  split at hfresh
  · cases hfresh
  · rename_i hnot
    exact UInt64.not_le.1 hnot

/-- Every bearer that was presented had been returned. -/
def presentedReturned (hist : List (Event Call (Out ℚ))) : Bool :=
  hist.all fun
    | .call _ (.resolveGrantSessionByBearer b) => hist.any fun
      | .ret _ (.created (.ok resp)) => resp.token = b.asStr
      | _ => false
    | _ => true

open Sample in
/-- The bearer that the client got for alice's grant. -/
theorem bearer_authority_sample :
    ∃ p : Pool (State ℚ) (Op ℚ) Call (Out ℚ) (Op.Res ℚ),
      Reachable crates service p ∧ SecretBearers crates p.world ∧
      .call 1 (.resolveGrantSessionByBearer bearer₁) ∈ p.world.hist ∧
      .ret 1 (.resolved (.ok (sessionOf jtiA bearer₁))) ∈ p.world.hist ∧
      ∃ j grantJws popJws, .call j (.createGrantSession grantJws popJws) ∈ p.world.hist ∧
        ∃ t ∈ signedTokens, t.key = alice ∧ t.compact = grantJws.asStr := by
  have hrun : ((morning [aliceRow]).run (machine ℚ crates service) (fun _ _ => True)
      (exchange 0 grantA popA (List.replicate 32 7) ++ resolve 1 bearer₁)).any fun p =>
      DistinctBearers crates p.world.state &&
        presentedReturned p.world.hist &&
        .call 1 (.resolveGrantSessionByBearer bearer₁) ∈ p.world.hist &&
        .ret 1 (.resolved (.ok (sessionOf jtiA bearer₁))) ∈ p.world.hist := by
    decide +kernel
  obtain ⟨p, hp, h⟩ := Pool.exists_steps_of_run _ _ hrun
  simp only [Bool.and_eq_true, decide_eq_true_eq] at h
  obtain ⟨⟨⟨hdistinct, hreturned⟩, hcall⟩, hret⟩ := h
  have hreach : Reachable crates service p := ⟨_, initial_start _ _, hp⟩
  have hsecret : SecretBearers crates p.world := by
    refine ⟨hdistinct, fun i b hb _ => ?_⟩
    obtain ⟨e, he, htok⟩ := List.any_eq_true.1 (List.all_eq_true.1 hreturned _ hb)
    split at htok
    · exact ⟨_, _, he, by simpa using htok⟩
    · cases htok
  obtain ⟨j, g, q, _, _, _, _, hcreate, _, _, _, _, hsigned, _⟩ := bearer_authority
    (fun k m => ∃ t ∈ signedTokens, t.key = k ∧ t.compact = m)
    (fun m k bytes h => by
      obtain ⟨t, ht, hk, hm, -⟩ := Crates.ofTokens_jwtDecode h
      exact ⟨t, ht, hk, hm⟩)
    Crates.ofTokens_decodesPayload PublicKey.z32_injective
    hreach hsecret hcall hret
  exact ⟨p, hreach, hsecret, hcall, hret, j, g, q, hcreate, hsigned⟩

/-! ## The terms of a grant -/

/-- Users and grants are never removed. A grant is stored with the same terms in all later states,
revoked forever once it is revoked, and no other grant takes its id. -/
theorem grants_keep_their_terms (hp : Reachable C svc p₁) (hrun : Runs C svc p₁ p₂) :
    p₁.world.state.users.rows <+: p₂.world.state.users.rows ∧
    ∀ r ∈ p₁.world.state.grants.rows, ∃ r' ∈ p₂.world.state.grants.rows, r.Becomes r' ∧
      ∀ r'' ∈ p₂.world.state.grants.rows, r''.id = r.id → r'' = r' := by
  have hgrows : Grows p₁.world.state p₂.world.state :=
    steps_related (R := fun w w' => Grows w.state w'.state) grantLogic_callSafe
      (fun _ => Grows.refl _) Grows.trans (fun hr => hr.grows) hp.poolSafe hrun
  have hinv := (steps_safe grantLogic_callSafe hp.poolSafe hrun).inv
  refine ⟨hgrows.users, fun r hr => ?_⟩
  obtain ⟨r', hr', hb⟩ := hgrows.grants r hr
  refine ⟨r', hr', hb, fun r'' hr'' hid => ?_⟩
  exact hinv.grants.unique.eq_of_key_eq hr'' hr' (hid.trans hb.id_eq.symm)

open Sample in
/-- Alice signs out of a grant. -/
theorem grants_keep_their_terms_sample :
    ∃ p₁ p₂ : Pool (State ℚ) (Op ℚ) Call (Out ℚ) (Op.Res ℚ), ∃ r ∈ p₁.world.state.grants.rows,
      ∃ r' ∈ p₂.world.state.grants.rows, r.Becomes r' ∧ r.revokedAt = none ∧ r'.revokedAt.isSome := by
  have hrun : ((morning [aliceRow]).run (machine ℚ crates service) (fun _ _ => True)
      (exchange 0 grantA popA (List.replicate 32 7))).any fun p₁ =>
      (p₁.world.state.grants.rows.any fun r => r.revokedAt = none) &&
        (p₁.run (machine ℚ crates service) (fun _ _ => True)
          (.call 1 (.signout bearer₁) :: proceed 1 11)).any fun p₂ =>
          p₂.world.state.grants.rows.all fun r => r.revokedAt.isSome := by
    decide +kernel
  obtain ⟨p₁, hp₁, h₁⟩ := Pool.exists_steps_of_run _ _ hrun
  simp only [Bool.and_eq_true, List.any_eq_true, decide_eq_true_eq] at h₁
  obtain ⟨⟨r, hr, hnone⟩, h₂⟩ := h₁
  obtain ⟨p₂, hp₂, h₂⟩ := Pool.exists_steps_of_run _ _ h₂
  obtain ⟨r', hr', hb, -⟩ := (grants_keep_their_terms ⟨_, initial_start _ _, hp₁⟩ hp₂).2 r hr
  exact ⟨p₁, p₂, r, hr, r', hr', hb, hnone, List.all_eq_true.1 h₂ r' hr'⟩

end Pubky.Homeserver.Grant

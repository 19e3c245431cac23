import Pubky.Homeserver.Grant.Sample

/-!
# Signup grants

A grant of the client `pubky.signup` is meant to prove the creation of an account and nothing
else: it is not to be stored, and no bearer is to be issued for it. Only `signup_grant_account`
looks at the client of a grant, so `create_grant_session` accepts a signup grant once the account
exists. `signup_grant_not_session` shows that nothing else goes wrong.
-/

namespace Pubky.Homeserver.Grant

open Sql Conc Conc.Logic

variable {τ : Type} [Field τ] [LinearOrder τ] {C : Crates} {svc : GrantAuthService} {i j : ℕ}
  {s s' : State τ} {o : Op τ} {w w' : Wld τ} {g p : JwsCompact} {claims : GrantClaims}

/-! ## The condition -/

/-- The grant is one for signup. -/
def isSignup (claims : GrantClaims) : Bool :=
  claims.clientId.asStr = signupClientId

/-- The call and its grant, if an event starts an exchange. -/
def exchanged : Event Call (Out τ) → Option (ℕ × JwsCompact)
  | .call i (.createGrantSession g _) => some (i, g)
  | _ => none

/-- If call `i` exchanges a signup grant, then `key` has no account among `users`. -/
def NoAccount (C : Crates) (users : List UserRow) (key : PublicKey) (i : ℕ)
    (e : Event Call (Out τ)) : Prop :=
  ∀ x ∈ exchanged e, x.1 = i → ∀ claims ∈ (verifyGrantForRevocation C x.2).toOption,
    isSignup claims = true → ∀ r ∈ users, r.publicKey ≠ C.z32 key

instance (users : List UserRow) (key : PublicKey) (i : ℕ) (e : Event Call (Out τ)) :
    Decidable (NoAccount C users key i e) :=
  inferInstanceAs (Decidable (∀ x ∈ exchanged e, _))

/-- The call that looks for a user in a step, and the key it looks for. -/
def userLookup : Label (Op τ) Choice (Env τ) Call (Out τ) → Option (ℕ × PublicKey)
  | .op i (.getUser key) _ => some (i, key)
  | _ => none

/-- The condition on the steps of a run: when an exchange of a signup grant looks for its user, the
user has no account. -/
def SignsUpFirst (C : Crates) (w : Wld τ) (l : Label (Op τ) Choice (Env τ) Call (Out τ)) : Prop :=
  ∀ k ∈ userLookup l, ∀ e ∈ w.hist, NoAccount C (w.state.users.view k.1) k.2 k.1 e

instance (w : Wld τ) (l : Label (Op τ) Choice (Env τ) Call (Out τ)) :
    Decidable (SignsUpFirst C w l) :=
  inferInstanceAs (Decidable (∀ k ∈ userLookup l, _))

/-! ## The invariant -/

/-- No grant of a table is one for signup, not even in an open transaction. -/
structure NoSignup (t : Table (GrantRow τ) Text) : Prop where
  rows : ∀ r ∈ t.rows, r.clientId ≠ signupClientId
  writes : ∀ j r, .put r ∈ t.writesOf j → r.clientId ≠ signupClientId

omit [Field τ] [LinearOrder τ] in
theorem NoSignup.view {t : Table (GrantRow τ) Text} (h : NoSignup t) {r : GrantRow τ}
    (hr : r ∈ t.view i) : r.clientId ≠ signupClientId :=
  (mem_or_put_of_mem_foldl hr).elim (h.rows r) (h.writes i r)

theorem NoSignup.effect (h : NoSignup s.grants)
    (hpre : ∀ grant, o = .createGrant grant → grant.clientId.asStr ≠ signupClientId)
    (e : Effect C i s o s') : NoSignup s'.grants := by
  cases e with
  | createGrant grant hnew =>
    refine ⟨fun r hr => ?_, h.writes⟩
    rcases List.mem_append.1 hr with hr | hr
    · exact h.rows r hr
    · rw [List.mem_singleton.1 hr]
      exact hpre grant rfl
  | revoke id now r hr hid hb =>
    refine ⟨h.rows, fun j r' hr' => ?_⟩
    rcases Table.mem_writesOf_write hr' with hr' | hr'
    · exact h.writes j r' hr'
    · rw [Write.put.inj hr']
      exact (h.view hr : r.clientId ≠ _)
  | commit =>
    exact ⟨fun r hr => h.view hr, fun j r hr => h.writes j r (Table.mem_writesOf_of_finish hr)⟩
  | rollback =>
    exact ⟨h.rows, fun j r hr => h.writes j r (Table.mem_writesOf_of_finish hr)⟩
  | same | now | mint | userConflict | createUser | setQuota | markAsUsed | revokeNone | lockGrant
  | deleteSessions | insertSession | garbageCollect | trackNonce | notifyGrant =>
    exact ⟨h.rows, h.writes⟩

/-- The bearer that call `i` returns is for a grant that is not one for signup. -/
def SessionGrant (C : Crates) (w : Wld τ) (i : ℕ) : Prop :=
  ∃ g p claims, .call i (.createGrantSession g p) ∈ w.hist ∧
    verifyGrantForRevocation C g = .ok claims ∧ isSignup claims = false

structure SignupInv (C : Crates) (w : Wld τ) : Prop where
  grants : NoSignup w.state.grants
  returned : ∀ i resp, .ret i (.created (.ok resp)) ∈ w.hist → SessionGrant C w i

/-- What call `i` has to establish before it issues an operation. -/
def SignupPre : Op τ → Prop
  | .createGrant grant => grant.clientId.asStr ≠ signupClientId
  | _ => True

/-- What call `i` has to establish before it returns. -/
def SignupPost (C : Crates) (i : ℕ) : Out τ → Wld τ → Prop
  | .created (.ok _), w => SessionGrant C w i
  | _, _ => True

theorem SessionGrant.mono (h : SessionGrant C w i) (hh : w.hist <:+ w'.hist) :
    SessionGrant C w' i := by
  obtain ⟨g, p, claims, hc, hg, hs⟩ := h
  exact ⟨g, p, claims, hh.subset hc, hg, hs⟩

variable [FloorRing τ]

variable (τ C svc) in
/-- The logic of signup grants. -/
def signupLogic : Logic (machine τ C svc) (SignsUpFirst C) where
  Inv := SignupInv C
  Rely := fun _ w w' => w.hist <:+ w'.hist
  Pre := fun _ o _ => SignupPre o
  Post := SignupPost C
  rely_refl := fun _ _ => List.suffix_rfl
  rely_trans := fun h h' => h.trans h'
  op_ok := fun h _ hpre _ hx =>
    ⟨⟨h.grants.effect (by rintro grant rfl; exact hpre) (exec_effect hx), h.returned⟩,
      fun _ _ => List.suffix_rfl⟩
  call_ok := fun h _ _ =>
    ⟨⟨h.grants, fun j resp hr =>
      (h.returned j resp (by simpa using hr)).mono (List.suffix_cons _ _)⟩,
      fun _ _ => List.suffix_cons _ _⟩
  ret_ok := fun {w i a} h _ hpost _ => by
    refine ⟨⟨h.grants, fun j resp hr => ?_⟩, fun _ _ => List.suffix_cons _ _⟩
    rcases List.mem_cons.1 hr with heq | hr
    · obtain ⟨rfl, rfl⟩ := Event.ret.inj heq
      exact SessionGrant.mono hpost (List.suffix_cons _ _)
    · exact (h.returned j resp hr).mono (List.suffix_cons _ _)
  drop_ok := fun {w i} h _ _ =>
    have e : Effect C i w.state (.rollback : Op τ) (w.state.rollback i) := .rollback _ (.inr rfl)
    ⟨⟨h.grants.effect (o := .rollback) nofun e, h.returned⟩, fun _ _ => List.suffix_rfl⟩
  env_ok := fun {w e s} h _ he => by
    refine ⟨⟨?_, h.returned⟩, fun _ => List.suffix_rfl⟩
    rcases env_cases he with ⟨t, -, rfl⟩ | ⟨row, -, -, rfl⟩ <;> exact h.grants

/-! ## The calls -/

/-- Operations that store no grant. -/
def Op.StoresNoGrant : Op τ → Prop
  | .createGrant _ => False
  | _ => True

omit [Field τ] [LinearOrder τ] [FloorRing τ] in
theorem Op.StoresNoGrant.pre (h : o.StoresNoGrant) : SignupPre o := by
  cases o <;> first | exact h.elim | trivial

omit [Field τ] [LinearOrder τ] [FloorRing τ] in
theorem Op.Quiet.storesNoGrant (h : o.Quiet) : o.StoresNoGrant := by
  cases o <;> first | exact h.elim | trivial

theorem Op.Reads.storesNoGrant (h : o.Reads) : o.StoresNoGrant :=
  h.quiet.storesNoGrant

variable {ε α : Type} {c : Call}

/-- Procedures that store no grant leave the call in the history. -/
theorem safe_storesNoGrant {q : Prog (Op τ) (Op.Res τ) α} (hq : q.Uses Op.StoresNoGrant)
    (hc : .call i c ∈ w.hist) :
    (signupLogic τ C svc).Safe i q (fun _ w' => .call i c ∈ w'.hist) w :=
  Safe.of_uses (R := fun w' => .call i c ∈ w'.hist) hq
    (fun w₁ w₂ (hr : w₁.hist <:+ w₂.hist) hmem => hr.subset hmem)
    (fun _ _ ho _ hmem => ⟨ho.pre, fun _ _ _ _ _ => hmem⟩) hc

theorem safeE_storesNoGrant {q : Proc τ ε α} (hq : q.run.Uses Op.StoresNoGrant)
    (hc : .call i c ∈ w.hist) :
    (signupLogic τ C svc).SafeE i q (fun _ w' => .call i c ∈ w'.hist) w :=
  (safe_storesNoGrant hq hc).mono fun _ _ _ hmem _ _ => hmem

theorem checkNonceReplay_storesNoGrant (pop : PopProof) :
    (checkNonceReplay pop : Proc τ _ _).run.Uses Op.StoresNoGrant :=
  uses_bind (uses_utcNow trivial) fun _ => uses_bind ⟨trivial, fun _ => trivial⟩ fun _ =>
    uses_bind (uses_sql (uses_perform trivial)) fun _ => uses_unless uses_pure

/-- The claims that an exchange goes on with are those of the grant it presents. -/
theorem verifyGrantAndPop_claims (hc : .call i c ∈ w.hist) :
    (signupLogic τ C svc).SafeE i (verifyGrantAndPop C svc g p)
      (fun claims w' => verifyGrantForRevocation C g = .ok claims ∧ .call i c ∈ w'.hist) w := by
  have hgrant : (signupLogic τ C svc).SafeE i (verifyGrant C g)
      (fun claims w' => verifyGrantForRevocation C g = .ok claims ∧ .call i c ∈ w'.hist) w := by
    refine safe_check_bind fun claims hclaims => ?_
    refine SafeE.bind ((safeE_storesNoGrant (uses_utcNow trivial) hc).mono fun _ w₁ _ hc₁ => ?_)
    exact safe_check_bind fun _ _ => SafeE.pure fun _ hr _ => ⟨hclaims, hr.subset hc₁⟩
  refine SafeE.bind (hgrant.mono fun claims w₁ _ ⟨hclaims, hc₁⟩ => ?_)
  refine SafeE.bind ((safeE_storesNoGrant ((checkGrantNotRevoked_uses claims).mono
    fun _ => Op.Reads.storesNoGrant) hc₁).mono fun _ w₂ _ hc₂ => ?_)
  refine SafeE.bind ((safeE_storesNoGrant ((verifyPopProof_uses p claims).mono
    fun _ => Op.Reads.storesNoGrant) hc₂).mono fun pop w₃ _ hc₃ => ?_)
  refine SafeE.bind ((safeE_storesNoGrant (checkNonceReplay_storesNoGrant pop) hc₃).mono
    fun _ w₄ _ hc₄ => ?_)
  exact SafeE.pure fun _ hr _ => ⟨hclaims, hr.subset hc₄⟩

/-- Finding the user of a grant rules out that it is one for signup. -/
theorem findUser_notSignup (hclaims : verifyGrantForRevocation C g = .ok claims)
    (hc : .call i (.createGrantSession g p) ∈ w.hist) :
    (signupLogic τ C svc).SafeE i (findUser claims)
      (fun _ w' => isSignup claims = false ∧ .call i (.createGrantSession g p) ∈ w'.hist) w := by
  refine safe_sql rfl fun w₁ hr hi => ⟨trivial, fun inp r s user hal hx huser w₂ hr₂ _ => ?_⟩
  have hc₁ : .call i (.createGrantSession g p) ∈ w₁.hist := hr.subset hc
  refine ⟨?_, hr₂.subset hc₁⟩
  have hfound : w₁.state.getUser C i claims.iss = .ok user := by
    obtain rfl : r = .ok user := huser
    exact (Prod.mk.inj (Option.some.inj (answer_eq_ok hx))).1
  by_contra hsignup
  have hnone := hal (i, claims.iss) rfl _ hc₁ (i, g) rfl rfl claims
    (by simp [hclaims, Except.toOption]) (by simpa using hsignup)
  have hlookup : lookup (w₁.state.users.view i) (C.z32 claims.iss) = none :=
    lookup_eq_none.2 fun r hr => hnone r hr
  rw [State.getUser, hlookup] at hfound
  cases hfound

theorem createGrantSession_notSignup (hc : .call i (.createGrantSession g p) ∈ w.hist) :
    (signupLogic τ C svc).SafeE i (createGrantSession C svc g p)
      (fun _ w' => SessionGrant C w' i) w := by
  refine SafeE.bind ((verifyGrantAndPop_claims hc).mono fun claims w₁ _ ⟨hclaims, hc₁⟩ => ?_)
  refine SafeE.bind ((findUser_notSignup hclaims hc₁).mono fun user w₂ _ ⟨hsignup, hc₂⟩ => ?_)
  refine safe_sql_bind rfl fun w₃ hr₃ _ => ⟨?_, fun _ _ _ _ _ _ _ => ?_⟩
  · have hclient : claims.clientId.asStr ≠ signupClientId := by simpa [isSignup] using hsignup
    exact hclient
  · refine Safe.mono (safe_storesNoGrant (c := .createGrantSession g p) ?_ (hr₃.subset hc₂))
      fun _ _ _ hc₄ _ _ => ⟨g, p, claims, hc₄, hclaims, hsignup⟩
    exact uses_bind ((requireStoredGrantMatches_uses claims).mono fun _ => Op.Reads.storesNoGrant)
      fun _ => (mintSession_uses claims).mono fun _ h => h.quiet.storesNoGrant

/-- The other calls store no grant and return no bearer. -/
theorem callProgram_storesNoGrant (h : ∀ g p, c ≠ .createGrantSession g p) :
    (callProgram τ C svc c).Uses Op.StoresNoGrant := by
  by_cases hpres : c.Presents
  · cases c with
    | createGrantSession g p => exact absurd rfl (h g p)
    | signupGrantAccount g p t =>
      refine Prog.Uses.bind (uses_bind ?_ fun claims => ?_) fun _ => trivial
      · refine uses_bind ((verifyGrant_uses g).mono fun _ => Op.Reads.storesNoGrant) fun claims => ?_
        refine uses_bind uses_check fun _ => uses_bind uses_check fun _ => ?_
        refine uses_bind (uses_utcNow trivial) fun _ => uses_bind uses_check fun _ => ?_
        exact uses_bind ((verifyPopProof_uses p claims).mono fun _ => Op.Reads.storesNoGrant)
          fun pop => uses_bind (checkNonceReplay_storesNoGrant pop) fun _ => uses_pure
      · refine uses_bind (uses_inTransaction trivial trivial trivial (uses_adapt ?_))
          fun _ => uses_pure
        exact (createUserInTx_uses _ _).mono fun _ => Op.Quiet.storesNoGrant
    | signoutWithProof g p =>
      refine Prog.Uses.bind (uses_bind uses_check fun claims => ?_) fun _ => trivial
      refine uses_bind ((verifyPopProof_uses p claims).mono fun _ => Op.Reads.storesNoGrant)
        fun pop => uses_bind (checkNonceReplay_storesNoGrant pop) fun _ => ?_
      refine uses_bind ((getGrant_uses _).mono fun _ => Op.Reads.storesNoGrant) fun _ => ?_
      exact uses_unless ((revokeGrant_uses _).mono fun _ h => h.quiet.storesNoGrant)
    | _ => exact hpres.elim
  · exact (callProgram_quiet hpres).mono fun _ => Op.Quiet.storesNoGrant

theorem signupLogic_callSafe : (signupLogic τ C svc).CallSafe := by
  intro w i c _ _ _
  have hc : .call i c ∈ (w.log (.call i c)).hist := List.mem_cons_self ..
  by_cases hcreate : ∃ g p, c = .createGrantSession g p
  · obtain ⟨g, p, rfl⟩ := hcreate
    refine Safe.map (Safe.mono (createGrantSession_notSignup hc) fun r w' _ h => ?_)
    cases r with
    | ok resp => exact h resp rfl
    | error e => trivial
  · have huses : (callProgram τ C svc c).Uses Op.StoresNoGrant :=
      callProgram_storesNoGrant fun g p heq => hcreate ⟨g, p, heq⟩
    cases c with
    | createGrantSession g p => exact absurd ⟨g, p, rfl⟩ hcreate
    | signupGrantAccount | signoutWithProof | revokeUserGrant | signout
    | resolveGrantSessionByBearer | validateActiveGrantSession | listActiveGrants
    | getGrantSessionInfo | createNewUser =>
      exact Safe.map (Safe.mono (safe_storesNoGrant huses.of_bind hc) fun _ _ _ _ => trivial)

/-! ## Runs -/

variable {q q₀ : Pool (State τ) (Op τ) Call (Out τ) (Op.Res τ)}

/-- Signup grants never become session grants, in every run in which they are exchanged only for
users without an account: none is stored, and no bearer is returned for one. -/
theorem signup_grant_not_session (h₀ : Initial q₀)
    (hrun : Steps (machine τ C svc) (SignsUpFirst C) q₀ q) :
    (∀ r ∈ q.world.state.grants.rows, r.clientId ≠ signupClientId) ∧
    ∀ i g p claims resp, .call i (.createGrantSession g p) ∈ q.world.hist →
      verifyGrantForRevocation C g = .ok claims → claims.clientId.asStr = signupClientId →
      .ret i (.created (.ok resp)) ∉ q.world.hist := by
  have hinv : SignupInv C q₀.world :=
    ⟨⟨by simp [h₀.grants], by simp [h₀.grants, Table.writesOf]⟩, by simp [h₀.hist]⟩
  have hsafe : (signupLogic τ C svc).PoolSafe q₀ := .initial hinv h₀.threads h₀.hist
  have hq := steps_safe signupLogic_callSafe hsafe hrun
  refine ⟨hq.inv.grants.rows, fun i g p claims resp hc hclaims hsignup hret => ?_⟩
  obtain ⟨g', p', claims', hc', hclaims', hnot⟩ := hq.inv.returned i resp hret
  obtain ⟨rfl, rfl⟩ := Call.createGrantSession.inj (hq.unique i _ _ hc hc')
  obtain rfl := Except.ok.inj (hclaims.symm.trans hclaims')
  simp [isSignup, hsignup] at hnot

open Sample in
/-- Without an account, the exchange of a signup grant is refused. -/
theorem signup_grant_not_session_sample :
    ∃ q : Pool (State ℚ) (Op ℚ) Call (Out ℚ) (Op.Res ℚ),
      Steps (machine ℚ crates service) (SignsUpFirst crates) (morning []) q ∧
      .call 0 (.createGrantSession (compact signupGrant) (compact popS)) ∈ q.world.hist ∧
      verifyGrantForRevocation crates (compact signupGrant) = .ok signupClaims ∧
      ∀ resp, .ret 0 (.created (.ok resp)) ∉ q.world.hist := by
  have hrun : ((morning []).run (machine ℚ crates service) (SignsUpFirst crates)
      (.call 0 (.createGrantSession (compact signupGrant) (compact popS)) :: proceed 0 8)).any
      fun q => .call 0 (.createGrantSession (compact signupGrant) (compact popS)) ∈ q.world.hist := by
    decide +kernel
  have hclaims : verifyGrantForRevocation crates (compact signupGrant) = .ok signupClaims := by
    decide +kernel
  obtain ⟨q, hq, h⟩ := Pool.exists_steps_of_run _ _ hrun
  have hcall := of_decide_eq_true h
  exact ⟨q, hq, hcall, hclaims, fun resp =>
    (signup_grant_not_session (initial_start _ _) hq).2 0 _ _ _ resp hcall hclaims rfl⟩

/-- The second call has opened a session. -/
def openedSecond : Event Call (Out ℚ) → Bool
  | .ret 1 (.created (.ok _)) => true
  | _ => false

open Sample in
/-- Alice signs up with a signup grant and then exchanges the same grant: it is stored, and a
bearer is returned for it. -/
theorem signup_grant_becomes_session :
    ∃ q : Pool (State ℚ) (Op ℚ) Call (Out ℚ) (Op.Res ℚ), Reachable crates service q ∧
      (∃ r ∈ q.world.state.grants.rows, r.clientId = signupClientId) ∧
      .call 1 (.createGrantSession (compact signupGrant) (compact popS')) ∈ q.world.hist ∧
      ∃ resp, .ret 1 (.created (.ok resp)) ∈ q.world.hist := by
  have hrun : ((morning []).run (machine ℚ crates service) (fun _ _ => True)
      (.call 0 (.signupGrantAccount (compact signupGrant) (compact popS) none) :: proceed 0 12 ++
        exchange 1 signupGrant popS' (List.replicate 32 7))).any fun q =>
      q.world.state.grants.rows.any (fun r => r.clientId = signupClientId) &&
        .call 1 (.createGrantSession (compact signupGrant) (compact popS')) ∈ q.world.hist &&
        q.world.hist.any openedSecond := by
    decide +kernel
  obtain ⟨q, hq, h⟩ := Pool.exists_steps_of_run _ _ hrun
  simp only [Bool.and_eq_true, List.any_eq_true, decide_eq_true_eq] at h
  obtain ⟨⟨⟨r, hr, hclient⟩, hcall⟩, e, he, hret⟩ := h
  refine ⟨q, ⟨_, initial_start _ _, hq⟩, ⟨r, hr, hclient⟩, hcall, ?_⟩
  unfold openedSecond at hret
  split at hret
  · exact ⟨_, he⟩
  · cases hret

end Pubky.Homeserver.Grant

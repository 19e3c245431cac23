import Pubky.Homeserver.Grant.Logic

/-!
# Rules for the procedures of the service

* One rule for every way in which a procedure goes on: a pure check, a reading of the clock, a
  statement, a transaction. They hold in every logic of the machine.
* `Op.Reads`, `Op.OnSessions`, `Op.Quiet` and `Op.Pooled` classify operations, and the lemmas
  `*_uses` say which procedures issue only such operations; the frame rule then disposes of them.
-/

set_option linter.unusedSectionVars false

namespace Pubky.Homeserver.Grant

open Conc Conc.Logic

variable {τ : Type} [Field τ] [LinearOrder τ] [FloorRing τ] {C : Crates} {svc : GrantAuthService}
  {allow : Wld τ → Label (Op τ) Choice (Env τ) Call (Out τ) → Prop}
  {L : Logic (machine τ C svc) allow} {i : ℕ} {w : Wld τ} {ε ε' α β : Type} {o : Op τ}

theorem ok_of_mapError {f : ε → ε'} {x : Except ε α} {a : α} (h : x.mapError f = .ok a) :
    x = .ok a := by
  cases x with
  | ok b => exact congrArg Except.ok (Except.ok.inj h)
  | error e => cases h

/-- A proof that passed verification carries a valid signature of the expected key. -/
theorem verifyClaims_signature {p : JwsCompact} {context : PopVerificationContext}
    {raw : PopProofClaims} (h : PopProof.verifyClaims C p context = .ok raw) :
    ∃ bytes, C.jwtDecode p.asStr context.cnfKey = some bytes ∧ C.popFromJson bytes = .ok raw := by
  simp only [PopProof.verifyClaims, Except.bind_ok_iff] at h
  obtain ⟨raw', hraw, _, _, _, _, _, _, hok⟩ := h
  cases hok
  simp only [verifyPopSignature] at hraw
  split at hraw
  · cases hraw
  · rename_i bytes hdec
    split at hraw
    · rename_i claims hjson
      exact ⟨bytes, hdec, by rw [hjson, Except.ok.inj hraw]⟩
    · cases hraw

/-! ## Steps of a procedure -/

section Steps

variable {Q : β → Wld τ → Prop} {k : α → Proc τ ε β}

theorem safe_check {f : ε' → ε} {x : Except ε' α} {Q : α → Wld τ → Prop}
    (h : ∀ a, x = .ok a → ∀ w', L.Rely i w w' → L.Inv w' → Q a w') :
    L.SafeE i (check f x : Proc τ ε α) Q w :=
  fun w' hr hi a ha => h a (ok_of_mapError ha) w' hr hi

theorem safe_check_bind {f : ε' → ε} {x : Except ε' α}
    (h : ∀ a, x = .ok a → L.SafeE i (k a) Q w) : L.SafeE i (check f x >>= k) Q w :=
  .bind (safe_check fun a ha _ hr _ => (h a ha).rely hr)

/-- A statement: its precondition holds, and the procedure goes on if it succeeds. -/
theorem safe_sql {f : SqlError → ε} {p : Prog (Op τ) (Op.Res τ) (Except SqlError α)}
    {g : o.Res τ → Except SqlError α} {Q : α → Wld τ → Prop}
    (hp : p = .op o fun r => .ret (g r))
    (h : ∀ w', L.Rely i w w' → L.Inv w' → L.Pre i o w' ∧ ∀ c r s a, allow w' (.op i o c) →
      exec C i o c w'.state = some (r, s) → g r = .ok a →
      ∀ w'', L.Rely i (w'.setState s) w'' → L.Inv w'' → Q a w'') :
    L.SafeE i (sql f p) Q w := by
  subst hp
  intro w' hr hi
  obtain ⟨hpre, hk⟩ := h w' hr hi
  refine ⟨hpre, fun c r s ha hx w'' hr' hi' a heq => ?_⟩
  exact hk c r s a ha hx (ok_of_mapError heq) w'' hr' hi'

theorem safe_sql_bind {f : SqlError → ε} {p : Prog (Op τ) (Op.Res τ) (Except SqlError α)}
    {g : o.Res τ → Except SqlError α} (hp : p = .op o fun r => .ret (g r))
    (h : ∀ w', L.Rely i w w' → L.Inv w' → L.Pre i o w' ∧ ∀ c r s a, allow w' (.op i o c) →
      exec C i o c w'.state = some (r, s) → g r = .ok a →
      L.SafeE i (k a) Q (w'.setState s)) :
    L.SafeE i (sql f p >>= k) Q w := by
  refine .bind (safe_sql hp fun w' hr hi => ?_)
  obtain ⟨hpre, hk⟩ := h w' hr hi
  exact ⟨hpre, fun c r s a ha hx heq w'' hr' _ => (hk c r s a ha hx heq).rely hr'⟩

/-- An operation whose answer is handled by `g`. -/
theorem safe_perform_bind {g : o.Res τ → Prog (Op τ) (Op.Res τ) (Except ε α)}
    (h : ∀ w', L.Rely i w w' → L.Inv w' → L.Pre i o w' ∧ ∀ c r s, allow w' (.op i o c) →
      exec C i o c w'.state = some (r, s) →
      L.SafeE i (ExceptT.mk (g r) >>= k) Q (w'.setState s)) :
    L.SafeE i (ExceptT.mk (perform o >>= g) >>= k) Q w := by
  intro w' hr hi
  obtain ⟨hpre, hk⟩ := h w' hr hi
  exact ⟨hpre, fun c r s ha hx => hk c r s ha hx⟩

theorem safe_lift_bind {k : o.Res τ → Proc τ ε β}
    (h : ∀ w', L.Rely i w w' → L.Inv w' → L.Pre i o w' ∧ ∀ c r s, allow w' (.op i o c) →
      exec C i o c w'.state = some (r, s) → L.SafeE i (k r) Q (w'.setState s)) :
    L.SafeE i (ExceptT.lift (perform o) >>= k) Q w := by
  intro w' hr hi
  obtain ⟨hpre, hk⟩ := h w' hr hi
  exact ⟨hpre, fun c r s ha hx => hk c r s ha hx⟩

theorem safe_utcNow_bind {k : Instant τ → Proc τ ε β}
    (h : ∀ w', L.Rely i w w' → L.Inv w' → L.Pre i .now w' ∧ ((∃ c, allow w' (.op i .now c)) →
      L.SafeE i (k w'.state.clock) Q
        (w'.setState { w'.state with readings := w'.state.readings ++ [(i, w'.state.clock)] }))) :
    L.SafeE i (utcNow >>= k) Q w := by
  refine safe_perform_bind fun w' hr hi => ?_
  obtain ⟨hpre, hk⟩ := h w' hr hi
  refine ⟨hpre, fun c r s ha hx => ?_⟩
  cases hx
  exact hk ⟨c, ha⟩

theorem safe_adapt {f : ε' → ε} {p : Proc τ ε' α} {Q : α → Wld τ → Prop}
    (h : L.SafeE i p Q w) : L.SafeE i (ExceptT.adapt f p : Proc τ ε α) Q w := by
  refine Safe.map (Safe.mono h fun x w₁ _ hx => ?_)
  exact fun a ha => hx a (ok_of_mapError ha)

/-- An early return. -/
theorem safe_unless {c : Prop} [Decidable c] {e : ε} {k : Unit → Proc τ ε β}
    (h : ¬ c → L.SafeE i (k ()) Q w) :
    L.SafeE i (if c then throw e >>= k else k ()) Q w := by
  split
  · exact .bind .throw
  · rename_i hc
    exact h hc

variable (L) in
/-- The transaction of call `i` may commit in `w₁` or later, and then `Q` holds. -/
def Commits (i : ℕ) (Q : Wld τ → Prop) (w₁ : Wld τ) : Prop :=
  ∀ w₂, L.Rely i w₁ w₂ → L.Inv w₂ → L.Pre i .commit w₂ ∧ ∀ c s, allow w₂ (.op i .commit c) →
    exec C i .commit c w₂.state = some (.ok (), s) →
    ∀ w₃, L.Rely i (w₂.setState s) w₃ → L.Inv w₃ → Q w₃

/-- A transaction whose body is safe only has to commit. A failing body rolls back and ends the
procedure. -/
theorem safe_inTransaction {f : SqlError → ε} {body : Proc τ ε α} {Q : α → Wld τ → Prop}
    (hbegin : ∀ w', L.Inv w' → L.Pre i .begin w')
    (hrollback : ∀ w', L.Inv w' → L.Pre i .rollback w')
    (hbody : L.SafeE i body (fun a => Commits L i (Q a)) w) :
    L.SafeE i (inTransaction f body) Q w := by
  refine safe_sql_bind rfl fun w' hr hi => ⟨hbegin w' hi, fun c r s a _ hx _ => ?_⟩
  obtain rfl := answer_read hx
  have hcatch : L.SafeE i (tryCatch body fun e => (do dropTransaction; throw e))
      (fun a => Commits L i (Q a)) w' := by
    refine Safe.bind (Safe.mono (Safe.rely hbody hr) fun x w₁ hi₁ hx => ?_)
    cases x with
    | ok a =>
      intro w₂ hr₂ _ b hb w₃ hr₃ hi₃
      cases hb
      exact hx a rfl w₃ (L.rely_trans hr₂ hr₃) hi₃
    | error e =>
      intro w₂ hr₂ hi₂
      refine ⟨hrollback w₂ hi₂, fun c r s _ _ w₃ _ _ b hb => ?_⟩
      cases hb
  refine SafeE.bind (hcatch.mono fun a w₁ _ hq => safe_sql_bind rfl fun w₂ hr₂ hi₂ => ?_)
  obtain ⟨hpre, hk⟩ := hq w₂ hr₂ hi₂
  refine ⟨hpre, fun c r s u hal hx heq => SafeE.pure fun w₃ hr₃ hi₃ => ?_⟩
  obtain rfl : r = .ok u := heq
  exact hk c s hal hx w₃ hr₃ hi₃

end Steps

/-! ## Which operations a procedure issues -/

section Uses

variable {P : Op τ → Prop} {p : Proc τ ε α}

theorem uses_bind {k : α → Proc τ ε β} (hp : p.run.Uses P) (hk : ∀ a, (k a).run.Uses P) :
    (p >>= k).run.Uses P := by
  refine Prog.Uses.bind hp fun x => ?_
  cases x with
  | ok a => exact hk a
  | error e => trivial

theorem uses_pure {a : α} : (pure a : Proc τ ε α).run.Uses P := trivial

theorem uses_throw {e : ε} : (throw e : Proc τ ε α).run.Uses P := trivial

theorem uses_unless {c : Prop} [Decidable c] {e : ε} {k : Unit → Proc τ ε β}
    (hk : (k ()).run.Uses P) : (if c then throw e >>= k else k ()).run.Uses P := by
  split
  · exact uses_bind uses_throw fun _ => hk
  · exact hk

theorem uses_check {f : ε' → ε} {x : Except ε' α} : (check f x : Proc τ ε α).run.Uses P := trivial

theorem uses_sql {f : SqlError → ε} {q : Prog (Op τ) (Op.Res τ) (Except SqlError α)}
    (hq : q.Uses P) : (sql f q).run.Uses P :=
  Prog.Uses.bind hq fun _ => trivial

theorem uses_perform (h : P o) : (perform o).Uses P := ⟨h, fun _ => trivial⟩

theorem uses_utcNow (h : P .now) : (utcNow : Proc τ ε (Instant τ)).run.Uses P :=
  ⟨h, fun _ => trivial⟩

theorem uses_adapt {f : ε' → ε} {q : Proc τ ε' α} (hq : q.run.Uses P) :
    (ExceptT.adapt f q : Proc τ ε α).run.Uses P :=
  Prog.Uses.bind hq fun _ => trivial

theorem uses_inTransaction {f : SqlError → ε} (hb : P .begin) (hc : P .commit) (hr : P .rollback)
    (hp : p.run.Uses P) : (inTransaction f p).run.Uses P := by
  refine uses_bind (uses_sql (uses_perform hb)) fun _ => uses_bind ?_ fun _ =>
    uses_bind (uses_sql (uses_perform hc)) fun _ => uses_pure
  refine Prog.Uses.bind hp fun x => ?_
  cases x with
  | ok a => trivial
  | error e => exact ⟨hr, fun _ => trivial⟩

end Uses

/-- Operations that only read. -/
def Op.Reads : Op τ → Prop
  | .now | .getUser _ | .getSignupCode _ | .getGrant _ | .isRevoked _
  | .listActiveForUser _ _ | .scanSessions _ | .getSession _ => True
  | _ => False

/-- Operations that change neither the nonces nor the set of stored grants. -/
def Op.Quiet : Op τ → Prop
  | .createGrant _ | .garbageCollect _ | .trackNonce _ => False
  | _ => True

/-- Operations on sessions and on grants that are stored already. -/
def Op.OnSessions : Op τ → Prop
  | .createGrant _ | .garbageCollect _ | .trackNonce _ | .createUser _ | .setQuota _ _
  | .markAsUsed _ _ => False
  | _ => True

theorem Op.OnSessions.quiet (h : o.OnSessions) : o.Quiet := by
  cases o <;> first | exact h.elim | trivial

theorem Op.Reads.pooled (h : o.Reads) : o.Pooled := by
  cases o <;> first | exact h.elim | trivial

theorem Op.Reads.onSessions (h : o.Reads) : o.OnSessions := by
  cases o <;> first | exact h.elim | trivial

theorem Op.Reads.quiet (h : o.Reads) : o.Quiet :=
  h.onSessions.quiet

section Procedures

theorem getGrant_uses (id : GrantId) : (getGrant id : Proc τ _ _).run.Uses Op.Reads :=
  uses_sql (uses_perform trivial)

theorem findUser_uses (grant : GrantClaims) : (findUser grant : Proc τ _ _).run.Uses Op.Reads :=
  uses_sql (uses_perform trivial)

theorem verifyGrant_uses (g : JwsCompact) : (verifyGrant C g : Proc τ _ _).run.Uses Op.Reads :=
  uses_bind uses_check fun _ => uses_bind (uses_utcNow trivial) fun _ =>
    uses_bind uses_check fun _ => uses_pure

theorem verifyPopProof_uses (p : JwsCompact) (grant : GrantClaims) :
    (verifyPopProof C svc p grant : Proc τ _ _).run.Uses Op.Reads :=
  uses_bind uses_check fun _ => uses_bind (uses_utcNow trivial) fun _ => uses_check

theorem checkGrantNotRevoked_uses (grant : GrantClaims) :
    (checkGrantNotRevoked grant : Proc τ _ _).run.Uses Op.Reads := by
  refine uses_bind ⟨trivial, fun r => ?_⟩ fun b => uses_unless uses_pure
  rcases r with (_ | _ | _) | _ <;> trivial

theorem requireStoredGrantMatches_uses (grant : GrantClaims) :
    (requireStoredGrantMatches C grant : Proc τ _ _).run.Uses Op.Reads := by
  exact uses_bind (getGrant_uses _) fun _ => uses_unless uses_pure

theorem validateActiveGrantSessionEntity_uses (session : GrantSessionEntity) :
    (validateActiveGrantSessionEntity session : Proc τ _ _).run.Uses Op.Reads :=
  uses_bind (uses_utcNow trivial) fun _ => uses_unless
    (uses_bind (getGrant_uses _) fun _ => uses_bind uses_check fun _ => uses_pure)

theorem resolveGrantSessionByBearer_uses (b : SessionBearer) :
    (resolveGrantSessionByBearer C b : Proc τ _ _).run.Uses Op.Reads :=
  uses_bind (uses_sql (uses_perform trivial)) fun _ =>
    uses_bind (validateActiveGrantSessionEntity_uses _) fun _ => uses_pure

theorem validateActiveGrantSession_uses (session : GrantSession) :
    (validateActiveGrantSession session : Proc τ _ _).run.Uses Op.Reads :=
  uses_bind (uses_sql (uses_perform trivial)) fun _ => uses_unless
    (validateActiveGrantSessionEntity_uses _)

theorem listActiveGrants_uses (userId : ℕ) : (listActiveGrants userId : Proc τ _ _).run.Uses Op.Reads :=
  uses_bind (uses_utcNow trivial) fun _ => uses_sql (uses_perform trivial)

theorem getGrantSessionInfo_uses (session : GrantSession) :
    (getGrantSessionInfo svc session : Proc τ _ _).run.Uses Op.Reads :=
  uses_bind (getGrant_uses _) fun _ => uses_pure

theorem resolveUserId_uses (auth : AuthSession) :
    (resolveUserId auth : Proc τ _ _).run.Uses Op.Reads := by
  cases auth with
  | grant b => exact uses_bind (getGrant_uses _) fun _ => uses_pure
  | cookie c => trivial

theorem ensureUserNotExists_uses (key : PublicKey) :
    (ensureUserNotExists key : Proc τ _ _).run.Uses Op.Reads := by
  refine ⟨trivial, fun r => ?_⟩
  rcases r with (_ | _ | _) | _ <;> trivial

theorem checkNonceReplay_uses (pop : PopProof) :
    (checkNonceReplay pop : Proc τ _ _).run.Uses Op.Pooled :=
  uses_bind (uses_utcNow trivial) fun _ => uses_bind ⟨trivial, fun _ => trivial⟩ fun _ =>
    uses_bind (uses_sql (uses_perform trivial)) fun _ => uses_unless uses_pure

theorem deleteAllForGrant_uses (f : SqlError → ε) (g : GrantId) :
    (deleteAllForGrant ε f g : Proc τ _ _).run.Uses Op.OnSessions :=
  uses_bind (uses_sql (uses_perform trivial)) fun _ => uses_sql (uses_perform trivial)

theorem replaceForGrant_uses (n : NewGrantSession) :
    (replaceForGrant n : Proc τ _ _).run.Uses Op.OnSessions :=
  uses_inTransaction trivial trivial trivial <|
    uses_bind (uses_sql (uses_perform trivial)) fun _ => uses_unless <|
      uses_bind (uses_utcNow trivial) fun _ => uses_unless <|
        uses_bind (deleteAllForGrant_uses _ _) fun _ => uses_sql (uses_perform trivial)

theorem mintSession_uses (grant : GrantClaims) :
    (mintSession C svc grant : Proc τ _ _).run.Uses Op.OnSessions :=
  uses_bind (uses_utcNow trivial) fun _ => uses_bind ⟨trivial, fun _ => trivial⟩ fun _ =>
    uses_bind (uses_adapt (replaceForGrant_uses _)) fun _ => uses_pure

theorem revokeGrant_uses (g : GrantId) : (revokeGrant g : Proc τ _ _).run.Uses Op.OnSessions :=
  uses_inTransaction trivial trivial trivial <|
    uses_bind (uses_utcNow trivial) fun _ => uses_bind (uses_sql (uses_perform trivial)) fun _ =>
      uses_bind (deleteAllForGrant_uses _ _) fun _ => uses_sql (uses_perform trivial)

theorem validateAndConsumeSignupToken_uses (token : Option SignupCode) (key : PublicKey) :
    (validateAndConsumeSignupToken token key : Proc τ _ _).run.Uses Op.Quiet :=
  uses_bind uses_check fun _ => uses_bind (uses_sql (uses_perform trivial)) fun _ =>
    uses_unless (uses_bind (uses_sql (uses_perform trivial)) fun _ => uses_pure)

theorem createUserInTx_uses (key : PublicKey) (token : Option SignupCode) :
    (createUserInTx svc key token : Proc τ _ _).run.Uses Op.Quiet := by
  refine uses_bind ((ensureUserNotExists_uses key).mono fun _ => Op.Reads.quiet) fun _ =>
    uses_bind ?_ fun _ => uses_bind (uses_sql (uses_perform trivial)) fun _ =>
      uses_sql (uses_perform trivial)
  split
  · exact validateAndConsumeSignupToken_uses _ _
  · exact uses_pure

theorem signoutGrantSession_uses (session : GrantSession) :
    (signoutGrantSession session : Proc τ _ _).run.Uses Op.OnSessions :=
  revokeGrant_uses _

theorem signout_uses (b : SessionBearer) : (signout C b : Proc τ _ _).run.Uses Op.OnSessions := by
  refine Prog.Uses.bind ((resolveGrantSessionByBearer_uses b).mono fun _ => Op.Reads.onSessions)
    fun x => ?_
  cases x with
  | ok session => exact signoutGrantSession_uses session
  | error e => trivial

theorem revokeUserGrant_uses (g : GrantId) (auth : AuthSession) :
    (revokeUserGrant g auth : Proc τ _ _).run.Uses Op.OnSessions :=
  uses_bind ((resolveUserId_uses auth).mono fun _ => Op.Reads.onSessions) fun _ =>
    uses_bind ((getGrant_uses g).mono fun _ => Op.Reads.onSessions) fun _ =>
      uses_unless (revokeGrant_uses g)

theorem createNewUser_uses (key : PublicKey) (token : Option SignupCode) :
    (createNewUser svc key token : Proc τ _ _).run.Uses Op.Quiet :=
  uses_inTransaction trivial trivial trivial (createUserInTx_uses key token)

end Procedures

/-- Calls whose program issues only reads. -/
def Call.Reads : Call → Prop
  | .resolveGrantSessionByBearer _ | .validateActiveGrantSession _ | .listActiveGrants _
  | .getGrantSessionInfo _ => True
  | _ => False

/-- Calls that present a grant together with a proof of possession. -/
def Call.Presents : Call → Prop
  | .createGrantSession _ _ | .signupGrantAccount _ _ _ | .signoutWithProof _ _ => True
  | _ => False

theorem callProgram_reads {c : Call} (h : c.Reads) : (callProgram τ C svc c).Uses Op.Reads := by
  cases c with
  | resolveGrantSessionByBearer b =>
    exact (resolveGrantSessionByBearer_uses b).bind fun _ => trivial
  | validateActiveGrantSession s => exact (validateActiveGrantSession_uses s).bind fun _ => trivial
  | listActiveGrants u => exact (listActiveGrants_uses u).bind fun _ => trivial
  | getGrantSessionInfo s => exact (getGrantSessionInfo_uses s).bind fun _ => trivial
  | _ => exact h.elim

/-- The other calls touch neither the nonces nor the set of stored grants. -/
theorem callProgram_quiet {c : Call} (h : ¬ c.Presents) :
    (callProgram τ C svc c).Uses Op.Quiet := by
  by_cases hr : c.Reads
  · exact (callProgram_reads hr).mono fun _ => Op.Reads.quiet
  · cases c with
    | revokeUserGrant g a =>
      exact ((revokeUserGrant_uses g a).mono fun _ => Op.OnSessions.quiet).bind fun _ => trivial
    | signout b =>
      exact ((signout_uses b).mono fun _ => Op.OnSessions.quiet).bind fun _ => trivial
    | createNewUser k t => exact (createNewUser_uses k t).bind fun _ => trivial
    | createGrantSession | signupGrantAccount | signoutWithProof => exact (h trivial).elim
    | _ => exact (hr trivial).elim

end Pubky.Homeserver.Grant

import Pubky.Homeserver.Storage.Deletions

/-!
# Calls are safe

Every call of the machine meets the preconditions of its operations:

* A request is authorized before it touches anything (`authorizeWrite_safe`), and a write that
  presents no token finds its file without a live lock before it goes on (`checkLock_safe`).
* Rounds of a keep-alive task and refreshes change the expiry of a lock only
  (`setExpiryOfLiveLock_safe`).
* Operations on the storage operators and changes by the administrator run the same
  transactions as requests.

`storageLogic_callSafe` puts them together.
-/

namespace Pubky.Homeserver.Storage

open Sql Conc Conc.Proc Conc.Logic

variable {cfg : Config} {C : StorageCrates} {hC : C.Lawful} {strict steady : Prop} {i : ℕ}
  {w w' : Wld} {s s' : State} {o : Op} {ε ε' α : Type} {e : EntryPath} {token : Option Text}
  {call : Call} {r : Request} {F : Wld → Prop}

/-! ## What call a thread runs -/

/-- Call `i` is `call`. -/
structure IsCall (i : ℕ) (call : Call) (w : Wld) : Prop where
  mem : .call i call ∈ w.hist
  unique : ∀ c, .call i c ∈ w.hist → c = call

/-- Only a write that presents no token has to look for locks first. -/
def Call.Tokenless (call : Call) : Prop :=
  ∃ r, call = .request r ∧ r.IsWrite ∧ r.tokens = []

theorem IsCall.rely (hr : Rely steady i w w') (h : IsCall i call w) : IsCall i call w' :=
  ⟨hr.hist.subset h.mem, fun c hc => h.unique c (hr.calls c hc)⟩

theorem IsCall.outer (hcall : ¬ call.Tokenless) : Outer C steady i (IsCall i call) where
  rely := fun hr h => h.rely hr
  own := fun _ _ h => ⟨h.mem, h.unique⟩
  unlocked := fun h r hr hw ht => absurd ⟨r, (h.unique _ hr).symm, hw, ht⟩ hcall
  grows := fun _ h => ⟨h.mem, h.unique⟩

/-- A new thread has no transaction. -/
theorem Inv.outside (hi : Inv C steady w) (hs : ¬ w.Started i) : Outside w.state i :=
  fun t ht hth => hs (hth ▸ hi.owners t ht)

/-- A frame together with a fact that does not depend on the world. -/
theorem Outer.and_pure (hF : Outer C steady i F) (P : Prop) :
    Outer C steady i fun w => F w ∧ P where
  rely := fun hr h => ⟨hF.rely hr h.1, h.2⟩
  own := fun hg ht h => ⟨hF.own hg ht h.1, h.2⟩
  unlocked := fun h => hF.unlocked h.1
  grows := fun hg h => ⟨hF.grows hg h.1, h.2⟩

/-! ## Statements outside of transactions -/

section

variable {f : ε' → ε} {p : Prog Op Op.Res (Except ε' α)} {g : o.Res → Except ε' α}

/-- A statement of a call that has no transaction. -/
theorem stmt_outside_safe (hF : Frame C steady i F) (hp : p = .op o fun r => .ret (g r))
    (ho : o.IsStatement)
    (hpre : ∀ w, F w → Outside w.state i → OpPre cfg C strict steady i w o) (h : F w)
    (hout : Outside w.state i) :
    Safely cfg hC strict steady i (stmt f p) (fun _ w => F w ∧ Outside w.state i)
      (fun _ w => F w ∧ Outside w.state i) w := by
  refine SafeX.stmt hp fun w₁ hr₁ hi₁ => ?_
  have h₁ := hF.rely_outside hr₁ ⟨h, hout⟩
  have hpre₁ := hpre w₁ h₁.1 h₁.2
  refine ⟨⟨.inr (hF.unlocked h₁.1), hpre₁⟩, fun c r s _ hx w₂ hr₂ _ => ?_⟩
  have heff : Effect cfg C i w₁.state o s := exec_effect hx
  have htxs := effect_txs_eq ho heff
  have h₂ : F (w₁.setState s) ∧ Outside s i := by
    refine ⟨hF.own (effect_grows hi₁ hpre₁ heff) htxs h₁.1, ?_⟩
    rw [Outside, htxs]
    exact h₁.2
  exact ⟨fun _ _ => hF.rely_outside hr₂ h₂, fun _ _ => hF.rely_outside hr₂ h₂⟩

end

/-! ## Write locks -/

/-- The transaction has written no row that belongs to the ledger. -/
structure OffLedger (i : ℕ) (s : State) : Prop where
  users : s.users.writesOf i = []
  entries : s.entries.writesOf i = []
  events : s.events.writesOf i = []

theorem OffLedger.stable : Stable steady i (OffLedger i) :=
  fun _ _ hc h => ⟨hc.same.users.trans h.users, hc.same.entries.trans h.entries,
    hc.same.events.trans h.events⟩

theorem OffLedger.change (h : OffLedger i w.state) :
    Change strict w.state.ledger (w.state.ledgerOf i) ∧ HoldsLock C w i := by
  refine ⟨?_, fun r _ _ _ hne => absurd h.entries hne⟩
  have hsame : w.state.ledgerOf i = w.state.ledger := by
    rw [State.ledgerOf, State.ledger, Table.view_of_writesOf_eq_nil h.users,
      Table.view_of_writesOf_eq_nil h.entries, Table.view_of_writesOf_eq_nil h.events]
  rw [hsame]
  exact .same

theorem takeLock_fresh {path : EntryPath} {tokens : List Text}
    {r : Except SqlError Unit} (h : s.takeLock C i path tokens = some (r, s')) (hk : Fresh i s) :
    Fresh i s' := by
  simp only [State.takeLock] at h
  split at h
  · cases h
    exact hk
  · split at h
    · cases h
    · split at h
      · cases h
        exact { hk with }
      · cases h
        exact hk

/-- Only the expiry of a lock with one of the tokens changes. -/
theorem extendLock_eq {path : EntryPath} {tokens : List Text} {keep : Bool} {seconds now : ℤ}
    {r : Except SqlError (Option EntryLockRow)}
    (h : s.extendLock C i path tokens keep seconds now = some (r, s')) :
    (∃ entryLocks, s' = { s with entryLocks := entryLocks }) ∧
      ∀ row, r = .ok (some row) → row.token ∈ tokens := by
  simp only [State.extendLock] at h
  split at h
  · cases h
    exact ⟨⟨_, rfl⟩, fun _ hrow => by cases hrow⟩
  · split at h
    · cases h
    · split at h
      · rename_i hlive
        cases h
        refine ⟨⟨_, rfl⟩, fun row hrow => ?_⟩
        obtain rfl := Option.some.inj (Except.ok.inj hrow)
        simpa using hlive.1
      · cases h
        exact ⟨⟨_, rfl⟩, fun _ hrow => by cases hrow⟩

/-- A refresh, or a round of a keep-alive task, of a lock with one of the tokens. -/
theorem setExpiryOfLiveLock_safe {tokens : List Text} {keep : Bool} {seconds : ℤ}
    (hF : Outer C steady i F) (hscope : ∀ {w}, F w → InScope C w.hist i e) (h : F w)
    (hout : Outside w.state i) :
    Safely cfg hC strict steady i (setExpiryOfLiveLock e tokens keep seconds)
      (fun _ w => F w ∧ Outside w.state i) (fun row w => (F w ∧ Outside w.state i) ∧
        ∀ live, row = some live → live.token ∈ tokens) w := by
  refine transaction_result (K := fun _ => OffLedger i) hF (fun _ => OffLedger.stable)
    (fun w hf hd => ?_) (fun _ w _ _ _ _ hk => hk.change) h hout
  have hE : ∀ (_ : SqlError) w w', Rely steady i w w' → Inv C steady w' → F w → F w' :=
    fun _ _ _ hr _ => hF.rely hr
  have htake : Safely cfg hC strict steady i
      (stmt id (perform (.takeLock e tokens)) : Proc SqlError Unit) (fun _ => F)
      (fun _ w => F w ∧ During w.state i (Fresh i w.state)) w := by
    refine stmt_during (o := .takeLock e tokens) (g := fun r => r) (fun _ => Fresh i) hF.toFrame
      Fresh.stable (fun _ => Fresh.stable) rfl trivial answer_lost
      (fun _ _ _ hd => hd.mono fun _ => trivial) (fun w c r s' _ _ _ hk hx hne => ?_) hf hd
    obtain ⟨-, hx⟩ := answer_eq hne hx
    exact takeLock_fresh hx hk
  refine SafeX.seq hE htake fun _ w₁ _ hw₁ => ?_
  refine SafeX.seq hE (timestamp_safe hF.toFrame (during_settled Fresh.stable) hw₁.1 hw₁.2)
    fun (now : ℤ) w₂ _ hw₂ => ?_
  refine stmt_during_frame (o := .extendLock e tokens keep seconds now) (g := fun r => r)
    (fun r w => F w ∧ ∀ row live, r = .ok row → row = some live → live.token ∈ tokens)
    (fun _ => OffLedger i) hF.toFrame.and_clock
    (fun r => (hF.and_pure _).toFrame) Fresh.stable (fun _ => OffLedger.stable) rfl trivial
    answer_lost (fun w _ hf hd => hd.mono fun hk => ⟨hscope hf.1, hf.2, hk.held⟩) ?_
    (fun row w _ hf hd => ⟨⟨hf.1, fun _ => hd⟩, fun live hl => hf.2 row live rfl hl⟩) ?_ hw₂.1 hw₂.2
  · intro w c r s' _ hf hf' _ hk hx hne
    obtain ⟨-, hx⟩ := answer_eq hne hx
    obtain ⟨⟨entryLocks, rfl⟩, htoken⟩ := extendLock_eq hx
    refine ⟨⟨hf'.1, fun row live hr hl => htoken live ?_⟩, hk.users, hk.entries, hk.events⟩
    rw [← hl]
    exact hr
  · rintro err w _ (⟨-, hf⟩ | ⟨hf, -⟩)
    · exact hf.1
    · exact hf.1

/-! ## Authorization -/

/-- Operations that only look something up; a write issues them before it knows about locks. -/
def Op.LooksUp : Op → Prop
  | .getUser _ | .getEntry _ => True
  | _ => False

/-- A program that only looks something up. -/
theorem looksUp_safe {p : Proc ε α} {R : Wld → Prop} (hp : p.run.Uses Op.LooksUp)
    (hR : ∀ {w w'}, Rely steady i w w' → R w → R w') (h : R w) :
    Safely cfg hC strict steady i p (fun _ => R) (fun _ => R) w := by
  refine SafeX.of_uses hp (fun _ _ hr => hR hr) (fun o w ho hi hw => ?_) h
  cases o with
  | getUser key =>
    refine ⟨⟨.inl trivial, trivial⟩, fun c r s _ hx => ?_⟩
    obtain rfl := reads_state (x := w.state.getUser C i key) hx
    exact hw
  | getEntry path =>
    refine ⟨⟨.inl trivial, trivial⟩, fun c r s _ hx => ?_⟩
    obtain rfl := reads_state (x := w.state.getEntry C i path) hx
    exact hw
  | _ => exact ho.elim

/-- Request `r` is the call `i`, and its session may write its file `e`, whose owner exists. -/
structure Authorized (C : StorageCrates) (i : ℕ) (r : Request) (e : EntryPath) (w : Wld) :
    Prop where
  runs : IsCall i (.request r) w
  entitles : r.Entitles C e
  file : e.path.isFile = true
  user : ∃ row ∈ w.state.users.rows, row.publicKey = C.z32 e.pubkey

theorem Authorized.rely (hr : Rely steady i w w') (h : Authorized C i r e w) :
    Authorized C i r e w' :=
  { h with runs := h.runs.rely hr, user := exists_user_mono hr.grows h.user }

theorem Authorized.scope (h : Authorized C i r e w) : InScope C w.hist i e :=
  ⟨.request r, h.runs.mem, h.entitles⟩

theorem Authorized.outer (hcall : ¬ (Call.request r).Tokenless) :
    Outer C steady i (Authorized C i r e) where
  rely := fun hr h => h.rely hr
  own := fun hg _ h => { h with
    runs := ⟨h.runs.mem, h.runs.unique⟩
    user := exists_user_mono hg h.user }
  unlocked := fun h r' hr hw ht => absurd ⟨r', (h.runs.unique _ hr).symm, hw, ht⟩ hcall
  grows := fun hg h => { h with
    runs := ⟨h.runs.mem, h.runs.unique⟩
    user := exists_user_mono hg h.user }

theorem getOrHttpError_safe {key : PublicKey} {errIfDisabled : Bool} {R : Wld → Prop}
    (hR : ∀ {w w'}, Rely steady i w w' → R w → R w') (h : R w) (hout : Outside w.state i) :
    Safely cfg hC strict steady i (getOrHttpError key errIfDisabled) (fun _ _ => True)
      (fun _ w => (R w ∧ ∃ row ∈ w.state.users.rows, row.publicKey = C.z32 key) ∧
        Outside w.state i) w := by
  have hstable : ∀ {w w'}, Rely steady i w w' →
      (R w ∧ ∃ row ∈ w.state.users.rows, row.publicKey = C.z32 key) ∧ Outside w.state i →
      (R w' ∧ ∃ row ∈ w'.state.users.rows, row.publicKey = C.z32 key) ∧ Outside w'.state i :=
    fun hr hw => ⟨⟨hR hr hw.1.1, exists_user_mono hr.grows hw.1.2⟩, hw.2.rely hr⟩
  refine SafeX.seq (fun _ _ _ _ _ _ => trivial) (SafeX.stmt
    (Q := fun _ w => (R w ∧ ∃ row ∈ w.state.users.rows, row.publicKey = C.z32 key) ∧
      Outside w.state i) (o := Op.getUser key) (g := fun r => r) rfl fun w₁ hr₁ hi₁ => ?_)
    fun user w₂ _ hw₂ => ?_
  · have hout₁ := hout.rely hr₁
    refine ⟨⟨.inl trivial, trivial⟩, fun c r s _ hx w₂ hr₂ _ => ⟨fun user hr => ?_,
      fun _ _ => trivial⟩⟩
    subst hr
    obtain ⟨-, heq, rfl⟩ := reads_eq (x := w₁.state.getUser C i key) (by simp) hx
    refine hstable hr₂ ⟨⟨hR hr₁ h, ?_⟩, hout₁⟩
    rw [State.getUser, Table.view_of_writesOf_eq_nil (hi₁.idle i hout₁.dead).users] at heq
    obtain ⟨row, hrow, -⟩ := Except.bind_ok_iff.1 heq
    cases hfound : lookup w₁.state.users.rows (C.z32 key) with
    | none => simp [hfound, found] at hrow
    | some row =>
      obtain ⟨hmem, hkey⟩ := lookup_eq_some hfound
      exact ⟨row, hmem, hkey⟩
  · refine SafeX.seq (fun _ _ _ _ _ _ => trivial) (SafeX.mono (require_safe hstable hw₂)
      (fun _ _ _ _ => trivial) fun _ _ _ hw => hw.2) fun _ w₃ _ hw₃ => ?_
    exact SafeX.pure fun w' hr _ => hstable hr hw₃

theorem authorizeWrite_safe {session : AuthSession} {mustBeEnabled : Bool}
    (htarget : r.target C = .ok e) (hsession : r.session = some session)
    (h : IsCall i (.request r) w) (hout : Outside w.state i) :
    Safely cfg hC strict steady i (authorizeWrite session e mustBeEnabled) (fun _ _ => True)
      (fun _ w => Authorized C i r e w ∧ Outside w.state i) w := by
  have hE : ∀ (_ : HttpError) w w', Rely steady i w w' → Inv C steady w' → True → True :=
    fun _ _ _ _ _ _ => trivial
  refine SafeX.seq hE (SafeX.mono (require_safe (A := fun w => IsCall i (.request r) w ∧
    Outside w.state i) (fun hr hA => ⟨hA.1.rely hr, hA.2.rely hr⟩) ⟨h, hout⟩)
    (fun _ _ _ _ => trivial) fun _ _ _ hq => hq) fun _ w₁ _ hw₁ => ?_
  obtain ⟨hfile, h₁, hout₁⟩ := hw₁
  refine SafeX.seq hE (SafeX.check (Q := fun _ w =>
    hasWritePermission session e.pubkey e.path = .ok () ∧ IsCall i (.request r) w ∧
      Outside w.state i) (fun _ hp w' hr _ => ⟨hp, h₁.rely hr, hout₁.rely hr⟩)
    fun _ _ _ _ _ => trivial) fun _ w₂ _ hw₂ => ?_
  obtain ⟨hperm, h₂, hout₂⟩ := hw₂
  obtain ⟨hroot, hent⟩ := hasWritePermission_eq_ok.1 hperm
  refine SafeX.mono (getOrHttpError_safe (R := IsCall i (.request r)) (fun hr hw => hw.rely hr) h₂
    hout₂) (fun _ _ _ _ => trivial) fun _ w _ hw => ⟨?_, hw.2⟩
  exact ⟨hw.1.1, ⟨htarget, hroot, session, hsession, hent⟩, hfile, hw.1.2⟩

/-! ## Writes under a lock -/

/-- What a write knows after the check of its lock. -/
theorem Authorized.ctx (h : Authorized C i r e w) (hunlocked : Unlocked C w.hist w.state.unlocked i)
    (htoken : r.tokens ≠ [] → ∃ t ∈ r.tokens, token = some t) : Ctx C steady i e token w where
  scope := h.scope
  unlocked := hunlocked
  covers := by
    intro r' hr' _ htokens
    obtain rfl := Call.request.inj (h.runs.unique _ hr')
    exact ⟨h.entitles.target, htoken htokens⟩
  user := fun _ => h.user

theorem getActiveLock_eq {c : Choice} (h : exec cfg C i (.getActiveLock e) c s = some (.ok none, s')) :
    s' = { s with unlocked := (i, e.asStr C) :: s.unlocked } := by
  obtain ⟨-, h⟩ := answer_eq (by simp) h
  obtain ⟨hlock, rfl⟩ := Prod.mk.inj (Option.some.inj h)
  rw [Except.ok.inj hlock]
  rfl

/-- A write that presents no token goes on only if its file has no live lock. -/
theorem getActiveLock_safe (htokens : r.tokens = []) (h : Authorized C i r e w)
    (hout : Outside w.state i) :
    Safely cfg hC strict steady i (stmt HttpError.ofSql (perform (.getActiveLock e)))
      (fun _ _ => True) (fun row w => row = none →
        Ctx C steady i e none w ∧ Outside w.state i) w := by
  refine SafeX.stmt (o := Op.getActiveLock e) (g := fun r => r) rfl fun w₁ hr₁ _ => ?_
  have h₁ := h.rely hr₁
  have hout₁ : Outside w₁.state i := hout.rely hr₁
  refine ⟨⟨.inl trivial, hout₁⟩, fun c x s _ hx w₂ hr₂ _ => ⟨fun row hx' hnone => ?_,
    fun _ _ => trivial⟩⟩
  subst hx' hnone
  have hx : exec cfg C i (.getActiveLock e) c w₁.state = some (.ok none, s) := hx
  obtain rfl := getActiveLock_eq hx
  have hunlocked : Unlocked C w₁.hist ((i, e.asStr C) :: w₁.state.unlocked) i := by
    intro r' hr' _ _
    obtain rfl := Call.request.inj (h₁.runs.unique _ hr')
    exact ⟨e, h.entitles.target, List.mem_cons_self⟩
  have hauth : Authorized C i r e (w₁.setState { w₁.state with
      unlocked := (i, e.asStr C) :: w₁.state.unlocked }) :=
    { h₁ with runs := ⟨h₁.runs.mem, h₁.runs.unique⟩ }
  exact ⟨Ctx.outer.rely hr₂ (hauth.ctx hunlocked fun hne => absurd htokens hne),
    Outside.rely hr₂ hout₁⟩

/-- The task that keeps the lock of a write alive. -/
theorem spawnKeepAlive_safe {t : Text} {E : ε → Wld → Prop} (hF : Frame C steady i F)
    (hscope : ∀ {w}, F w → InScope C w.hist i e) (h : F w) (hout : Outside w.state i) :
    Safely cfg hC strict steady i (always (perform (.spawnKeepAlive e t))) E
      (fun _ w => F w ∧ Outside w.state i) w := by
  refine SafeX.always (o := Op.spawnKeepAlive e t) (g := fun r => r) rfl fun w₁ hr₁ _ => ?_
  have h₁ := hF.rely_outside hr₁ ⟨h, hout⟩
  refine ⟨⟨.inr (hF.unlocked h₁.1), hscope h₁.1⟩, fun c r s _ hx w₂ hr₂ _ => ?_⟩
  cases hx
  have hgrows : Grows w₁.state { w₁.state with
      keepAlives := ⟨i, e, t⟩ :: w₁.state.keepAlives } := { Grows.refl w₁.state with }
  exact hF.rely_outside hr₂ ⟨hF.own hgrows rfl h₁.1, h₁.2⟩

theorem checkLock_safe (h : Authorized C i r e w) (hout : Outside w.state i) :
    Safely cfg hC strict steady i (checkLock e r.head.headers) (fun _ _ => True)
      (fun token w => Ctx C steady i e token w ∧ Outside w.state i) w := by
  have hE : ∀ (_ : HttpError) w w', Rely steady i w w' → Inv C steady w' → True → True :=
    fun _ _ _ _ _ _ => trivial
  unfold checkLock
  by_cases htokens : ifHeaderTokens r.head.headers = []
  · rw [if_pos htokens]
    refine SafeX.seq hE (getActiveLock_safe htokens h hout) fun row w₁ _ hw₁ => ?_
    cases row with
    | none =>
      exact SafeX.pure fun w' hr _ => ⟨Ctx.outer.rely hr (hw₁ rfl).1, (hw₁ rfl).2.rely hr⟩
    | some _ => exact SafeX.throw fun _ _ _ => trivial
  · rw [if_neg htokens]
    have hF : Outer C steady i (Authorized C i r e) := by
      refine Authorized.outer ?_
      rintro ⟨r', heq, -, hnil⟩
      obtain rfl := Call.request.inj heq
      exact htokens hnil
    refine SafeX.seq hE (SafeX.mapErr (SafeX.mono (setExpiryOfLiveLock_safe hF Authorized.scope h
      hout) (fun _ _ _ _ => trivial) fun _ _ _ hq => hq)) fun row w₁ _ hw₁ => ?_
    obtain ⟨hw₁, htoken⟩ := hw₁
    cases row with
    | none => exact SafeX.throw fun _ _ _ => trivial
    | some live =>
      refine SafeX.seq hE (spawnKeepAlive_safe hF.toFrame Authorized.scope hw₁.1 hw₁.2)
        fun _ w₂ _ hw₂ => SafeX.pure fun w' hr _ => ?_
      have hw' := hF.rely_outside hr hw₂
      exact ⟨hw'.1.ctx (hF.unlocked hw'.1) fun _ => ⟨live.token, htoken live rfl, rfl⟩, hw'.2⟩

/-- A write runs under the lock that was checked. -/
theorem withWriteLock_safe {write : Option Text → Proc FileIoError Unit}
    (hwrite : ∀ token w, Ctx C steady i e token w → Outside w.state i →
      Safely cfg hC strict steady i (write token)
        (fun _ w => Ctx C steady i e token w ∧ Outside w.state i)
        (fun _ w => Ctx C steady i e token w ∧ Outside w.state i) w)
    (h : Authorized C i r e w) (hout : Outside w.state i) :
    Safely cfg hC strict steady i (withWriteLock e r.head.headers write) (fun _ _ => True)
      (fun _ _ => True) w := by
  have hE : ∀ (_ : HttpError) w w', Rely steady i w w' → Inv C steady w' → True → True :=
    fun _ _ _ _ _ _ => trivial
  refine SafeX.seq hE (checkLock_safe h hout) fun token w₁ _ hw₁ => ?_
  refine SafeX.seq hE (SafeX.attempt (hwrite token w₁ hw₁.1 hw₁.2)) fun result w₂ _ hw₂ => ?_
  have hctx : Ctx C steady i e token w₂ ∧ Outside w₂.state i := by
    cases result with
    | ok _ => exact hw₂
    | error _ => exact hw₂
  refine SafeX.seq hE (SafeX.mono (plain_outside_safe Ctx.outer.toFrame
    (uses_always (Prog.uses_perform.2 trivial)) hctx.1 hctx.2) (fun _ _ _ _ => trivial)
    fun _ _ _ hq => hq) fun _ w₃ _ _ => ?_
  exact SafeX.check (fun _ _ _ _ _ => trivial) fun _ _ _ _ _ => trivial

/-- The key of a request's file is read as this file. -/
theorem parseOpendal_asStr (hC : C.Lawful) (hfile : e.path.isFile = true) {e' : EntryPath}
    (h : parseOpendal C (C.normalizePath (e.asStr C)) = .ok e') : e' = e := by
  rw [EntryPath.normalizePath_asStr hC e hfile, parseOpendal, EntryPath.fromStr_asStr hC] at h
  exact (Except.ok.inj h).symm

theorem fileWriteStream_safe {body : List (Option Bytes)} (hfile : e.path.isFile = true)
    (h : Ctx C steady i e token w) (hout : Outside w.state i) :
    Safely cfg hC strict steady i (fileWriteStream cfg C e body token)
      (fun _ w => Ctx C steady i e token w ∧ Outside w.state i)
      (fun _ w => Ctx C steady i e token w ∧ Outside w.state i) w := by
  have hF : Outer C steady i (Ctx C steady i e token) := Ctx.outer
  refine SafeX.seq (fun _ _ _ hr _ => hF.rely_outside hr) (writeStream_safe hF (fun hf e' he' => ?_)
    (fun _ => rfl) h hout) fun _ w₁ _ hw₁ => ?_
  · rwa [parseOpendal_asStr hC hfile he']
  · exact plain_outside_safe hF.toFrame (uses_bind (uses_stmt (Prog.uses_perform.2 trivial))
      fun _ => uses_pure _) hw₁.1 hw₁.2

theorem fileDelete_safe (hfile : e.path.isFile = true) (h : Ctx C steady i e token w)
    (hout : Outside w.state i) :
    Safely cfg hC strict steady i (fileDelete cfg C e token)
      (fun _ w => Ctx C steady i e token w ∧ Outside w.state i)
      (fun _ w => Ctx C steady i e token w ∧ Outside w.state i) w := by
  have hF : Outer C steady i (Ctx C steady i e token) := Ctx.outer
  refine SafeX.seq (fun _ _ _ hr _ => hF.rely_outside hr) (plain_outside_safe hF.toFrame
    (uses_stmt (Prog.uses_perform.2 trivial)) h hout) fun _ w₁ _ hw₁ => ?_
  refine SafeX.mapErr (deleteAll_safe hF (fun hf key hkey e' he' => ?_) hw₁.1 hw₁.2)
  rw [List.mem_singleton.1 hkey] at he'
  rwa [parseOpendal_asStr hC hfile he']

/-! ## Handlers -/

theorem failIfSizeHintExceedsQuota_uses {hint : Option UInt64} {user : UserEntity} :
    (failIfSizeHintExceedsQuota cfg hint user e).run.Uses Op.LooksUp := by
  cases hint with
  | none => exact uses_pure _
  | some hint =>
    exact uses_bind (uses_attempt (uses_stmt (Prog.uses_perform.2 trivial))) fun _ => uses_check

section

variable {session : AuthSession}

theorem put_safe (htarget : r.target C = .ok e) (hsession : r.session = some session)
    (h : IsCall i (.request r) w) (hout : Outside w.state i) :
    Safely cfg hC strict steady i (put cfg C session e r.head.headers r.body) (fun _ _ => True)
      (fun _ _ => True) w := by
  have hE : ∀ (_ : HttpError) w w', Rely steady i w w' → Inv C steady w' → True → True :=
    fun _ _ _ _ _ _ => trivial
  refine SafeX.seq hE (authorizeWrite_safe htarget hsession h hout) fun user w₁ _ hw₁ => ?_
  refine SafeX.seq hE (SafeX.mono (looksUp_safe (R := fun w => Authorized C i r e w ∧
    Outside w.state i) failIfSizeHintExceedsQuota_uses
    (fun hr hw => ⟨hw.1.rely hr, hw.2.rely hr⟩) hw₁) (fun _ _ _ _ => trivial)
    fun _ _ _ hq => hq) fun _ w₂ _ hw₂ => ?_
  refine SafeX.seq hE (withWriteLock_safe (fun token w hc ho =>
    fileWriteStream_safe hw₂.1.file hc ho) hw₂.1 hw₂.2) fun _ _ _ _ => ?_
  exact SafeX.pure fun _ _ _ => trivial

theorem delete_safe (htarget : r.target C = .ok e) (hsession : r.session = some session)
    (h : IsCall i (.request r) w) (hout : Outside w.state i) :
    Safely cfg hC strict steady i (delete cfg C session e r.head.headers) (fun _ _ => True)
      (fun _ _ => True) w := by
  have hE : ∀ (_ : HttpError) w w', Rely steady i w w' → Inv C steady w' → True → True :=
    fun _ _ _ _ _ _ => trivial
  refine SafeX.seq hE (authorizeWrite_safe htarget hsession h hout) fun _ w₁ _ hw₁ => ?_
  refine SafeX.seq hE (withWriteLock_safe (fun token w hc ho =>
    fileDelete_safe hw₁.1.file hc ho) hw₁.1 hw₁.2) fun _ _ _ _ => ?_
  exact SafeX.pure fun _ _ _ => trivial

end

/-- A new lock, after expired ones have been swept. -/
theorem createLock_safe {lifetime : ℤ} (hF : Outer C steady i F)
    (hscope : ∀ {w}, F w → InScope C w.hist i e) (h : F w) (hout : Outside w.state i) :
    Safely cfg hC strict steady i (createLock e lifetime) (fun _ _ => True) (fun _ _ => True) w := by
  have hE : ∀ (_ : HttpError) w w', Rely steady i w w' → Inv C steady w' → True → True :=
    fun _ _ _ _ _ _ => trivial
  refine SafeX.seq hE (SafeX.mono (plain_outside_safe hF.toFrame (uses_always
    (Prog.uses_perform.2 trivial)) h hout) (fun _ _ _ _ => trivial) fun _ _ _ hq => hq)
    fun token w₁ _ hw₁ => ?_
  refine SafeX.seq hE (timestamp_safe hF.toFrame outside_settled hw₁.1 hw₁.2)
    fun (now : ℤ) w₂ _ hw₂ => ?_
  refine SafeX.seq hE (SafeX.mono (stmt_outside_safe (o := .deleteExpiredLocks now)
    (g := fun r => r) hF.toFrame.and_clock rfl trivial (fun w hf ho => ⟨ho, hf.2⟩) hw₂.1 hw₂.2)
    (fun _ _ _ _ => trivial) fun _ _ _ hq => hq) fun _ w₃ _ hw₃ => ?_
  refine SafeX.seq hE (timestamp_safe hF.toFrame outside_settled hw₃.1.1 hw₃.2)
    fun (now : ℤ) w₄ _ hw₄ => ?_
  refine SafeX.seq hE (SafeX.mono (stmt_outside_safe (o := .acquireLock e token lifetime now)
    (g := fun r => r) hF.toFrame.and_clock rfl trivial
    (fun w hf ho => ⟨ho, hscope hf.1, hf.2⟩) hw₄.1 hw₄.2) (fun _ _ _ _ => trivial)
    fun _ _ _ hq => hq) fun _ _ _ _ => ?_
  exact SafeX.check (fun _ _ _ _ _ => trivial) fun _ _ _ _ _ => trivial

/-- Go on with the session of the request, if it has one. -/
theorem session_safe {session : Option AuthSession} {k : AuthSession → Proc HttpError Response}
    (hk : ∀ s w, session = some s → IsCall i call w → Outside w.state i →
      Safely cfg hC strict steady i (k s) (fun _ _ => True) (fun _ _ => True) w)
    (h : IsCall i call w) (hout : Outside w.state i) :
    Safely cfg hC strict steady i (check id (session.okOr .unauthorized) >>= k)
      (fun _ _ => True) (fun _ _ => True) w := by
  refine SafeX.seq (fun _ _ _ _ _ _ => trivial) (SafeX.check (Q := fun s w =>
    session = some s ∧ IsCall i call w ∧ Outside w.state i)
    (fun s hs w' hr _ => ⟨Option.okOr_eq_ok.1 hs, h.rely hr, hout.rely hr⟩)
    fun _ _ _ _ _ => trivial) fun s w₁ _ hw₁ => hk s w₁ hw₁.1 hw₁.2.1 hw₁.2.2

theorem lock_safe {lockRoot : Text} (hmethod : ¬ r.IsWrite) (htarget : r.target C = .ok e)
    (h : IsCall i (.request r) w) (hout : Outside w.state i) :
    Safely cfg hC strict steady i (lock r.session e lockRoot r.head.headers r.body)
      (fun _ _ => True) (fun _ _ => True) w := by
  have hE : ∀ (_ : HttpError) w w', Rely steady i w w' → Inv C steady w' → True → True :=
    fun _ _ _ _ _ _ => trivial
  have hF : Outer C steady i (Authorized C i r e) := by
    refine Authorized.outer ?_
    rintro ⟨r', heq, hw, -⟩
    obtain rfl := Call.request.inj heq
    exact hmethod hw
  refine session_safe (fun session w₁ hsession h₁ hout₁ => ?_) h hout
  refine SafeX.seq hE (authorizeWrite_safe htarget hsession h₁ hout₁) fun _ w₂ _ hw₂ => ?_
  show Safely cfg hC strict steady i (if ifHeaderTokens r.head.headers = [] then _ else _) _ _ w₂
  by_cases hpresented : ifHeaderTokens r.head.headers = []
  · rw [if_pos hpresented]
    refine SafeX.seq hE (SafeX.check (Q := fun _ w => Authorized C i r e w ∧ Outside w.state i)
      (fun _ _ w' hr _ => hF.rely_outside hr hw₂) fun _ _ _ _ _ => trivial) fun _ w₃ _ hw₃ => ?_
    refine SafeX.seq hE (createLock_safe hF Authorized.scope hw₃.1 hw₃.2) fun _ _ _ _ => ?_
    exact SafeX.pure fun _ _ _ => trivial
  · rw [if_neg hpresented]
    refine SafeX.seq hE (SafeX.mapErr (SafeX.mono (setExpiryOfLiveLock_safe hF Authorized.scope
      hw₂.1 hw₂.2) (fun _ _ _ _ => trivial) fun _ _ _ hq => hq)) fun _ _ _ _ => ?_
    refine SafeX.seq hE (SafeX.check (Q := fun _ _ => True) (fun _ _ _ _ _ => trivial)
      fun _ _ _ _ _ => trivial) fun _ _ _ _ => ?_
    exact SafeX.pure fun _ _ _ => trivial

theorem unlock_safe (hmethod : ¬ r.IsWrite) (htarget : r.target C = .ok e)
    (h : IsCall i (.request r) w) (hout : Outside w.state i) :
    Safely cfg hC strict steady i (unlock r.session e r.head.headers) (fun _ _ => True)
      (fun _ _ => True) w := by
  have hE : ∀ (_ : HttpError) w w', Rely steady i w w' → Inv C steady w' → True → True :=
    fun _ _ _ _ _ _ => trivial
  have hF : Outer C steady i (Authorized C i r e) := by
    refine Authorized.outer ?_
    rintro ⟨r', heq, hw, -⟩
    obtain rfl := Call.request.inj heq
    exact hmethod hw
  refine session_safe (fun session w₁ hsession h₁ hout₁ => ?_) h hout
  refine SafeX.seq hE (authorizeWrite_safe htarget hsession h₁ hout₁) fun _ w₂ _ hw₂ => ?_
  refine SafeX.seq hE (SafeX.check (Q := fun _ w => Authorized C i r e w ∧ Outside w.state i)
    (fun _ _ w' hr _ => hF.rely_outside hr hw₂) fun _ _ _ _ _ => trivial) fun token w₃ _ hw₃ => ?_
  refine SafeX.seq hE (SafeX.mono (stmt_outside_safe (o := .releaseLock e token)
    (g := fun r => r) hF.toFrame rfl trivial (fun w hf ho => ⟨ho, hf.scope⟩) hw₃.1 hw₃.2)
    (fun _ _ _ _ => trivial) fun _ _ _ hq => hq) fun released w₄ _ _ => ?_
  refine SafeX.seq hE (SafeX.check (Q := fun _ _ => True) (fun _ _ _ _ _ => trivial)
    fun _ _ _ _ _ => trivial) fun _ _ _ _ => ?_
  exact SafeX.pure fun _ _ _ => trivial

theorem Request.target_eq {tenant : Option RequestTenant} {route : Route}
    (htenant : RequestTenant.fromRequest C r.head = .ok tenant)
    (hroute : (matchRoute r.head.rawPath).okOr HttpError.notFound = .ok route)
    (htarget : routeTarget C tenant route = .ok e) : r.target C = .ok e := by
  rw [Request.target, htenant, hroute]
  exact htarget

theorem handle_safe (h : IsCall i (.request r) w) (hout : Outside w.state i) :
    Safely cfg hC strict steady i (handle cfg C r) (fun _ _ => True) (fun _ _ => True) w := by
  have hE : ∀ (_ : HttpError) w w', Rely steady i w w' → Inv C steady w' → True → True :=
    fun _ _ _ _ _ _ => trivial
  have hcheck : ∀ {ε' β : Type} {f : ε' → HttpError} {x : Except ε' β}
      {k : β → Proc HttpError Response} {w : Wld}, IsCall i (.request r) w → Outside w.state i →
      (∀ b w, x = .ok b → IsCall i (.request r) w → Outside w.state i →
        Safely cfg hC strict steady i (k b) (fun _ _ => True) (fun _ _ => True) w) →
      Safely cfg hC strict steady i (check f x >>= k) (fun _ _ => True) (fun _ _ => True) w := by
    intro ε' β f x k w hw ho hk
    refine SafeX.seq hE (SafeX.check (Q := fun b w => x = .ok b ∧ IsCall i (.request r) w ∧
      Outside w.state i) (fun b hb w' hr _ => ⟨hb, hw.rely hr, ho.rely hr⟩)
      fun _ _ _ _ _ => trivial) fun b w₁ _ hw₁ => hk b w₁ hw₁.1 hw₁.2.1 hw₁.2.2
  refine hcheck h hout fun tenant w₁ htenant h₁ hout₁ => ?_
  refine hcheck h₁ hout₁ fun route w₂ hroute h₂ hout₂ => ?_
  cases hm : r.method with
  | put =>
    refine session_safe (fun session w₃ hsession h₃ hout₃ => ?_) h₂ hout₂
    exact hcheck h₃ hout₃ fun e w₄ he h₄ hout₄ =>
      put_safe (Request.target_eq htenant hroute he) hsession h₄ hout₄
  | delete =>
    refine session_safe (fun session w₃ hsession h₃ hout₃ => ?_) h₂ hout₂
    exact hcheck h₃ hout₃ fun e w₄ he h₄ hout₄ =>
      delete_safe (Request.target_eq htenant hroute he) hsession h₄ hout₄
  | lock =>
    have hmethod : ¬ r.IsWrite := by simp [Request.IsWrite, hm]
    cases route with
    | legacy matched => exact SafeX.throw fun _ _ _ => trivial
    | storage =>
      exact hcheck h₂ hout₂ fun e w₃ he h₃ hout₃ =>
        lock_safe hmethod (Request.target_eq htenant hroute he) h₃ hout₃
  | unlock =>
    have hmethod : ¬ r.IsWrite := by simp [Request.IsWrite, hm]
    cases route with
    | legacy matched => exact SafeX.throw fun _ _ _ => trivial
    | storage =>
      exact hcheck h₂ hout₂ fun e w₃ he h₃ hout₃ =>
        unlock_safe hmethod (Request.target_eq htenant hroute he) h₃ hout₃
  | other =>
    cases route with
    | legacy matched => exact SafeX.throw fun _ _ _ => trivial
    | storage => exact hcheck h₂ hout₂ fun _ _ _ _ _ => SafeX.pure fun _ _ _ => trivial

/-! ## Other calls -/

theorem not_tokenless (hcall : ∀ r, call ≠ .request r) : ¬ call.Tokenless := by
  rintro ⟨r, rfl, -⟩
  exact hcall r rfl

theorem keepAliveRound_safe {parent : ℕ} {t : Text} (h : IsCall i (.keepAlive parent e t) w)
    (hout : Outside w.state i) :
    Safely cfg hC strict steady i (keepAliveRound parent e t) (fun _ _ => True)
      (fun _ _ => True) w := by
  have hF : Outer C steady i (IsCall i (.keepAlive parent e t)) := IsCall.outer (not_tokenless nofun)
  refine SafeX.seq (fun _ _ _ _ _ _ => trivial) (SafeX.mono (setExpiryOfLiveLock_safe hF
    (fun hf => ⟨_, hf.mem, rfl⟩) h hout) (fun _ _ _ _ => trivial) fun _ _ _ hq => hq)
    fun row w₁ _ hw₁ => ?_
  cases row with
  | some _ => exact SafeX.pure fun _ _ _ => trivial
  | none =>
    exact SafeX.mono (plain_outside_safe hF.toFrame (uses_always (Prog.uses_perform.2 trivial))
      hw₁.1.1 hw₁.1.2) (fun _ _ _ _ => trivial) fun _ _ _ _ => trivial

/-- Call `i` is an operation on one of the storage operators; in a steady run the owners of its
files exist. -/
structure Operating (C : StorageCrates) (steady : Prop) (i : ℕ) (access : Access)
    (operation : Operation) (w : Wld) : Prop where
  runs : IsCall i (.operate access operation) w
  users : steady → ∀ key ∈ operation.keys, ∀ e, parseOpendal C (C.normalizePath key) = .ok e →
    ∃ row ∈ w.state.users.rows, row.publicKey = C.z32 e.pubkey

section

variable {access : Access} {operation : Operation}

theorem Operating.outer : Outer C steady i (Operating C steady i access operation) where
  rely := fun hr h => ⟨h.runs.rely hr, fun hs key hk e he =>
    exists_user_mono hr.grows (h.users hs key hk e he)⟩
  own := fun hg _ h => ⟨⟨h.runs.mem, h.runs.unique⟩, fun hs key hk e he =>
    exists_user_mono hg (h.users hs key hk e he)⟩
  unlocked := fun h r hr => by cases h.runs.unique _ hr
  grows := fun hg h => ⟨⟨h.runs.mem, h.runs.unique⟩, fun hs key hk e he =>
    exists_user_mono hg (h.users hs key hk e he)⟩

theorem Operating.ctx (h : Operating C steady i access operation w) {key : Text}
    (hkey : key ∈ operation.keys) (he : parseOpendal C (C.normalizePath key) = .ok e) :
    Ctx C steady i e none w where
  scope := ⟨_, h.runs.mem, trivial⟩
  unlocked := Operating.outer.unlocked h
  covers := fun r hr => by cases h.runs.unique _ hr
  user := fun hs => h.users hs key hkey e he

/-- Copying and renaming on the backend are no part of steady runs. -/
theorem backend_safe {p : Prog Op Op.Res (Except OpendalError Unit)}
    {g : o.Res → Except OpendalError Unit} (hp : p = .op o fun r => .ret (g r))
    (ho : o.IsStatement) (hpre : ∀ w, ¬ steady → Outside w.state i →
      (∃ access operation, .call i (.operate access operation) ∈ w.hist) →
        OpPre cfg C strict steady i w o)
    (hsteady : ¬ steady) (h : Operating C steady i access operation w)
    (hout : Outside w.state i) :
    Safely cfg hC strict steady i (backend p) (fun _ _ => True) (fun _ _ => True) w := by
  refine SafeX.mono (stmt_outside_safe Operating.outer.toFrame hp ho (fun w hf ho =>
    hpre w hsteady ho ⟨_, _, hf.runs.mem⟩) h hout) (fun _ _ _ _ => trivial)
    fun _ _ _ _ => trivial

/-- A step of an operation that issues plain operations only. -/
theorem plain_seq_safe {β : Type} {p : Proc OpendalError α} {k : α → Proc OpendalError β}
    (hp : p.run.Uses Op.Plain) (h : Operating C steady i access operation w)
    (hout : Outside w.state i)
    (hk : ∀ a w, Operating C steady i access operation w → Outside w.state i →
      Safely cfg hC strict steady i (k a) (fun _ _ => True) (fun _ _ => True) w) :
    Safely cfg hC strict steady i (p >>= k) (fun _ _ => True) (fun _ _ => True) w :=
  SafeX.seq (fun _ _ _ _ _ _ => trivial) (SafeX.mono (plain_outside_safe
    Operating.outer.toFrame hp h hout) (fun _ _ _ _ => trivial) fun _ _ _ hq => hq)
    fun a w _ hw => hk a w hw.1 hw.2

theorem copy_safe {source target : Text} (hsteady : ¬ steady)
    (h : Operating C steady i access operation w) (hout : Outside w.state i) :
    Safely cfg hC strict steady i (copy C access source target) (fun _ _ => True)
      (fun _ _ => True) w := by
  refine plain_seq_safe uses_check h hout fun target' w₁ h₁ hout₁ => ?_
  refine plain_seq_safe (onlyApp_uses checkWritePathAllowed_uses) h₁ hout₁ fun _ w₂ h₂ hout₂ => ?_
  refine plain_seq_safe uses_check h₂ hout₂ fun source' w₃ h₃ hout₃ => ?_
  refine plain_seq_safe collisionPreflight_uses h₃ hout₃ fun _ w₄ h₄ hout₄ => ?_
  exact backend_safe (o := .copyBlob (source'.asStr C) (target'.asStr C)) (g := fun r => r) rfl
    trivial (fun _ hs ho hc => ⟨hs, ho, hc⟩) hsteady h₄ hout₄

theorem rename_safe {source target : Text} (hsteady : ¬ steady)
    (h : Operating C steady i access operation w) (hout : Outside w.state i) :
    Safely cfg hC strict steady i (rename C access source target) (fun _ _ => True)
      (fun _ _ => True) w := by
  refine plain_seq_safe uses_check h hout fun source' w₁ h₁ hout₁ => ?_
  refine plain_seq_safe (onlyApp_uses checkWritePathAllowed_uses) h₁ hout₁ fun _ w₂ h₂ hout₂ => ?_
  refine plain_seq_safe uses_check h₂ hout₂ fun target' w₃ h₃ hout₃ => ?_
  refine plain_seq_safe (onlyApp_uses checkWritePathAllowed_uses) h₃ hout₃ fun _ w₄ h₄ hout₄ => ?_
  refine plain_seq_safe collisionPreflight_uses h₄ hout₄ fun _ w₅ h₅ hout₅ => ?_
  exact backend_safe (o := .renameBlob (source'.asStr C) (target'.asStr C)) (g := fun r => r) rfl
    trivial (fun _ hs ho hc => ⟨hs, ho, hc⟩) hsteady h₅ hout₅

theorem createDir_uses {key : Text} : (createDir C access key).run.Uses Op.Plain :=
  uses_bind uses_check fun _ => uses_bind (onlyApp_uses checkWritePathAllowed_uses) fun _ =>
    uses_bind collisionPreflight_uses fun _ => uses_stmt (Prog.uses_perform.2 trivial)

theorem operate_safe (hstrict : strict → access = .app)
    (hplain : steady → match operation with | .write _ _ | .delete _ _ => True | _ => False)
    (h : Operating C steady i access operation w) (hout : Outside w.state i) :
    Safely cfg hC strict steady i (operate cfg C access operation) (fun _ _ => True)
      (fun _ _ => True) w := by
  have hF : Outer C steady i (Operating C steady i access operation) := Operating.outer
  cases operation with
  | write key chunks =>
    exact SafeX.mono (writeStream_safe hF (fun hf e he => hf.ctx List.mem_cons_self he) hstrict h
      hout) (fun _ _ _ _ => trivial) fun _ _ _ _ => trivial
  | delete keys closes =>
    refine SafeX.mapErr (SafeX.mono (deleteRepeatedly_safe hF (fun hf key hkey e he => hf.ctx hkey he) h
      hout) (fun _ _ _ _ => trivial) fun _ _ _ _ => trivial)
  | copy source target => exact SafeX.mapErr (copy_safe (fun hs => hplain hs) h hout)
  | rename source target => exact SafeX.mapErr (rename_safe (fun hs => hplain hs) h hout)
  | createDir key =>
    exact SafeX.mapErr (SafeX.mono (plain_outside_safe hF.toFrame createDir_uses h hout)
      (fun _ _ _ _ => trivial) fun _ _ _ _ => trivial)

end

/-! ### Changes of a user -/

/-- What a transaction of the administrator has written. -/
def Administered (C : StorageCrates) (i : ℕ) (e : EntryPath) (s : State) : Prop :=
  ∃ u disabled quota,
    Base C i e u [.put { u with disabled := disabled, quota := quota }] [] [] s

theorem Administered.stable : Stable steady i (Administered C i e) := by
  rintro s s' hc ⟨u, disabled, quota, h⟩
  exact ⟨u, disabled, quota, (Base.stable (Fact.pure True) s s' hc ⟨h, trivial⟩).1⟩

theorem Administered.change (h : Administered C i e w.state) :
    Change strict w.state.ledger (w.state.ledgerOf i) ∧ HoldsLock C w i := by
  obtain ⟨u, disabled, quota, hb⟩ := h
  refine ⟨?_, fun r _ _ _ hne => absurd hb.entries hne⟩
  have hledger : w.state.ledgerOf i = { w.state.ledger with
      users := Write.apply w.state.users.rows
        (.put { u with disabled := disabled, quota := quota }) } := by
    simp only [State.ledgerOf, Table.view, hb.users, hb.entries, hb.events]
    rfl
  rw [hledger]
  exact .administer u hb.mem disabled quota

/-- A transaction of the administrator locks the row of the user and writes it. -/
theorem administer_safe {key : PublicKey} {change : UserEntity → Proc HttpError Unit}
    (hcall : ∀ r, call ≠ .request r)
    (hchange : ∀ (e : EntryPath) u user w, IsCall i call w → During w.state i
      (Base C i e u [] [] [] w.state ∧ Reads u user) →
      Safely cfg hC strict steady i (change user) (fun _ => IsCall i call)
        (fun _ w => IsCall i call w ∧ During w.state i (Administered C i e w.state)) w)
    (h : IsCall i call w) (hout : Outside w.state i) :
    Safely cfg hC strict steady i
      (inTransaction .ofSql .ofSql (fun _ => true) (do
        let user ← lockUserForUpdate key
        change user)) (fun _ w => IsCall i call w ∧ Outside w.state i)
      (fun _ w => IsCall i call w ∧ Outside w.state i) w := by
  have hF : Outer C steady i (IsCall i call) := IsCall.outer (not_tokenless hcall)
  refine transaction_safe (K := fun _ => Administered C i ⟨key, .root⟩) hF
    (fun _ => Administered.stable) (fun w hf hd => ?_) (fun _ w _ _ _ _ hk => hk.change) h hout
  have hunknown : ∀ {w : Wld}, IsCall i call w → False →
      ∃ r ∈ w.state.users.rows, r.publicKey = C.z32 key := fun _ hno => hno.elim
  refine SafeX.seq (fun _ _ _ hr _ => hF.rely hr) (lockUser_safe (e := ⟨key, .root⟩) hF.toFrame
    hunknown (fun _ _ hf _ => hf) hf hd)
    fun user w₁ _ hw₁ => ?_
  obtain ⟨⟨h₁, -⟩, u, hd₁⟩ := hw₁
  exact SafeX.mono (hchange _ u user w₁ h₁ hd₁) (fun _ _ _ hf => hf)
    fun _ _ _ hw => ⟨hw.1, fun _ => hw.2⟩

theorem setDisabled_safe {key : PublicKey} {disabled : Bool}
    (h : IsCall i (.setDisabled key disabled) w) (hout : Outside w.state i) :
    Safely cfg hC strict steady i (setDisabled key disabled) (fun _ _ => True)
      (fun _ _ => True) w := by
  have hcall : ∀ r, Call.setDisabled key disabled ≠ .request r := nofun
  refine SafeX.mono (administer_safe hcall (fun e u user w hf hd => ?_) h hout)
    (fun _ _ _ _ => trivial) fun _ _ _ _ => trivial
  have hF : Outer C steady i (IsCall i (.setDisabled key disabled)) :=
    IsCall.outer (not_tokenless hcall)
  refine SafeX.seq (fun _ _ _ hr _ => hF.rely hr) (updateUser_safe hF.toFrame
    (Fact.pure (Reads u user)) (fun hf => ⟨_, hf.mem, trivial⟩) (fun hx => hx.id) hf hd)
    fun _ w₁ _ hw₁ => SafeX.pure fun w' hr _ => ⟨hF.rely hr hw₁.1, ?_⟩
  refine During.rely Administered.stable hr (hw₁.2.mono ?_)
  rintro ⟨hb, hreads, -⟩
  refine ⟨u, disabled, u.quota, ?_⟩
  have := hreads.usedBytes
  rw [this] at hb
  exact hb

theorem patchQuota_safe {key : PublicKey} {patch : UserQuota → Except Text UserQuota}
    (h : IsCall i (.patchQuota key patch) w) (hout : Outside w.state i) :
    Safely cfg hC strict steady i (patchQuota key patch) (fun _ _ => True) (fun _ _ => True) w := by
  have hcall : ∀ r, Call.patchQuota key patch ≠ .request r := nofun
  have hF : Outer C steady i (IsCall i (.patchQuota key patch)) :=
    IsCall.outer (not_tokenless hcall)
  refine SafeX.seq (fun _ _ _ _ _ _ => trivial) (SafeX.mono
    (administer_safe hcall (fun e u user w hf hd => ?_) h hout)
    (fun _ _ _ _ => trivial) fun _ _ _ hq => hq) fun _ w₁ _ hw₁ => ?_
  · have hreads : Fact C steady i e u fun _ => Reads u user := Fact.pure _
    refine SafeX.seq (fun _ _ _ hr _ => hF.rely hr) (SafeX.check (Q := fun _ w =>
      IsCall i (.patchQuota key patch) w ∧ During w.state i
        (Base C i e u [] [] [] w.state ∧ Reads u user))
      (fun _ _ w' hr _ => ⟨hF.rely hr hf, hd.rely (Base.stable hreads) hr⟩)
      fun _ _ w' hr _ => hF.rely hr hf) fun quota w₁ _ hw₁ => ?_
    have hexec : ∀ {c s r s'}, exec cfg C i (.setQuota user.id quota) c s = some (r, s') →
        answer c i s (s.updateUserById C i user.id fun r => { r with quota := quota }) =
          some (r, s') := fun hx => hx
    refine SafeX.seq (fun _ _ _ hr _ => hF.rely hr) (writeUser_safe (o := .setQuota user.id quota)
      (g := fun r => r) rfl trivial hexec id hF.toFrame hreads (fun hf => ⟨_, hf.mem, trivial⟩)
      (fun hx => hx.id) hw₁.1 hw₁.2)
      fun _ w₂ _ hw₂ => SafeX.pure fun w' hr _ => ⟨hF.rely hr hw₂.1, ?_⟩
    refine During.rely Administered.stable hr (hw₂.2.mono ?_)
    rintro ⟨hb, -⟩
    exact ⟨u, u.disabled, quota, hb⟩
  · exact SafeX.mono (plain_outside_safe hF.toFrame (uses_always (Prog.uses_perform.2 trivial))
      hw₁.1 hw₁.2) (fun _ _ _ _ => trivial) fun _ _ _ _ => trivial

/-! ## All calls -/

/-- The result of a call is reported as it is. -/
theorem safe_answer {p : Proc ε α} {f : Except ε α → Out}
    (h : Safely cfg hC strict steady i p (fun _ _ => True) (fun _ _ => True) w) :
    (storageLogic cfg hC strict steady).Safe i (p.run >>= fun a => .ret (f a))
      (fun _ _ => True) w :=
  Safe.map (Safe.mono h fun _ _ _ _ => trivial)

theorem storageLogic_callSafe : (storageLogic cfg hC strict steady).CallSafe := by
  intro w i c hi hs ha
  have hruns : IsCall i c (w.log (.call i c)) := by
    refine ⟨List.mem_cons_self, fun c' hc' => ?_⟩
    rcases List.mem_cons.1 hc' with heq | hmem
    · exact (Event.call.inj heq).2
    · exact absurd ⟨c', hmem⟩ hs
  have hout : Outside w.state i := Inv.outside hi hs
  cases c with
  | request r => exact safe_answer (handle_safe hruns hout)
  | keepAlive parent path token => exact safe_answer (keepAliveRound_safe hruns hout)
  | operate access operation =>
    exact safe_answer (operate_safe ha.1 (fun hst => (ha.2 hst).1)
      ⟨hruns, fun hst => (ha.2 hst).2⟩ hout)
  | patchQuota key patch => exact safe_answer (patchQuota_safe hruns hout)
  | setDisabled key disabled => exact safe_answer (setDisabled_safe hruns hout)

end Pubky.Homeserver.Storage

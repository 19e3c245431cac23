import Mathlib.Data.UInt
import Mathlib.Tactic.IntervalCases
import Pubky.Homeserver.Grant.Sample

/-!
# Bearers of a shared grant session

`pubky-sdk/src/actors/auth/grant/shared_session.rs`: the tabs of a browser share the bearer of a
grant. Before a request `prepare_shared` loads it under a browser lock, and as long as it looks due
for refresh it exchanges the grant for another one and starts again.

Whether a bearer looks due depends on the server, which sets its expiry, and on the clock of the
browser. `prepare_shared_returns_iff` says when the loop ends: not if the server keeps issuing
bearers that are due by that clock.
-/

namespace Pubky.Sdk.SharedSession

/-! ## Sessions -/

structure GrantSessionInfo where
  homeserver : PublicKey
  pubky : PublicKey
  clientId : ClientId
  capabilities : List Capability
  grantId : GrantId
  tokenExpiresAt : UInt64
  grantExpiresAt : UInt64
  createdAt : UInt64

structure GrantSessionResponse where
  token : Text
  session : GrantSessionInfo

/-- Browser-owned state. A pending exchange may have invalidated the saved bearer. -/
structure SharedGrantSession where
  response : GrantSessionResponse
  refreshPending : Bool
  logoutPending : Bool

inductive Error where
  | validation (message : Text)
  /-- an operation on the browser lock or its storage -/
  | lease
  /-- the exchange, with the status of its response -/
  | refresh (status : Option ℕ)
  deriving DecidableEq

/-- The state of a credential, as far as these functions use it. -/
structure GrantCredentialState where
  bearer : Text
  grantClaims : GrantClaims
  homeserverPk : PublicKey
  session : GrantSessionInfo

/-- The session is one of the grant. -/
def GrantCredentialState.owns (state : GrantCredentialState) (session : GrantSessionInfo) : Bool :=
  session.homeserver = state.homeserverPk && session.pubky = state.grantClaims.iss &&
    session.grantId = state.grantClaims.jti && session.clientId = state.grantClaims.clientId &&
    session.capabilities = state.grantClaims.caps &&
    session.grantExpiresAt = state.grantClaims.exp

def GrantCredentialState.adopt (state : GrantCredentialState) (response : GrantSessionResponse) :
    Except Error GrantCredentialState :=
  if state.owns response.session then
    .ok { state with bearer := response.token, session := response.session }
  else .error (.validation "Shared session does not match its grant".toList)

def refreshSlackSecs : UInt64 := 300

/-- Refresh cannot extend a valid bearer that already reaches grant expiry. -/
def GrantCredentialState.needsRefresh (state : GrantCredentialState) (now slack : UInt64) : Bool :=
  state.session.tokenExpiresAt ≤ now ||
    (state.session.tokenExpiresAt < state.grantClaims.exp &&
      state.session.tokenExpiresAt.toNat - slack.toNat ≤ now.toNat)

/-! ## The tab -/

/-- What a tab meets: the operations on the lease that fail, the readings of its clock, and the
answers to its exchanges. -/
structure Surroundings where
  broken : ℕ → Bool
  clock : ℕ → UInt64
  respond : ℕ → Except Error GrantSessionResponse

/-- The stored session, and how many operations, readings and exchanges there were. -/
structure World where
  stored : Option SharedGrantSession
  leases : ℕ
  reads : ℕ
  exchanges : ℕ

/-- Code of the tab. -/
abbrev Tab := ExceptT Error (StateM World)

/-- A check without effects. -/
def check {α : Type} (x : Except Error α) : Tab α := ExceptT.mk (pure x)

variable (E : Surroundings)

/-- An operation on the lease. -/
def leased : Tab Unit := do
  let w ← get
  set { w with leases := w.leases + 1 }
  check (if E.broken w.leases then .error .lease else .ok ())

def acquire (_exclusive : Bool) : Tab Unit := leased E

def load : Tab (Option SharedGrantSession) := do
  leased E
  return (← get).stored

def store (shared : SharedGrantSession) : Tab Unit := do
  leased E
  modify fun w => { w with stored := some shared }

def nowUnix : Tab UInt64 := do
  let w ← get
  set { w with reads := w.reads + 1 }
  return E.clock w.reads

def refreshGrantSession : Tab GrantSessionResponse := do
  let w ← get
  set { w with exchanges := w.exchanges + 1 }
  check (E.respond w.exchanges)

def activeSession : Tab SharedGrantSession := do
  match ← load E with
  | none => throw (.validation "Browser session was removed".toList)
  | some shared =>
    if shared.logoutPending then
      throw (.validation "Browser session logout is pending".toList)
    return shared

def refreshShared (state : GrantCredentialState) (rejectedBearer : Option Text) :
    Tab GrantCredentialState := do
  acquire E true
  let shared ← activeSession E
  let state ← check (state.adopt shared.response)
  let now ← nowUnix E
  if !shared.refreshPending && !state.needsRefresh now (refreshSlackSecs / 2) &&
      rejectedBearer ≠ some state.bearer then
    return state
  else
    store E { shared with refreshPending := true }
    let response ← refreshGrantSession E
    store E { shared with response := response, refreshPending := false }
    check (state.adopt response)

/-- One turn of the loop: the bearer to send, or none after a refresh. -/
def prepareTurn (state : GrantCredentialState) : Tab (GrantCredentialState × Option Text) := do
  acquire E false
  let shared ← activeSession E
  let state ← check (state.adopt shared.response)
  let now ← nowUnix E
  if shared.refreshPending || state.needsRefresh now (refreshSlackSecs / 2) then
    let state ← refreshShared E state none
    return (state, none)
  else return (state, some state.bearer)

/-- `prepare_shared`, for some turns of its loop: none if it has not returned. -/
def prepareShared : ℕ → GrantCredentialState → Tab (Option Text)
  | 0, _ => return none
  | turns + 1, state => do
    match ← prepareTurn E state with
    | (_, some bearer) => return some bearer
    | (state, none) => prepareShared turns state

/-! ## What a turn does -/

/-- Run code of the tab. -/
def exec {α : Type} (p : Tab α) (w : World) : Except Error α × World := p.run.run w

def World.lease (w : World) : World := { w with leases := w.leases + 1 }

section Rules

variable {E} {α β : Type} {w w' : World}

theorem exec_bind_of_ok {p : Tab α} {f : α → Tab β} {a : α} (h : exec p w = (.ok a, w')) :
    exec (p >>= f) w = exec (f a) w' := by
  unfold exec at h ⊢
  rw [ExceptT.run_bind, StateT.run_bind, h]
  rfl

theorem exec_bind_of_error {p : Tab α} {f : α → Tab β} {e : Error}
    (h : exec p w = (.error e, w')) : exec (p >>= f) w = (.error e, w') := by
  unfold exec at h ⊢
  rw [ExceptT.run_bind, StateT.run_bind, h]
  rfl

theorem exec_bind_ok {p : Tab α} {f : α → Tab β} {b : β} :
    exec (p >>= f) w = (.ok b, w') ↔
      ∃ a w₁, exec p w = (.ok a, w₁) ∧ exec (f a) w₁ = (.ok b, w') := by
  rcases h : exec p w with ⟨e | a, w₁⟩
  · simp [exec_bind_of_error h]
  · simp [exec_bind_of_ok h]

theorem exec_pure_ok {a b : α} : exec (pure a) w = (.ok b, w') ↔ a = b ∧ w = w' := by
  show (Except.ok a, w) = (Except.ok b, w') ↔ _
  simp

theorem exec_check_ok {x : Except Error α} {a : α} :
    exec (check x) w = (.ok a, w') ↔ x = .ok a ∧ w = w' := by
  show (x, w) = (Except.ok a, w') ↔ _
  simp

theorem exec_leased_ok {u : Unit} :
    exec (leased E) w = (.ok u, w') ↔ E.broken w.leases = false ∧ w.lease = w' := by
  change ((if E.broken w.leases then Except.error Error.lease else .ok ()), w.lease) = _ ↔ _
  cases E.broken w.leases <;> simp

theorem exec_load_ok {stored : Option SharedGrantSession} : exec (load E) w = (.ok stored, w') ↔
    E.broken w.leases = false ∧ w.stored = stored ∧ w.lease = w' := by
  rw [load, exec_bind_ok]
  constructor
  · rintro ⟨u, w₁, hleased, hrest⟩
    obtain ⟨hbroken, rfl⟩ := exec_leased_ok.1 hleased
    obtain ⟨hstored, rfl⟩ := Prod.mk.inj (show (Except.ok w.stored, w.lease) = _ from hrest)
    exact ⟨hbroken, Except.ok.inj hstored, rfl⟩
  · rintro ⟨hbroken, rfl, rfl⟩
    exact ⟨(), w.lease, exec_leased_ok.2 ⟨hbroken, rfl⟩, rfl⟩

theorem exec_store_ok {shared : SharedGrantSession} {u : Unit} :
    exec (store E shared) w = (.ok u, w') ↔
      E.broken w.leases = false ∧ { w.lease with stored := some shared } = w' := by
  rw [store, exec_bind_ok]
  constructor
  · rintro ⟨u, w₁, hleased, hrest⟩
    obtain ⟨hbroken, rfl⟩ := exec_leased_ok.1 hleased
    exact ⟨hbroken, (Prod.mk.inj hrest).2⟩
  · rintro ⟨hbroken, rfl⟩
    exact ⟨(), w.lease, exec_leased_ok.2 ⟨hbroken, rfl⟩, rfl⟩

theorem exec_nowUnix_ok {now : UInt64} : exec (nowUnix E) w = (.ok now, w') ↔
    E.clock w.reads = now ∧ { w with reads := w.reads + 1 } = w' := by
  change (Except.ok (E.clock w.reads), { w with reads := w.reads + 1 }) = (Except.ok now, w') ↔ _
  simp

theorem exec_refreshGrantSession_ok {response : GrantSessionResponse} :
    exec (refreshGrantSession E) w = (.ok response, w') ↔
      E.respond w.exchanges = .ok response ∧ { w with exchanges := w.exchanges + 1 } = w' := by
  change (E.respond w.exchanges, { w with exchanges := w.exchanges + 1 }) = _ ↔ _
  simp

theorem exec_activeSession_ok {shared : SharedGrantSession} :
    exec (activeSession E) w = (.ok shared, w') ↔ E.broken w.leases = false ∧
      w.stored = some shared ∧ shared.logoutPending = false ∧ w.lease = w' := by
  rw [activeSession, exec_bind_ok]
  constructor
  · rintro ⟨stored, w₁, hload, hrest⟩
    obtain ⟨hbroken, rfl, rfl⟩ := exec_load_ok.1 hload
    cases hstored : w.stored with
    | none =>
      rw [hstored] at hrest
      cases hrest
    | some loaded =>
      rw [hstored] at hrest
      cases hlogout : loaded.logoutPending with
      | true =>
        simp only [hlogout] at hrest
        cases hrest
      | false =>
        simp only [hlogout] at hrest
        obtain ⟨hshared, rfl⟩ := Prod.mk.inj (show (Except.ok loaded, w.lease) = _ from hrest)
        cases hshared
        exact ⟨hbroken, rfl, hlogout, rfl⟩
  · rintro ⟨hbroken, hstored, hlogout, rfl⟩
    refine ⟨some shared, w.lease, exec_load_ok.2 ⟨hbroken, hstored, rfl⟩, ?_⟩
    simp only [hlogout]
    rfl

end Rules

/-- The state after a response was adopted. -/
def GrantCredentialState.adopted (state : GrantCredentialState) (response : GrantSessionResponse) :
    GrantCredentialState :=
  { state with bearer := response.token, session := response.session }

/-- The bearer of a response looks due for refresh. -/
def GrantCredentialState.due (state : GrantCredentialState) (response : GrantSessionResponse)
    (now : UInt64) : Bool :=
  (state.adopted response).needsRefresh now (refreshSlackSecs / 2)

/-- The world after a turn that stored the response of an exchange. -/
def World.after (w : World) (shared : SharedGrantSession) (response : GrantSessionResponse) :
    World where
  stored := some { shared with response := response, refreshPending := false }
  leases := w.leases + 6
  reads := w.reads + 2
  exchanges := w.exchanges + 1

section Turns

variable {E} {state state' : GrantCredentialState} {w w' : World} {shared : SharedGrantSession}
  {response : GrantSessionResponse} {now now' : UInt64}

theorem adopt_ok : state.adopt response = .ok state' ↔
    state.owns response.session = true ∧ state.adopted response = state' := by
  rw [GrantCredentialState.adopt]
  cases state.owns response.session with
  | true => simp [GrantCredentialState.adopted]
  | false => simp

/-- What is due stays due. -/
theorem due_mono (h : state.due response now = true) (hle : now ≤ now') :
    state.due response now' = true := by
  have hle' := UInt64.le_iff_toNat_le.1 hle
  simp only [GrantCredentialState.due, GrantCredentialState.needsRefresh, Bool.or_eq_true,
    Bool.and_eq_true, decide_eq_true_eq, UInt64.le_iff_toNat_le] at h ⊢
  rcases h with h | ⟨hlt, h⟩
  · exact .inl (h.trans hle')
  · exact .inr ⟨hlt, h.trans hle'⟩

/-- The clock does not run backwards. -/
def Surroundings.Forward (E : Surroundings) : Prop :=
  ∀ i j, i ≤ j → E.clock i ≤ E.clock j

/-- What there was in a turn that went on to the next one. -/
structure Exchanged (E : Surroundings) (state : GrantCredentialState) (w : World)
    (shared : SharedGrantSession) (response : GrantSessionResponse) : Prop where
  leases : ∀ i < 6, E.broken (w.leases + i) = false
  stored : w.stored = some shared
  active : shared.logoutPending = false
  owned : state.owns shared.response.session = true
  due : shared.refreshPending = true ∨ state.due shared.response (E.clock w.reads) = true
  answered : E.respond w.exchanges = .ok response
  answerOwned : state.owns response.session = true

/-- The world after the stored session was loaded and the clock was read. -/
def World.joined (w : World) : World :=
  { w with leases := w.leases + 2, reads := w.reads + 1 }

/-- Both functions start by joining the stored session. -/
theorem exec_join_ok {β : Type} {exclusive : Bool} {b : β}
    {f : SharedGrantSession → GrantCredentialState → UInt64 → Tab β} :
    exec (do
      acquire E exclusive
      let shared ← activeSession E
      let state ← check (state.adopt shared.response)
      let now ← nowUnix E
      f shared state now) w = (.ok b, w') ↔
    ∃ shared, (E.broken w.leases = false ∧ E.broken (w.leases + 1) = false ∧
        w.stored = some shared ∧ shared.logoutPending = false ∧
        state.owns shared.response.session = true) ∧
      exec (f shared (state.adopted shared.response) (E.clock w.reads)) w.joined = (.ok b, w') := by
  simp only [exec_bind_ok, acquire, exec_leased_ok, exec_activeSession_ok, exec_check_ok, adopt_ok,
    exec_nowUnix_ok]
  constructor
  · rintro ⟨_, _, ⟨hb, rfl⟩, shared, _, ⟨hb', hstored, hactive, rfl⟩, _, _, ⟨⟨howned, rfl⟩, rfl⟩,
      _, _, ⟨rfl, rfl⟩, h⟩
    exact ⟨shared, ⟨hb, hb', hstored, hactive, howned⟩, h⟩
  · rintro ⟨shared, ⟨hb, hb', hstored, hactive, howned⟩, h⟩
    exact ⟨(), _, ⟨hb, rfl⟩, shared, _, ⟨hb', hstored, hactive, rfl⟩, _, _, ⟨⟨howned, rfl⟩, rfl⟩,
      _, _, ⟨rfl, rfl⟩, h⟩

/-- A refresh of a session that is due, or pending, is an exchange. -/
theorem refreshShared_ok_iff (hstored : w.stored = some shared)
    (hdue : (shared.refreshPending || state.due shared.response (E.clock w.reads)) = true) :
    exec (refreshShared E state none) w = (.ok state', w') ↔
      (E.broken w.leases = false ∧ E.broken (w.leases + 1) = false ∧ shared.logoutPending = false ∧
        state.owns shared.response.session = true) ∧ E.broken (w.leases + 2) = false ∧
      ∃ response, E.respond w.exchanges = .ok response ∧ E.broken (w.leases + 3) = false ∧
        state.owns response.session = true ∧ state.adopted response = state' ∧
        { stored := some { shared with response := response, refreshPending := false }
          leases := w.leases + 4, reads := w.reads + 1, exchanges := w.exchanges + 1 } = w' := by
  have hcond : (!shared.refreshPending && !(state.adopted shared.response).needsRefresh
      (E.clock w.reads) (refreshSlackSecs / 2) && decide (none ≠ some
        (state.adopted shared.response).bearer)) = true ↔ False := by
    rw [GrantCredentialState.due] at hdue
    cases hpending : shared.refreshPending <;> simp_all
  rw [refreshShared, exec_join_ok]
  constructor
  · rintro ⟨shared', ⟨hb₀, hb₁, hstored', hactive, howned⟩, h⟩
    obtain rfl := Option.some.inj (hstored.symm.trans hstored')
    rw [if_neg hcond.1] at h
    simp only [exec_bind_ok, exec_store_ok, exec_refreshGrantSession_ok, exec_check_ok,
      adopt_ok] at h
    obtain ⟨_, _, ⟨hb₂, rfl⟩, response, _, ⟨hrespond, rfl⟩, _, _, ⟨hb₃, rfl⟩, ⟨hfresh, rfl⟩,
      rfl⟩ := h
    exact ⟨⟨hb₀, hb₁, hactive, howned⟩, hb₂, response, hrespond, hb₃, hfresh, rfl, rfl⟩
  · rintro ⟨⟨hb₀, hb₁, hactive, howned⟩, hb₂, response, hrespond, hb₃, hfresh, rfl, rfl⟩
    refine ⟨shared, ⟨hb₀, hb₁, hstored, hactive, howned⟩, ?_⟩
    rw [if_neg hcond.1]
    simp only [exec_bind_ok, exec_store_ok, exec_refreshGrantSession_ok, exec_check_ok, adopt_ok]
    exact ⟨(), _, ⟨hb₂, rfl⟩, response, _, ⟨hrespond, rfl⟩, (), _, ⟨hb₃, rfl⟩, ⟨hfresh, rfl⟩, rfl⟩

/-- A turn goes on to the next one after an exchange, and only then. -/
theorem prepareTurn_none_iff (hclock : E.Forward) :
    exec (prepareTurn E state) w = (.ok (state', none), w') ↔
      ∃ shared response, Exchanged E state w shared response ∧ state.adopted response = state' ∧
        w.after shared response = w' := by
  -- the refresh reads the clock once more
  have hlater : ∀ {shared : SharedGrantSession}, shared.refreshPending = true ∨
      state.due shared.response (E.clock w.reads) = true → (shared.refreshPending ||
        (state.adopted shared.response).due shared.response (E.clock w.joined.reads)) = true :=
    fun h => Bool.or_eq_true .. ▸ h.imp_right fun h => due_mono h (hclock _ _ (Nat.le_succ _))
  rw [prepareTurn, exec_join_ok]
  constructor
  · rintro ⟨shared, ⟨hb₀, hb₁, hstored, hactive, howned⟩, h⟩
    split at h
    · rename_i hdue
      have hdue : shared.refreshPending = true ∨
          state.due shared.response (E.clock w.reads) = true := by
        simpa [GrantCredentialState.due] using hdue
      obtain ⟨_, w₁, hrefresh, h⟩ := exec_bind_ok.1 h
      obtain ⟨heq, rfl⟩ := exec_pure_ok.1 h
      obtain ⟨rfl, -⟩ := Prod.mk.inj heq
      obtain ⟨⟨hb₂, hb₃, -, -⟩, hb₄, response, hrespond, hb₅, hfresh, rfl, rfl⟩ :=
        (refreshShared_ok_iff (w := w.joined) hstored (hlater hdue)).1 hrefresh
      refine ⟨shared, response, ⟨?_, hstored, hactive, howned, hdue, hrespond, hfresh⟩, rfl, rfl⟩
      intro i hi
      interval_cases i <;> assumption
    · obtain ⟨heq, -⟩ := exec_pure_ok.1 h
      cases heq
  · rintro ⟨shared, response, h, rfl, rfl⟩
    refine ⟨shared, ⟨h.leases 0 (by decide), h.leases 1 (by decide), h.stored, h.active,
      h.owned⟩, ?_⟩
    rw [if_pos (by simpa [GrantCredentialState.due] using h.due)]
    refine exec_bind_ok.2 ⟨_, _, (refreshShared_ok_iff (w := w.joined) h.stored
      (hlater h.due)).2 ⟨⟨h.leases 2 (by decide), h.leases 3 (by decide), h.active, h.owned⟩,
        h.leases 4 (by decide), response, h.answered, h.leases 5 (by decide), h.answerOwned, rfl,
        rfl⟩, rfl⟩

end Turns

/-! ## The loop -/

/-- After some turns the loop has neither returned a bearer nor an error. -/
def Running (turns : ℕ) (state : GrantCredentialState) (w : World) : Prop :=
  ∃ w', exec (prepareShared E turns state) w = (.ok none, w')

/-- The world in which `prepare_shared` is called. -/
def World.start (stored : Option SharedGrantSession) : World := ⟨stored, 0, 0, 0⟩

/-- An exchange is answered with a bearer of the grant that is due when the clock is read next. -/
def AnsweredDue (state : GrantCredentialState) (k : ℕ) : Prop :=
  ∃ response, E.respond k = .ok response ∧ state.owns response.session = true ∧
    state.due response (E.clock (2 * k + 2)) = true

/-- The lease works, the stored session is due or pending, and so is every bearer that is issued. -/
structure Loops (state : GrantCredentialState) (stored : Option SharedGrantSession) : Prop where
  leases : ∀ i, E.broken i = false
  start : ∃ shared, stored = some shared ∧ shared.logoutPending = false ∧
    state.owns shared.response.session = true ∧
    (shared.refreshPending = true ∨ state.due shared.response (E.clock 0) = true)
  answers : ∀ k, AnsweredDue E state k

section Loop

variable {E} {state : GrantCredentialState} {w : World} {stored : Option SharedGrantSession}

/-- The loop is still running if its first turn was an exchange and the rest is still running. -/
theorem running_succ_iff (hclock : E.Forward) {turns : ℕ} : Running E (turns + 1) state w ↔
    ∃ shared response, Exchanged E state w shared response ∧
      Running E turns (state.adopted response) (w.after shared response) := by
  simp only [Running, prepareShared, exec_bind_ok]
  constructor
  · rintro ⟨w', ⟨state', returned⟩, w₁, hturn, h⟩
    cases returned with
    | none =>
      obtain ⟨shared, response, hex, rfl, rfl⟩ := (prepareTurn_none_iff hclock).1 hturn
      exact ⟨shared, response, hex, w', h⟩
    | some bearer => cases (exec_pure_ok.1 h).1
  · rintro ⟨shared, response, hex, w', h⟩
    exact ⟨w', (_, none), _, (prepareTurn_none_iff hclock).2 ⟨shared, response, hex, rfl, rfl⟩, h⟩

variable (E stored) in
/-- The session that is stored after some exchanges. -/
def storedAt : ℕ → Option SharedGrantSession
  | 0 => stored
  | k + 1 => (E.respond k).toOption.map fun response => ⟨response, false, false⟩

variable (E stored) in
/-- The world after some exchanges. -/
def worldAt (k : ℕ) : World := ⟨storedAt E stored k, 6 * k, 2 * k, k⟩

theorem after_worldAt {k : ℕ} {shared : SharedGrantSession} {response : GrantSessionResponse}
    (h : Exchanged E state (worldAt E stored k) shared response) :
    (worldAt E stored k).after shared response = worldAt E stored (k + 1) := by
  have hstored : storedAt E stored (k + 1) = some ⟨response, false, false⟩ := by
    rw [storedAt, show E.respond k = .ok response from h.answered]
    rfl
  simp only [World.after, worldAt, hstored, h.active, Nat.mul_succ]

variable (E stored state) in
/-- Turn `k` is an exchange. -/
def Continues (k : ℕ) : Prop :=
  ∃ shared response, Exchanged E state (worldAt E stored k) shared response

/-- The loop runs on as long as all turns are exchanges. -/
theorem running_iff (hclock : E.Forward) {turns : ℕ} :
    Running E turns state (.start stored) ↔ ∀ k < turns, Continues E state stored k := by
  -- what a turn does depends on the grant of the credential and not on its bearer
  have hfrom : ∀ turns k (last : GrantSessionResponse),
      (Running E turns (state.adopted last) (worldAt E stored k) ↔
        ∀ j, k ≤ j → j < k + turns → Continues E state stored j) := by
    intro turns
    induction turns with
    | zero =>
      intro k last
      exact ⟨fun _ j hj hlt => absurd hlt (by omega), fun _ => ⟨_, rfl⟩⟩
    | succ turns ih =>
      intro k last
      rw [running_succ_iff hclock]
      constructor
      · rintro ⟨shared, response, hex, hrun⟩ j hj hlt
        have hex : Exchanged E state (worldAt E stored k) shared response := { hex with }
        rw [after_worldAt hex] at hrun
        rcases Nat.eq_or_lt_of_le hj with rfl | hlater
        · exact ⟨shared, response, hex⟩
        · exact (ih (k + 1) response).1 hrun j hlater (by omega)
      · intro h
        obtain ⟨shared, response, hex⟩ := h k le_rfl (by omega)
        refine ⟨shared, response, { hex with }, ?_⟩
        rw [after_worldAt hex]
        exact (ih (k + 1) response).2 fun j hj hlt => h j (by omega) (by omega)
  have hstart := hfrom turns 0 ⟨state.bearer, state.session⟩
  simpa [World.start, worldAt, storedAt, GrantCredentialState.adopted] using hstart

/-- An exchange after an exchange: its bearer was due. -/
theorem answeredDue_of_continues {k : ℕ} (h : Continues E state stored k)
    (h' : Continues E state stored (k + 1)) : AnsweredDue E state k := by
  obtain ⟨_, response, hex⟩ := h
  obtain ⟨shared, _, hex'⟩ := h'
  have hstored : storedAt E stored (k + 1) = some shared := hex'.stored
  rw [storedAt, show E.respond k = .ok response from hex.answered] at hstored
  cases hstored
  rcases hex'.due with hpending | hdue
  · cases hpending
  · exact ⟨response, hex.answered, hex.answerOwned, hdue⟩

/-- All turns are exchanges exactly if the lease works and every bearer is due. -/
theorem continues_iff_loops : (∀ k, Continues E state stored k) ↔ Loops E state stored := by
  constructor
  · intro h
    refine ⟨fun i => ?_, ?_, fun k => answeredDue_of_continues (h k) (h (k + 1))⟩
    · obtain ⟨_, _, hex⟩ := h (i / 6)
      have hlease := hex.leases (i % 6) (Nat.mod_lt _ (by decide))
      rwa [worldAt, Nat.div_add_mod] at hlease
    · obtain ⟨shared, response, hex⟩ := h 0
      exact ⟨shared, hex.stored, hex.active, hex.owned, hex.due⟩
  · intro h k
    obtain ⟨response, hrespond, howned, -⟩ := h.answers k
    cases k with
    | zero =>
      obtain ⟨shared, hstored, hactive, howns, hdue⟩ := h.start
      exact ⟨shared, response, fun i _ => h.leases _, hstored, hactive, howns, hdue, hrespond,
        howned⟩
    | succ k =>
      obtain ⟨last, hlast, howns, hdue⟩ := h.answers k
      refine ⟨⟨last, false, false⟩, response, fun i _ => h.leases _, ?_, rfl, howns, .inr hdue,
        hrespond, howned⟩
      rw [worldAt, storedAt, hlast]
      rfl

end Loop

/-! ## The number of exchanges -/

/-- Code that makes at most some number of exchanges. -/
def AtMost (n : ℕ) {α : Type} (p : Tab α) : Prop :=
  ∀ w, (exec p w).2.exchanges ≤ w.exchanges + n

section AtMost

variable {E} {α β : Type} {m n : ℕ}

theorem AtMost.bind {p : Tab α} {f : α → Tab β} (hp : AtMost m p) (hf : ∀ a, AtMost n (f a)) :
    AtMost (m + n) (p >>= f) := by
  intro w
  have hle := hp w
  rcases h : exec p w with ⟨e | a, w₁⟩
  · rw [h] at hle
    rw [exec_bind_of_error h]
    simp only at hle ⊢
    omega
  · rw [h] at hle
    have hle' := hf a w₁
    rw [exec_bind_of_ok h]
    simp only at hle ⊢
    omega

/-- The first step makes none. -/
theorem AtMost.after {p : Tab α} {f : α → Tab β} (hp : AtMost 0 p) (hf : ∀ a, AtMost n (f a)) :
    AtMost n (p >>= f) := by
  have h := hp.bind hf
  rwa [Nat.zero_add] at h

theorem AtMost.mono {p : Tab α} (hp : AtMost m p) (h : m ≤ n) : AtMost n p := fun w =>
  (hp w).trans (Nat.add_le_add_left h _)

theorem atMost_pure (a : α) : AtMost 0 (pure a) := fun _ => le_rfl

theorem atMost_check (x : Except Error α) : AtMost 0 (check x) := fun _ => le_rfl

theorem atMost_leased : AtMost 0 (leased E) := fun _ => le_rfl

theorem atMost_nowUnix : AtMost 0 (nowUnix E) := fun _ => le_rfl

theorem atMost_refreshGrantSession : AtMost 1 (refreshGrantSession E) := fun _ => le_rfl

theorem atMost_store (shared : SharedGrantSession) : AtMost 0 (store E shared) :=
  atMost_leased.after fun _ _ => le_rfl

theorem atMost_activeSession : AtMost 0 (activeSession E) := by
  refine (atMost_leased.after fun _ _ => le_rfl : AtMost 0 (load E)).after fun stored w => ?_
  cases stored with
  | none => exact le_rfl
  | some shared => cases hlogout : shared.logoutPending <;> simp only [hlogout] <;> exact le_rfl

theorem atMost_refreshShared (state : GrantCredentialState) (rejected : Option Text) :
    AtMost 1 (refreshShared E state rejected) := by
  refine atMost_leased.after fun _ => atMost_activeSession.after fun shared =>
    (atMost_check _).after fun state' => atMost_nowUnix.after fun now => ?_
  split
  · exact (atMost_pure _).mono (Nat.zero_le 1)
  · exact (atMost_store _).after fun _ => atMost_refreshGrantSession.bind fun _ =>
      (atMost_store _).after fun _ => atMost_check _

theorem atMost_prepareTurn (state : GrantCredentialState) : AtMost 1 (prepareTurn E state) := by
  refine atMost_leased.after fun _ => atMost_activeSession.after fun shared =>
    (atMost_check _).after fun state' => atMost_nowUnix.after fun now => ?_
  split
  · exact (atMost_refreshShared _ _).bind fun _ => atMost_pure _
  · exact (atMost_pure _).mono (Nat.zero_le 1)

/-- Every turn makes at most one exchange. -/
theorem atMost_prepareShared (turns : ℕ) (state : GrantCredentialState) :
    AtMost turns (prepareShared E turns state) := by
  induction turns generalizing state with
  | zero => exact atMost_pure _
  | succ turns ih =>
    have hturn := (atMost_prepareTurn (E := E) state).bind (n := turns) (f := fun
      | (_, some bearer) => return some bearer
      | (state, none) => prepareShared E turns state) fun out => ?_
    · rwa [Nat.add_comm] at hturn
    · obtain ⟨state', _ | bearer⟩ := out
      · exact ih state'
      · exact (atMost_pure _).mono (Nat.zero_le turns)

end AtMost

/-! ## When it ends -/

variable {E}

/-- The loop returns a bearer or an error, except if the lease works, the stored session is due, and
every exchange is answered with a bearer that is due as well. An answer that is not due ends it, and
so bounds the number of exchanges. -/
theorem prepare_shared_returns_iff (hclock : E.Forward) (state : GrantCredentialState)
    (stored : Option SharedGrantSession) :
    ((∃ turns, ¬ Running E turns state (.start stored)) ↔ ¬ Loops E state stored) ∧
      ∀ k, ¬ AnsweredDue E state k → ¬ Running E (k + 2) state (.start stored) ∧
        (exec (prepareShared E (k + 2) state) (.start stored)).2.exchanges ≤ k + 2 := by
  constructor
  · rw [← continues_iff_loops, not_forall]
    constructor
    · rintro ⟨turns, hturns⟩
      rw [running_iff hclock] at hturns
      push Not at hturns
      obtain ⟨k, -, hk⟩ := hturns
      exact ⟨k, hk⟩
    · rintro ⟨k, hk⟩
      exact ⟨k + 1, fun h => hk ((running_iff hclock).1 h k (Nat.lt_succ_self k))⟩
  · intro k hanswer
    refine ⟨fun h => hanswer ?_, ?_⟩
    · have hall := (running_iff hclock).1 h
      exact answeredDue_of_continues (hall k (by omega)) (hall (k + 1) (by omega))
    · simpa [World.start] using atMost_prepareShared (E := E) (k + 2) state (.start stored)

/-! ## A clock that is ahead, shortly before the grant expires -/

namespace Sample

open Homeserver.Grant.Sample

/-- When the grant expires. -/
def expiry : UInt64 := (grantClaims jtiA).exp

/-- A session of the grant whose bearer expires at that time. -/
def response (tokenExpiresAt : UInt64) : GrantSessionResponse where
  token := "bearer".toList
  session :=
    { homeserver := homeserver, pubky := alice, clientId := (grantClaims jtiA).clientId
      capabilities := (grantClaims jtiA).caps, grantId := jtiA, tokenExpiresAt := tokenExpiresAt
      grantExpiresAt := expiry, createdAt := 0 }

def credential : GrantCredentialState :=
  ⟨[], grantClaims jtiA, homeserver, (response 0).session⟩

/-- The clock shows the time at which the grant expires. All bearers that the server issues expire at
one time. -/
def surroundings (tokenExpiresAt : UInt64) : Surroundings where
  broken _ := false
  clock _ := expiry
  respond _ := .ok (response tokenExpiresAt)

def stored : Option SharedGrantSession := some ⟨response 0, false, false⟩

end Sample

open Sample in
/-- The server still accepts the grant and its bearers last as long as the grant, but for the clock
of the client they have expired when they arrive: it exchanges without end. -/
theorem exchanges_without_end :
    (¬ ∃ turns, ¬ Running (surroundings expiry) turns credential (.start stored)) ∧
      (exec (prepareShared (surroundings expiry) 9 credential) (.start stored)).2.exchanges =
        9 := by
  refine ⟨?_, by decide +kernel⟩
  rintro ⟨turns, hturns⟩
  refine hturns ((running_iff fun _ _ _ => UInt64.le_refl _).2 fun k _ =>
    continues_iff_loops.2 ?_ k)
  have hdue : credential.due (response expiry) expiry = true := by decide +kernel
  exact ⟨fun _ => rfl, ⟨_, rfl, rfl, by decide +kernel, .inr (by decide +kernel)⟩,
    fun _ => ⟨_, rfl, by decide +kernel, hdue⟩⟩

open Sample in
/-- A bearer that lasts longer than the client's clock shows ends the loop. -/
theorem prepare_shared_returns_sample :
    ¬ Running (surroundings 1731539600) 2 credential (.start stored) ∧
      (exec (prepareShared (surroundings 1731539600) 2 credential) (.start stored)).1 =
        .ok (some "bearer".toList) := by
  refine ⟨((prepare_shared_returns_iff (fun _ _ _ => UInt64.le_refl _) credential stored).2 0
    ?_).1, by decide +kernel⟩
  rintro ⟨answer, hanswer, -, hdue⟩
  cases hanswer
  revert hdue
  decide +kernel

end Pubky.Sdk.SharedSession

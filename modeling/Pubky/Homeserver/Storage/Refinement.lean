import Pubky.Homeserver.Storage.Bookkeeping
import Pubky.Homeserver.Storage.Calls

/-!
# Runs of the storage

A run starts with the committed rows and blobs of a storage that nobody works on (`Initial`).
Every call is safe, so the invariant holds in every state of a run (`Runs.poolSafe`), and
every step of the machine is a change of the ledger (`step_change`): only commits and sign-ups
touch committed rows, and what a transaction commits is what its precondition says.
-/

namespace Pubky.Homeserver.Storage

open Sql Conc Conc.Logic

variable {cfg : Config} {C : StorageCrates} {strict steady : Prop} {i : ℕ}
  {p p' p₀ : Pl} {w : Wld} {s s' : State} {o : Op} {l : Lbl}

/-! ## Runs -/

/-- Nobody works on the storage. -/
structure Still (s : State) : Prop where
  txs : s.txs = []
  users : s.users.writes = [] ∧ s.users.locks = []
  entries : s.entries.writes = [] ∧ s.entries.locks = []
  events : s.events.writes = [] ∧ s.events.locks = []
  entryLocks : s.entryLocks.writes = [] ∧ s.entryLocks.locks = []
  eventLock : s.eventLock = none
  inFlight : s.inFlight = []
  keepAlives : s.keepAlives = []
  journal : s.journal = []
  published : s.published = []
  held : s.held = []
  unlocked : s.unlocked = []

/-- The committed rows and the blobs fit together as the schema demands. Events are listed in the
order of their ids. -/
structure Consistent (C : StorageCrates) (s : State) : Prop where
  userKeys : UniqueKeys s.users.rows
  userRows : ∀ r ∈ s.users.rows, s.userIds[r.id]? = some r.publicKey
  userIds : s.userIds.Nodup ∧ ∀ k ∈ s.userIds, (∃ key, k = C.z32 key) ∧
    ∃ r ∈ s.users.rows, r.publicKey = k
  entryKeys : UniqueKeys s.entries.rows
  entryRows : ∀ r ∈ s.entries.rows, s.entryIds[r.id]? = some (r.user, r.path)
  entryIds : ∀ x ∈ s.entryIds, ∃ k, s.userIds[x.1]? = some k
  entryPaths : ∀ r ∈ s.entries.rows, ∀ r' ∈ s.entries.rows, r.user = r'.user → r.path = r'.path →
    r = r'
  files : ∀ r ∈ s.entries.rows, ∃ path : StoragePath, path.isFile = true ∧ r.path = path.asStr
  eventOrder : s.events.rows.Pairwise fun a b => a.id < b.id
  events : ∀ ev ∈ s.events.rows, ev.id < s.nextEventId ∧ ∃ k, s.userIds[ev.user]? = some k
  lockKeys : UniqueKeys s.entryLocks.rows
  blobKeys : (s.blobs.map Blob.key).Nodup
  blobs : ∀ b ∈ s.blobs, b.generation < s.nextGeneration ∧ b.publisher = none

theorem Consistent.ledger (h : Consistent C s) : s.ledger.Ok where
  userKeys := h.userKeys
  userIds := by
    intro u hu v hv huv
    have hkey : some u.publicKey = some v.publicKey := by
      rw [← h.userRows u hu, ← h.userRows v hv, huv]
    exact h.userKeys.eq_of_key_eq hu hv (Option.some.inj hkey)
  entryKeys := h.entryKeys
  entryPaths := h.entryPaths
  files := h.files
  events := h.eventOrder

/-- Every entry has its blob. -/
def State.Complete (s : State) : Prop :=
  ∀ r ∈ s.entries.rows, ∀ k, s.userIds[r.user]? = some k → ∃ b ∈ s.blobs, b.key = k ++ r.path

/-- A pool before the first call. -/
structure Initial (C : StorageCrates) (p : Pl) : Prop where
  threads : ∀ i, p.threads i = none
  hist : p.world.hist = []
  still : Still p.world.state
  consistent : Consistent C p.world.state

variable (cfg C strict steady) in
/-- Runs of the storage. -/
def Runs : Pl → Pl → Prop :=
  Steps (machine cfg C) (Admits C strict steady)

theorem Initial.inv (h : Initial C p) (hsteady : steady → p.world.state.Complete) :
    Inv C steady p.world := by
  have hs := h.still
  have hc := h.consistent
  have husers : ∀ j, p.world.state.users.writesOf j = [] := by simp [Table.writesOf, hs.users.1]
  have hentries : ∀ j, p.world.state.entries.writesOf j = [] := by
    simp [Table.writesOf, hs.entries.1]
  have hevents : ∀ j, p.world.state.events.writesOf j = [] := by simp [Table.writesOf, hs.events.1]
  have hlocks : ∀ j, p.world.state.entryLocks.writesOf j = [] := by
    simp [Table.writesOf, hs.entryLocks.1]
  exact
    { users :=
        { locked := ⟨by simp [hs.users.2], by simp [husers]⟩
          unique := hc.userKeys
          rows := hc.userRows
          puts := by simp [husers]
          noDel := by simp [husers]
          lockRows := by simp [hs.users.2]
          keys := fun k hk => (hc.userIds.2 k hk).1
          present := fun k hk => (hc.userIds.2 k hk).2
          nodup := hc.userIds.1 }
      entries :=
        { unique := hc.entryKeys
          rows := hc.entryRows
          puts := by simp [hentries]
          users := hc.entryIds
          owned := by simp [hentries] }
      events :=
        { rows := fun ev hev => (hc.events ev hev).1
          users := fun ev hev => (hc.events ev hev).2
          writes := by simp [hevents] }
      txs := by constructor <;> simp [hs.txs, hs.journal]
      owners := by simp [hs.txs]
      live := by simp [hs.txs]
      idle := fun j _ =>
        { users := husers j
          entries := hentries j
          events := hevents j
          entryLocks := hlocks j
          userLocks := by simp [hs.users.2]
          lockLocks := by simp [hs.entryLocks.2]
          eventLock := by simp [hs.eventLock]
          held := by simp [hs.held]
          published := by simp [hs.published] }
      locks :=
        { locked := ⟨by simp [hs.entryLocks.2], by simp [hlocks]⟩
          unique := hc.lockKeys
          noDel := by simp [hlocks]
          puts := by simp [hlocks]
          held := by simp [hs.held] }
      store :=
        { unique := hc.blobKeys
          generations := fun b hb => (hc.blobs b hb).1
          publishers := fun b hb n hn => by simp [(hc.blobs b hb).2] at hn
          inFlight := by simp [hs.inFlight] }
      steady := fun hst =>
        { rows := hsteady hst
          puts := by simp [hentries]
          published := by simp [hs.published]
          inFlight := hs.inFlight }
      calls := ⟨by simp [hs.keepAlives], by simp [h.hist]⟩ }

theorem Initial.poolSafe (hC : C.Lawful) (h : Initial C p)
    (hsteady : steady → p.world.state.Complete) :
    (storageLogic cfg hC strict steady).PoolSafe p :=
  .initial (h.inv hsteady) h.threads h.hist

theorem Runs.poolSafe (hC : C.Lawful) (h : Runs cfg C strict steady p₀ p) (h₀ : Initial C p₀)
    (hsteady : steady → p₀.world.state.Complete) :
    (storageLogic cfg hC strict steady).PoolSafe p :=
  steps_safe storageLogic_callSafe (h₀.poolSafe hC hsteady) h

/-! ## Steps are changes of the ledger -/

/-- Only commits touch committed rows. -/
theorem effect_ledger (ho : o ≠ .commit) (h : Effect cfg C i s o s') : s'.ledger = s.ledger := by
  cases h with
  | commit ha => exact absurd rfl ho
  | carriedOut request hmeets => rw [carriedOut_eq]; rfl
  | _ => rfl

/-- A commit takes effect, or the transaction is rolled back. -/
theorem commit_cases (h : Effect cfg C i s .commit s') :
    s'.ledger = s.ledger ∨ s.alive i = true ∧ s' = s.commit i := by
  cases h with
  | commit ha => exact .inr ⟨ha, rfl⟩
  | _ => exact .inl rfl

theorem signUp_change (hi : Inv C steady w) {key : PublicKey} {quota : UserQuota}
    (hnew : lookup w.state.users.rows (C.z32 key) = none) :
    Change strict w.state.ledger { w.state.ledger with
      users := w.state.users.rows ++ [⟨w.state.userIds.length, C.z32 key, false, 0, quota⟩] } := by
  have hfresh : ∀ {n k}, w.state.userIds[n]? = some k → n ≠ w.state.userIds.length :=
    fun hn => Nat.ne_of_lt (List.getElem?_eq_some_iff.1 hn).1
  refine .signUp ⟨w.state.userIds.length, C.z32 key, false, 0, quota⟩ rfl
    (fun v hv => lookup_eq_none.1 hnew v hv) (fun v hv => hfresh (hi.users.rows v hv))
    (fun r hr => ?_) fun ev hev => ?_
  · obtain ⟨k, hk⟩ := hi.entries.users _ (List.mem_of_getElem? (hi.entries.rows r hr))
    exact hfresh hk
  · obtain ⟨k, hk⟩ := hi.events.users ev hev
    exact hfresh hk

/-- Of the steps of the environment only a sign-up touches committed rows. -/
theorem env_ledger {e : Env} (h : env C e s = some s') :
    s'.ledger = s.ledger ∨ ∃ key quota, lookup s.users.rows (C.z32 key) = none ∧
      s'.ledger = { s.ledger with
        users := s.users.rows ++ [⟨s.userIds.length, C.z32 key, false, 0, quota⟩] } := by
  cases e with
  | tick clock =>
    simp only [env] at h
    split at h
    · cases h
      exact .inl rfl
    · cases h
  | addUser key quota =>
    simp only [env] at h
    split at h
    · cases h
    · rename_i hnew
      cases h
      exact .inr ⟨key, quota, by simpa using hnew, rfl⟩
  | lose i =>
    simp only [env] at h
    split at h
    · cases h
      exact .inl rfl
    · cases h
  | land n =>
    simp only [env] at h
    split at h
    · cases h
    · cases h
      rw [carryOut_eq]
      exact .inl rfl
  | disconnect i =>
    cases h
    exact .inl rfl
  | expireQuota key =>
    cases h
    exact .inl rfl

theorem env_change (hi : Inv C steady w) {e : Env} (h : env C e w.state = some s') :
    Change strict w.state.ledger s'.ledger := by
  rcases env_ledger h with hsame | ⟨key, quota, hnew, heq⟩
  · rw [hsame]
    exact .same
  · rw [heq]
    exact signUp_change hi hnew

/-- The machine refines the ledger: every step is one of its changes. -/
theorem step_change {hC : C.Lawful} (hp : (storageLogic cfg hC strict steady).PoolSafe p)
    (h : p.Next (machine cfg C) l p') :
    Change strict p.world.state.ledger p'.world.state.ledger := by
  cases h with
  | call i c hi => exact .same
  | ret i a hi => exact .same
  | drop i q hi => exact .same
  | env e s hx => exact env_change hp.inv hx
  | op i o k inp r s hi hx =>
    have heff : Effect cfg C i p.world.state o s := exec_effect hx
    by_cases ho : o = .commit
    · subst ho
      rcases commit_cases heff with hsame | ⟨ha, rfl⟩
      · rw [World.setState_state, hsame]
        exact .same
      · exact ((hp.pre hi).2 ha).1
    · rw [World.setState_state, effect_ledger ho heff]
      exact .same

/-- What every change of the ledger preserves holds in every state of a run. -/
theorem Runs.ledger {P : Ledger → Prop} (hC : C.Lawful)
    (hchange : ∀ {l l'}, Change strict l l' → P l → P l')
    (h : Runs cfg C strict steady p₀ p) (h₀ : Initial C p₀)
    (hsteady : steady → p₀.world.state.Complete) (hP : P p₀.world.state.ledger) :
    P p.world.state.ledger := by
  have hL : (storageLogic cfg hC strict steady).CallSafe := storageLogic_callSafe
  exact steps_invariant (P := fun w => P w.state.ledger) hL (fun _ _ ha => ha)
    (fun hp hn _ hl => hchange (step_change hp hn) hl) (h₀.poolSafe hC hsteady) hP h

end Pubky.Homeserver.Storage

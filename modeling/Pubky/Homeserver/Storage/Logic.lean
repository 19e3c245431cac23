import Pubky.Homeserver.Storage.Invariants

/-!
# The logic of the storage

What a call may rely on while others move, and what it has to establish before it issues an
operation:

* `Grows`: what never goes back, whoever moves,
* `Same`: what nobody else changes while a call's transaction is alive, above all the rows and
  the entries of a user whose row the transaction holds,
* `Pre`: the preconditions; that of `commit` is that the transaction is a `Change` of the
  ledger.
-/

namespace Pubky.Homeserver.Storage

open Sql Conc

variable {cfg : Config} {C : StorageCrates} {strict steady : Prop} {i j : ℕ} {s s' : State}

/-- What never goes back. -/
structure Grows (s s' : State) : Prop where
  userIds : s.userIds <+: s'.userIds
  entryIds : s.entryIds <+: s'.entryIds
  users : ∀ r ∈ s.users.rows, ∃ r' ∈ s'.users.rows, r'.publicKey = r.publicKey
  clock : s.clock ≤ s'.clock
  nextGeneration : s.nextGeneration ≤ s'.nextGeneration
  unlocked : ∀ e ∈ s.unlocked, e ∈ s'.unlocked
  journal : ∀ n, .acquired n ∈ s.journal → .acquired n ∈ s'.journal
  old : ∀ f g, Old s.blobs s.nextGeneration s.journal f g →
    Old s'.blobs s'.nextGeneration s'.journal f g

/-- The blob belongs to the user with this key. -/
def Blob.OfUser (b : Blob) (k : Text) : Prop :=
  k ++ ['/'] <+: b.key

/-- What nobody else changes while the transaction of call `j` is alive. -/
structure Same (steady : Prop) (j : ℕ) (s s' : State) : Prop where
  users : s'.users.writesOf j = s.users.writesOf j
  entries : s'.entries.writesOf j = s.entries.writesOf j
  events : s'.events.writesOf j = s.events.writesOf j
  entryLocks : s'.entryLocks.writesOf j = s.entryLocks.writesOf j
  locks : ∀ k, (j, k) ∈ s.users.locks → (j, k) ∈ s'.users.locks
  userRows : ∀ r : UserRow, (j, r.publicKey) ∈ s.users.locks →
    (r ∈ s'.users.rows ↔ r ∈ s.users.rows)
  entryRows : ∀ r : EntryRow, ∀ k, (j, k) ∈ s.users.locks → s.userIds[r.user]? = some k →
    (r ∈ s'.entries.rows ↔ r ∈ s.entries.rows)
  eventLock : s.eventLock = some j → s'.eventLock = some j ∧ s'.events.rows = s.events.rows
  held : ∀ h ∈ s.held, h.thread = j → h ∈ s'.held
  noHeld : (∀ h ∈ s.held, h.thread ≠ j) → ∀ h ∈ s'.held, h.thread ≠ j
  blobs : steady → ∀ b : Blob, ∀ k, '/' ∉ k → (j, k) ∈ s.users.locks → b.OfUser k →
    (b ∈ s'.blobs ↔ b ∈ s.blobs)

/-- What call `j` may count on when anyone else moves. -/
structure Rely (steady : Prop) (j : ℕ) (w w' : Wld) : Prop where
  hist : w.hist <:+ w'.hist
  calls : ∀ c, .call j c ∈ w'.hist → .call j c ∈ w.hist
  grows : Grows w.state w'.state
  txs : ∀ n, (∃ a, ⟨j, n, a⟩ ∈ w'.state.txs) ↔ ∃ a, ⟨j, n, a⟩ ∈ w.state.txs
  acquired : ∀ n, (∃ a, ⟨j, n, a⟩ ∈ w.state.txs) → .acquired n ∉ w.state.journal →
    .acquired n ∉ w'.state.journal
  lost : w.state.lost j = true → w'.state.lost j = true
  same : w'.state.alive j = true → w.state.alive j = true ∧ Same steady j w.state w'.state

theorem Grows.refl (s : State) : Grows s s where
  userIds := List.prefix_refl _
  entryIds := List.prefix_refl _
  users := fun r hr => ⟨r, hr, rfl⟩
  clock := Int.le_refl _
  nextGeneration := Nat.le_refl _
  unlocked := fun _ h => h
  journal := fun _ h => h
  old := fun _ _ h => h

theorem Grows.trans {s'' : State} (h : Grows s s') (h' : Grows s' s'') : Grows s s'' where
  userIds := h.userIds.trans h'.userIds
  entryIds := h.entryIds.trans h'.entryIds
  users := by
    intro r hr
    obtain ⟨r', hr', hk⟩ := h.users r hr
    obtain ⟨r'', hr'', hk'⟩ := h'.users r' hr'
    exact ⟨r'', hr'', hk'.trans hk⟩
  clock := Int.le_trans h.clock h'.clock
  nextGeneration := Nat.le_trans h.nextGeneration h'.nextGeneration
  unlocked := fun e he => h'.unlocked e (h.unlocked e he)
  journal := fun n hn => h'.journal n (h.journal n hn)
  old := fun f g ho => h'.old f g (h.old f g ho)

theorem Same.refl (steady : Prop) (j : ℕ) (s : State) : Same steady j s s where
  users := rfl
  entries := rfl
  events := rfl
  entryLocks := rfl
  locks := fun _ h => h
  userRows := fun _ _ => Iff.rfl
  entryRows := fun _ _ _ _ => Iff.rfl
  eventLock := fun h => ⟨h, rfl⟩
  held := fun _ h _ => h
  noHeld := fun h => h
  blobs := fun _ _ _ _ _ _ => Iff.rfl

theorem Rely.refl (steady : Prop) (j : ℕ) (w : Wld) : Rely steady j w w where
  hist := List.suffix_refl _
  calls := fun _ h => h
  grows := Grows.refl _
  txs := fun _ => Iff.rfl
  acquired := fun _ _ h => h
  lost := fun h => h
  same := fun h => ⟨h, Same.refl _ _ _⟩

/-- Two moves of others that respect the transaction of `j`. -/
theorem Same.trans {s'' : State} (hg : Grows s s') (h : Same steady j s s')
    (h' : Same steady j s' s'') : Same steady j s s'' where
  users := h'.users.trans h.users
  entries := h'.entries.trans h.entries
  events := h'.events.trans h.events
  entryLocks := h'.entryLocks.trans h.entryLocks
  locks := fun k hk => h'.locks k (h.locks k hk)
  userRows := fun r hr => (h'.userRows r (h.locks _ hr)).trans (h.userRows r hr)
  entryRows := fun r k hk hu =>
    (h'.entryRows r k (h.locks k hk) (getElem?_of_extends hg.userIds hu)).trans
      (h.entryRows r k hk hu)
  eventLock := by
    intro he
    obtain ⟨he₁, hr₁⟩ := h.eventLock he
    obtain ⟨he₂, hr₂⟩ := h'.eventLock he₁
    exact ⟨he₂, hr₂.trans hr₁⟩
  held := fun x hx hj => h'.held x (h.held x hx hj) hj
  noHeld := fun hx => h'.noHeld (h.noHeld hx)
  blobs := fun hs b k hc hk hb =>
    (h'.blobs hs b k hc (h.locks k hk) hb).trans (h.blobs hs b k hc hk hb)

theorem Rely.trans {w w' w'' : Wld} (h : Rely steady j w w') (h' : Rely steady j w' w'') :
    Rely steady j w w'' where
  hist := h.hist.trans h'.hist
  calls := fun c hc => h.calls c (h'.calls c hc)
  grows := h.grows.trans h'.grows
  txs := fun n => (h'.txs n).trans (h.txs n)
  acquired := fun n hn ha => h'.acquired n ((h.txs n).2 hn) (h.acquired n hn ha)
  lost := fun hl => h'.lost (h.lost hl)
  same := by
    intro ha
    obtain ⟨ha', hs'⟩ := h'.same ha
    obtain ⟨ha'', hs⟩ := h.same ha'
    exact ⟨ha'', hs.trans h.grows hs'⟩

/-! ## Preconditions -/

/-- Operations that a write issues before it knows about locks. -/
def Op.Checks : Op → Prop
  | .getUser _ | .getEntry _ | .getActiveLock _ => True
  | _ => False

/-- The transaction of call `i` is alive and satisfies `P`, or it is lost, so that no statement
has an effect. -/
def During (s : State) (i : ℕ) (P : Prop) : Prop :=
  s.lost i = true ∨ s.alive i = true ∧ P

/-- Call `i` has no transaction. -/
def Outside (s : State) (i : ℕ) : Prop :=
  ∀ t ∈ s.txs, t.thread ≠ i

/-- The transaction of call `i` that writes entries for a request with tokens holds the lock of
the file with one of them. -/
def HoldsLock (C : StorageCrates) (w : Wld) (i : ℕ) : Prop :=
  ∀ r, .call i (.request r) ∈ w.hist → r.IsWrite → r.tokens ≠ [] →
    w.state.entries.writesOf i ≠ [] →
    ∃ h ∈ w.state.held, h.thread = i ∧ h.token ∈ r.tokens ∧
      ∃ e, r.target C = .ok e ∧ h.key = e.asStr C

/-- The precondition of a request to the backend. -/
structure SendPre (cfg : Config) (C : StorageCrates) (steady : Prop) (i : ℕ)
    (request : BackendRequest) (w : Wld) : Prop where
  ok : RequestOk C w.hist w.state.blobs w.state.nextGeneration w.state.journal i
    (w.state.txNumber i) request
  conditional : cfg.backend = .googleBucket → request.expected.isSome
  /-- In a steady run, files change under the row of their user, and blobs are removed only
  if no entry refers to them. -/
  steady : steady → w.state.alive i = true ∧ ∃ e : EntryPath, request.key = e.asStr C ∧
    (i, C.z32 e.pubkey) ∈ w.state.users.locks ∧
    ∀ key expected, request = .remove key expected → w.state.entries.writesOf i = [] ∧
      ∀ r ∈ w.state.entries.rows, w.state.userIds[r.user]? = some (C.z32 e.pubkey) →
        r.path ≠ e.path.asStr

/-- The precondition of an operation, apart from the checks before a write. -/
def OpPre (cfg : Config) (C : StorageCrates) (strict steady : Prop) (i : ℕ) (w : Wld) : Op → Prop
  | .commit => w.state.alive i = true →
      Change strict w.state.ledger (w.state.ledgerOf i) ∧ HoldsLock C w i
  | .lockUser _ => During w.state i (∀ n, (∃ a, ⟨i, n, a⟩ ∈ w.state.txs) →
      .acquired n ∉ w.state.journal)
  | .updateUser user => During w.state i (∃ e, InScope C w.hist i e ∧
      w.state.userIds[user.id]? = some (C.z32 e.pubkey))
  | .setQuota userId _ => During w.state i (∃ e, InScope C w.hist i e ∧
      w.state.userIds[userId]? = some (C.z32 e.pubkey))
  | .createEntry userId path _ => During w.state i (∃ e, InScope C w.hist i e ∧
      e.path = path ∧ w.state.userIds[userId]? = some (C.z32 e.pubkey) ∧
      (i, C.z32 e.pubkey) ∈ w.state.users.locks ∧
      (steady → ∃ b ∈ w.state.blobs, b.key = e.asStr C))
  | .updateEntry id _ => During w.state i (∃ e, InScope C w.hist i e ∧
      OwnedBy C w.state.userIds w.state.entryIds id e ∧
      (i, C.z32 e.pubkey) ∈ w.state.users.locks ∧
      (steady → ∃ b ∈ w.state.blobs, b.key = e.asStr C))
  | .deleteEntry id => During w.state i (∃ e, InScope C w.hist i e ∧
      OwnedBy C w.state.userIds w.state.entryIds id e ∧
      (i, C.z32 e.pubkey) ∈ w.state.users.locks)
  | .lockEvents => During w.state i True
  | .insertEvent userId _ path => During w.state i (w.state.eventLock = some i ∧
      InScope C w.hist i path ∧ w.state.userIds[userId]? = some (C.z32 path.pubkey))
  | .getActiveLock _ => Outside w.state i
  | .takeLock _ _ => During w.state i True
  | .extendLock path _ _ _ now => During w.state i (InScope C w.hist i path ∧
      now ≤ w.state.clock ∧ ∀ h ∈ w.state.held, h.thread ≠ i)
  | .holdLock _ _ now => During w.state i (now ≤ w.state.clock ∧
      w.state.entryLocks.writesOf i = [])
  | .acquireLock path _ _ now => Outside w.state i ∧ InScope C w.hist i path ∧
      now ≤ w.state.clock
  | .releaseLock path _ => Outside w.state i ∧ InScope C w.hist i path
  | .deleteExpiredLocks now => Outside w.state i ∧ now ≤ w.state.clock
  | .send request => SendPre cfg C steady i request w
  | .copyBlob _ _ | .renameBlob _ _ => ¬ steady ∧ Outside w.state i ∧
      ∃ access operation, .call i (.operate access operation) ∈ w.hist
  | .spawnKeepAlive path _ => InScope C w.hist i path
  | _ => True

/-- The precondition of an operation. -/
def Pre (cfg : Config) (C : StorageCrates) (strict steady : Prop) (i : ℕ) (o : Op) (w : Wld) :
    Prop :=
  (o.Checks ∨ Unlocked C w.hist w.state.unlocked i) ∧ OpPre cfg C strict steady i w o

/-! ## Admitted runs -/

/-- Whose files an operation changes. -/
def Operation.keys : Operation → List Text
  | .write key _ => [key]
  | .delete keys _ => keys
  | .copy source target | .rename source target => [source, target]
  | .createDir key => [key]

/-- Which transitions a run may take. Rounds of a keep-alive task belong to a request that has
one; a `strict` run has no operations through the admin operator; in a `steady` run no
transaction is lost, no call is dropped in a transaction, no request to the backend is late, and
files of existing users are written and deleted only. -/
def Admits (C : StorageCrates) (strict steady : Prop) (w : Wld) : Lbl → Prop
  | .call _ (.keepAlive parent path token) => ⟨parent, path, token⟩ ∈ w.state.keepAlives
  | .call _ (.operate access operation) => (strict → access = .app) ∧
      (steady → (match operation with | .write _ _ | .delete _ _ => True | _ => False) ∧
        ∀ key ∈ operation.keys, ∀ e, parseOpendal C (C.normalizePath key) = .ok e →
          ∃ r ∈ w.state.users.rows, r.publicKey = C.z32 e.pubkey)
  | .call _ _ => True
  | .op _ _ (.late _) => ¬ steady
  | .op _ _ _ => True
  | .ret _ _ => True
  | .drop i => steady → w.state.alive i = false
  | .env (.lose _) => ¬ steady
  | .env _ => True

end Pubky.Homeserver.Storage

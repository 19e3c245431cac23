import Pubky.Homeserver.Storage.Ledger

/-!
# The invariant of the storage

What holds between any two operations, however the calls interleave. Each part speaks about
the fields of the state that it depends on, so that an operation which leaves them alone keeps
it by definition.

Two parameters say which runs are considered: `strict` runs write through the operator of the
client server only, and in `steady` runs transactions live until they are ended, backend calls
take effect before they return, and files are only written and deleted.
-/

namespace Pubky.Homeserver.Storage

open Sql Conc

/-! ## What a call may touch -/

/-- The calls started so far, and their results. -/
abbrev Hist := List (Event Call Out)

/-- The file that a request is about. -/
def Request.target (C : StorageCrates) (r : Request) : Except HttpError EntryPath := do
  let tenant ← (RequestTenant.fromRequest C r.head).mapError HttpError.badRequest
  let route ← (matchRoute r.head.rawPath).okOr .notFound
  routeTarget C tenant route

/-- The session of a request allows it to write a file that it is about. -/
structure Request.Entitles (C : StorageCrates) (r : Request) (e : EntryPath) : Prop where
  target : r.target C = .ok e
  root : ∃ root ∈ storageRoots, root <+: e.path.asStr
  session : ∃ session, r.session = some session ∧ Entitled session e.pubkey e.path .write

/-- The files that a call may touch. -/
def Call.Touches (C : StorageCrates) (e : EntryPath) : Call → Prop
  | .request r => r.Entitles C e
  | .keepAlive _ path _ => e = path
  | .operate _ _ | .patchQuota _ _ | .setDisabled _ _ => True

/-- Call `i` may touch a file. -/
def InScope (C : StorageCrates) (hist : Hist) (i : ℕ) (e : EntryPath) : Prop :=
  ∃ c, .call i c ∈ hist ∧ c.Touches C e

theorem InScope.mono {C : StorageCrates} {hist hist' : Hist} {i : ℕ} {e : EntryPath}
    (h : InScope C hist i e) (hh : hist <:+ hist') : InScope C hist' i e := by
  obtain ⟨c, hc, ht⟩ := h
  exact ⟨c, hh.subset hc, ht⟩

/-- The tokens that a request presents. -/
def Request.tokens (r : Request) : List Text :=
  ifHeaderTokens r.head.headers

/-- `PUT` or `DELETE` -/
def Request.IsWrite (r : Request) : Prop :=
  r.method = .put ∨ r.method = .delete

/-- If call `i` is a write that presents no token, it has found its file without a live lock. -/
def Unlocked (C : StorageCrates) (hist : Hist) (unlocked : List (ℕ × Text)) (i : ℕ) : Prop :=
  ∀ r, .call i (.request r) ∈ hist → r.IsWrite → r.tokens = [] →
    ∃ e, r.target C = .ok e ∧ (i, e.asStr C) ∈ unlocked

/-! ## Keys -/

/-- The id belongs to an entry of the file `e`. -/
def OwnedBy (C : StorageCrates) (userIds : List Text) (entryIds : List (ℕ × Text)) (id : ℕ)
    (e : EntryPath) : Prop :=
  ∃ u, entryIds[id]? = some (u, e.path.asStr) ∧ userIds[u]? = some (C.z32 e.pubkey)

theorem getElem?_of_extends {α : Type} {l l' : List α} {n : ℕ} {a : α} (h : l <+: l')
    (ha : l[n]? = some a) : l'[n]? = some a := by
  obtain ⟨t, rfl⟩ := h
  have hn : n < l.length := (List.getElem?_eq_some_iff.1 ha).1
  rw [List.getElem?_append_left hn, ha]

theorem OwnedBy.mono {C : StorageCrates} {userIds userIds' : List Text}
    {entryIds entryIds' : List (ℕ × Text)} {id : ℕ} {e : EntryPath}
    (h : OwnedBy C userIds entryIds id e) (hu : userIds <+: userIds')
    (he : entryIds <+: entryIds') : OwnedBy C userIds' entryIds' id e := by
  obtain ⟨u, h₁, h₂⟩ := h
  exact ⟨u, getElem?_of_extends he h₁, getElem?_of_extends hu h₂⟩

/-! ## The journal -/

/-- Transaction `g` locked a user row after transaction `f` had ended. The journal has its
newest entry first. -/
def AcquiredAfterEnd (g f : ℕ) : List Mark → Prop
  | [] => False
  | m :: ms => m = .acquired g ∧ .ended f ∈ ms ∨ AcquiredAfterEnd g f ms

theorem AcquiredAfterEnd.ended_mem {g f : ℕ} {journal : List Mark}
    (h : AcquiredAfterEnd g f journal) : .ended f ∈ journal := by
  induction journal with
  | nil => exact h.elim
  | cons m ms ih =>
    rcases h with ⟨-, h⟩ | h
    · exact List.mem_cons_of_mem _ h
    · exact List.mem_cons_of_mem _ (ih h)

/-- Only a new acquisition of `g` itself can come after an end. -/
theorem AcquiredAfterEnd.of_append {g f : ℕ} {ms journal : List Mark}
    (h : AcquiredAfterEnd g f (ms ++ journal)) (hg : .acquired g ∉ ms) :
    AcquiredAfterEnd g f journal := by
  induction ms with
  | nil => exact h
  | cons m ms ih =>
    rcases h with ⟨rfl, -⟩ | h
    · simp at hg
    · exact ih h fun hm => hg (List.mem_cons_of_mem _ hm)

/-- The generation was read when no object published after the end of transaction `f` was
there. -/
structure Old (blobs : List Blob) (nextGeneration : ℕ) (journal : List Mark) (f g : ℕ) : Prop where
  lt : g < nextGeneration
  blobs : ∀ b ∈ blobs, ∀ n, b.publisher = some n → AcquiredAfterEnd n f journal → g < b.generation

/-! ## Parts of the invariant -/

structure UsersOk (C : StorageCrates) (hist : Hist) (users : Table UserRow Text)
    (userIds : List Text) : Prop where
  locked : users.Locked
  unique : UniqueKeys users.rows
  rows : ∀ r ∈ users.rows, userIds[r.id]? = some r.publicKey
  puts : ∀ j r, .put r ∈ users.writesOf j → userIds[r.id]? = some r.publicKey ∧
    ∃ e, InScope C hist j e ∧ r.publicKey = C.z32 e.pubkey
  noDel : ∀ j k, .del k ∉ users.writesOf j
  lockRows : ∀ l ∈ users.locks, ∃ r ∈ users.rows, r.publicKey = l.2
  keys : ∀ k ∈ userIds, ∃ key, k = C.z32 key
  present : ∀ k ∈ userIds, ∃ r ∈ users.rows, r.publicKey = k
  nodup : userIds.Nodup

structure EntriesOk (C : StorageCrates) (hist : Hist) (entries : Table EntryRow ℕ)
    (entryIds : List (ℕ × Text)) (userIds : List Text) (userLocks : List (ℕ × Text)) : Prop where
  unique : UniqueKeys entries.rows
  rows : ∀ r ∈ entries.rows, entryIds[r.id]? = some (r.user, r.path)
  puts : ∀ j r, .put r ∈ entries.writesOf j → entryIds[r.id]? = some (r.user, r.path)
  users : ∀ x ∈ entryIds, ∃ k, userIds[x.1]? = some k
  /-- Whoever changes an entry holds the row of its user. -/
  owned : ∀ j, ∀ wr ∈ entries.writesOf j, ∃ e, InScope C hist j e ∧
    OwnedBy C userIds entryIds wr.key e ∧ (j, C.z32 e.pubkey) ∈ userLocks

structure EventsOk (C : StorageCrates) (hist : Hist) (events : Table EventRow ℕ) (nextEventId : ℕ)
    (eventLock : Option ℕ) (userIds : List Text) : Prop where
  rows : ∀ ev ∈ events.rows, ev.id < nextEventId
  users : ∀ ev ∈ events.rows, ∃ k, userIds[ev.user]? = some k
  /-- Only the holder of the advisory lock has uncommitted events; their ids are new. -/
  writes : ∀ j, ∀ wr ∈ events.writesOf j, eventLock = some j ∧ ∃ ev e, wr = .put ev ∧
    ev.id < nextEventId ∧ (∀ old ∈ events.rows, old.id < ev.id) ∧ InScope C hist j e ∧
    userIds[ev.user]? = some (C.z32 e.pubkey) ∧ ev.path = e.path.asStr

structure TxsOk (txs : List Tx) (nextTx : ℕ) (journal : List Mark) : Prop where
  threads : (txs.map Tx.thread).Nodup
  numbers : (txs.map Tx.number).Nodup
  below : ∀ t ∈ txs, t.number < nextTx
  recorded : ∀ n, .acquired n ∈ journal ∨ .ended n ∈ journal → n < nextTx
  notEnded : ∀ t ∈ txs, t.alive = true → .ended t.number ∉ journal

/-- Call `j` has no writes and no locks. -/
structure Quiet (s : State) (j : ℕ) : Prop where
  users : s.users.writesOf j = []
  entries : s.entries.writesOf j = []
  events : s.events.writesOf j = []
  entryLocks : s.entryLocks.writesOf j = []
  userLocks : ∀ k, (j, k) ∉ s.users.locks
  lockLocks : ∀ k, (j, k) ∉ s.entryLocks.locks
  eventLock : s.eventLock ≠ some j
  held : ∀ h ∈ s.held, h.thread ≠ j
  published : ∀ p ∈ s.published, p.1 ≠ j

structure LocksOk (C : StorageCrates) (hist : Hist) (entryLocks : Table EntryLockRow Text)
    (held : List Held) (clock : ℤ) : Prop where
  locked : entryLocks.Locked
  unique : UniqueKeys entryLocks.rows
  noDel : ∀ j k, .del k ∉ entryLocks.writesOf j
  /-- A transaction may change the expiry of a lock, not its token. -/
  puts : ∀ j r, .put r ∈ entryLocks.writesOf j →
    (∃ old ∈ entryLocks.rows, old.path = r.path ∧ old.token = r.token) ∧
    ∃ e, InScope C hist j e ∧ r.path = e.asStr C
  held : ∀ h ∈ held, (h.thread, h.key) ∈ entryLocks.locks ∧ h.found < h.expiresAt ∧
    h.found ≤ clock ∧ ⟨h.key, h.token, h.expiresAt⟩ ∈ entryLocks.rows ∧
    entryLocks.writesOf h.thread = []

/-- What a request that is sent to the backend satisfies, in the transaction that sends it. -/
structure RequestOk (C : StorageCrates) (hist : Hist) (blobs : List Blob) (nextGeneration : ℕ)
    (journal : List Mark) (i : ℕ) (tx : Option ℕ) (request : BackendRequest) : Prop where
  scope : ∃ e, request.key = e.asStr C ∧ InScope C hist i e
  tx : ∃ n, tx = some n ∧
    (∀ g, request.expected = some (.known g) → Old blobs nextGeneration journal n g) ∧
    (∀ key content expected, request = .publish key content expected → .acquired n ∈ journal)

structure StoreOk (C : StorageCrates) (hist : Hist) (blobs : List Blob) (nextGeneration : ℕ)
    (inFlight : List InFlight) (journal : List Mark) : Prop where
  unique : (blobs.map Blob.key).Nodup
  generations : ∀ b ∈ blobs, b.generation < nextGeneration
  publishers : ∀ b ∈ blobs, ∀ n, b.publisher = some n → .acquired n ∈ journal
  inFlight : ∀ f ∈ inFlight, f.request.expected.isSome ∧
    RequestOk C hist blobs nextGeneration journal f.thread f.tx f.request

/-- Rows and blobs in a steady run. -/
structure SteadyOk (C : StorageCrates) (entries : Table EntryRow ℕ) (userIds : List Text)
    (blobs : List Blob) (userLocks : List (ℕ × Text)) (published : List (ℕ × Text))
    (inFlight : List InFlight) : Prop where
  rows : ∀ r ∈ entries.rows, ∀ k, userIds[r.user]? = some k → ∃ b ∈ blobs, b.key = k ++ r.path
  puts : ∀ j r, .put r ∈ entries.writesOf j → ∀ k, userIds[r.user]? = some k →
    ∃ b ∈ blobs, b.key = k ++ r.path
  published : ∀ j key, (j, key) ∈ published →
    ∃ e : EntryPath, key = e.asStr C ∧ (j, C.z32 e.pubkey) ∈ userLocks
  inFlight : inFlight = []

structure CallsOk (C : StorageCrates) (hist : Hist) (keepAlives : List KeepAlive) : Prop where
  keepAlives : ∀ k ∈ keepAlives, InScope C hist k.thread k.path
  rounds : ∀ j parent path token, .call j (.keepAlive parent path token) ∈ hist →
    InScope C hist parent path

/-- The invariant. -/
structure Inv (C : StorageCrates) (steady : Prop) (w : Wld) : Prop where
  users : UsersOk C w.hist w.state.users w.state.userIds
  entries : EntriesOk C w.hist w.state.entries w.state.entryIds w.state.userIds w.state.users.locks
  events : EventsOk C w.hist w.state.events w.state.nextEventId w.state.eventLock w.state.userIds
  txs : TxsOk w.state.txs w.state.nextTx w.state.journal
  owners : ∀ t ∈ w.state.txs, w.Started t.thread
  live : steady → ∀ t ∈ w.state.txs, t.alive = true
  idle : ∀ j, w.state.alive j = false → Quiet w.state j
  locks : LocksOk C w.hist w.state.entryLocks w.state.held w.state.clock
  store : StoreOk C w.hist w.state.blobs w.state.nextGeneration w.state.inFlight w.state.journal
  steady : steady → SteadyOk C w.state.entries w.state.userIds w.state.blobs w.state.users.locks
    w.state.published w.state.inFlight
  calls : CallsOk C w.hist w.state.keepAlives

end Pubky.Homeserver.Storage

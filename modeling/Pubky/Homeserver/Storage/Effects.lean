import Pubky.Homeserver.Storage.Requests

/-!
# What an operation does to the state

`Effect` lists the ways in which an operation of a call can change the state, with the
conditions that the database or the backend checks before it does. Every invariant of the
system is proved by cases on it; `exec_effect` says that there are no other changes. What a
call learns from an answer is said by the lemmas `exec_*` for the single operations.
-/

namespace Pubky.Homeserver.Storage

open Sql

variable {cfg : Config} {C : StorageCrates} {i j : ℕ} {s s' : State} {c : Choice}

/-! ## Transactions -/

theorem State.alive_iff : s.alive i = true ↔ ∃ n, ⟨i, n, true⟩ ∈ s.txs := by
  simp only [State.alive, List.any_eq_true, Bool.and_eq_true, decide_eq_true_eq]
  constructor
  · rintro ⟨⟨_, n, _⟩, ht, rfl, rfl⟩
    exact ⟨n, ht⟩
  · rintro ⟨n, ht⟩
    exact ⟨_, ht, rfl, rfl⟩

theorem State.lost_iff : s.lost i = true ↔ ∃ n, ⟨i, n, false⟩ ∈ s.txs := by
  simp only [State.lost, List.any_eq_true, Bool.and_eq_true, decide_eq_true_eq,
    Bool.not_eq_true']
  constructor
  · rintro ⟨⟨_, n, _⟩, ht, rfl, rfl⟩
    exact ⟨n, ht⟩
  · rintro ⟨n, ht⟩
    exact ⟨_, ht, rfl, rfl⟩

/-! ## Effects -/

/-- The user that an operation on `users` writes, and how. -/
def Op.writesUser : Op → Option (ℕ × (UserRow → UserRow))
  | .updateUser user =>
    some (user.id, fun r => { r with disabled := user.disabled, usedBytes := user.usedBytes })
  | .setQuota userId quota => some (userId, fun r => { r with quota := quota })
  | _ => none

/-- The change from `s` to `s'` by operation `o` of call `i`. -/
inductive Effect (cfg : Config) (C : StorageCrates) (i : ℕ) (s : State) : Op → State → Prop where
  | same (o : Op) : Effect cfg C i s o s
  | begin (hnew : ∀ t ∈ s.txs, t.thread ≠ i) :
      Effect cfg C i s .begin { s with txs := ⟨i, s.nextTx, true⟩ :: s.txs, nextTx := s.nextTx + 1 }
  | commit (ha : s.alive i = true) : Effect cfg C i s .commit (s.commit i)
  | rollback (o : Op) (ho : o = .commit ∨ o = .rollback) : Effect cfg C i s o (s.rollback i)
  | lockUser (key : PublicKey) (row : UserRow) (hl : s.lost i = false)
      (hrow : lookup (s.users.view i) (C.z32 key) = some row)
      (hb : s.users.blocked i (C.z32 key) = false) :
      Effect cfg C i s (.lockUser key)
        { s with
          users := s.users.lock i (C.z32 key)
          journal := (s.txs.filter fun t => t.thread = i).map (Mark.acquired ·.number) ++
            s.journal }
  | writeUser (o : Op) (userId : ℕ) (f : UserRow → UserRow) (ho : o.writesUser = some (userId, f))
      (hl : s.lost i = false) (named row : UserRow) (hnamed : named ∈ s.users.view i)
      (hid : named.id = userId) (hrow : row ∈ s.users.view i)
      (hkey : row.publicKey = named.publicKey) (hb : s.users.blocked i row.publicKey = false) :
      Effect cfg C i s o { s with users := s.users.write i (.put (f row)) }
  | drawEntryId (userId : ℕ) (path : StoragePath) (metadata : FileMetadata)
      (hl : s.lost i = false) :
      Effect cfg C i s (.createEntry userId path metadata)
        { s with entryIds := s.entryIds ++ [(userId, path.asStr)] }
  | createEntry (userId : ℕ) (path : StoragePath) (metadata : FileMetadata)
      (hl : s.lost i = false)
      (hnew : ∀ r ∈ s.entries.view i, r.user = userId → r.path ≠ path.asStr) :
      Effect cfg C i s (.createEntry userId path metadata)
        { s with
          entryIds := s.entryIds ++ [(userId, path.asStr)]
          entries := s.entries.write i (.put
            { id := s.entryIds.length, user := userId, path := path.asStr
              contentHash := metadata.hash, contentLength := metadata.length
              contentType := metadata.contentType }) }
  | updateEntry (id : ℕ) (metadata : FileMetadata) (hl : s.lost i = false) (row : EntryRow)
      (hrow : row ∈ s.entries.view i) (hid : row.id = id)
      (hb : s.entries.blocked i id = false) :
      Effect cfg C i s (.updateEntry id metadata)
        { s with
          entries := s.entries.write i (.put
            { row with contentHash := metadata.hash, contentLength := metadata.length
                       contentType := metadata.contentType }) }
  | deleteEntry (id : ℕ) (hl : s.lost i = false) (hb : s.entries.blocked i id = false) :
      Effect cfg C i s (.deleteEntry id) { s with entries := s.entries.write i (.del id) }
  | lockEvents (hl : s.lost i = false) (hfree : ∀ j, s.eventLock = some j → j = i) :
      Effect cfg C i s .lockEvents { s with eventLock := some i }
  | insertEvent (userId : ℕ) (type : EventType) (path : EntryPath) (hl : s.lost i = false) :
      Effect cfg C i s (.insertEvent userId type path)
        { s with
          events := s.events.write i (.put
            { id := s.nextEventId, user := userId, type := type.toText, path := path.path.asStr
              contentHash := type.contentHash })
          nextEventId := s.nextEventId + 1 }
  | noLock (path : EntryPath) (hnone : s.getActiveLock C i path = none) :
      Effect cfg C i s (.getActiveLock path)
        { s with unlocked := (i, path.asStr C) :: s.unlocked }
  | acquireLock (path : EntryPath) (token : Text) (lifetime now : ℤ) (hl : s.lost i = false)
      (hb : s.entryLocks.blocked i (path.asStr C) = false)
      (hold : ∀ old, lookup s.entryLocks.rows (path.asStr C) = some old → old.expiresAt ≤ now) :
      Effect cfg C i s (.acquireLock path token lifetime now)
        (s.setEntryLock (.put ⟨path.asStr C, token, now + lifetime⟩))
  | deleteExpiredLocks (now : ℤ) (hl : s.lost i = false)
      (hb : ∀ r ∈ s.entryLocks.rows, r.expiresAt ≤ now →
        s.entryLocks.blocked i r.path = false) :
      Effect cfg C i s (.deleteExpiredLocks now)
        { s with entryLocks := { s.entryLocks with
            rows := s.entryLocks.rows.filter fun r => ¬ r.expiresAt ≤ now } }
  | takeLock (path : EntryPath) (tokens : List Text) (hl : s.lost i = false)
      (hb : s.entryLocks.blocked i (path.asStr C) = false) :
      Effect cfg C i s (.takeLock path tokens)
        { s with entryLocks := s.entryLocks.lock i (path.asStr C) }
  | extendLock (path : EntryPath) (tokens : List Text) (keep : Bool) (seconds now expiresAt : ℤ)
      (hl : s.lost i = false) (row : EntryLockRow)
      (hrow : lookup (s.entryLocks.view i) (path.asStr C) = some row)
      (hb : s.entryLocks.blocked i (path.asStr C) = false) :
      Effect cfg C i s (.extendLock path tokens keep seconds now)
        { s with entryLocks := s.entryLocks.write i (.put { row with expiresAt := expiresAt }) }
  | holdLock (path : EntryPath) (now : ℤ) (hl : s.lost i = false) (row : EntryLockRow)
      (hrow : lookup (s.entryLocks.view i) (path.asStr C) = some row)
      (hb : s.entryLocks.blocked i (path.asStr C) = false) (hlive : now < row.expiresAt) :
      Effect cfg C i s (.holdLock path row.token now)
        { s with
          entryLocks := s.entryLocks.lock i (path.asStr C)
          held := ⟨i, path.asStr C, row.token, now, row.expiresAt⟩ :: s.held }
  | releaseLock (path : EntryPath) (token : Text) (hl : s.lost i = false)
      (hb : s.entryLocks.blocked i (path.asStr C) = false) :
      Effect cfg C i s (.releaseLock path token) (s.setEntryLock (.del (path.asStr C)))
  | late (request : BackendRequest) (kind : ErrorKind) (hbackend : cfg.backend = .googleBucket) :
      Effect cfg C i s (.send request)
        { s with inFlight := s.inFlight ++ [⟨i, s.txNumber i, request⟩] }
  | carriedOut (request : BackendRequest) (hmeets : s.meets request.key request.expected = true) :
      Effect cfg C i s (.send request)
        ((s.carryOut (s.txNumber i) request).2.notePublished i request)
  | copyBlob (source target : Text) (b : Blob) (hbackend : cfg.backend = .fileSystem)
      (hb : s.blob? source = some b) :
      Effect cfg C i s (.copyBlob source target) (s.putBlob target b.content (s.txNumber i))
  | renameBlob (source target : Text) (b : Blob) (hbackend : cfg.backend = .fileSystem)
      (hb : s.blob? source = some b) :
      Effect cfg C i s (.renameBlob source target)
        ((s.removeBlob source).putBlob target b.content (s.txNumber i))
  | quotaCache (o : Op) (quotaCache : List (PublicKey × Option UserQuota)) :
      Effect cfg C i s o { s with quotaCache := quotaCache }
  | spawnKeepAlive (path : EntryPath) (token : Text) :
      Effect cfg C i s (.spawnKeepAlive path token)
        { s with keepAlives := ⟨i, path, token⟩ :: s.keepAlives }
  | stopKeepAlive (thread : Option ℕ) :
      Effect cfg C i s (.stopKeepAlive thread)
        { s with keepAlives := s.keepAlives.filter fun k => k.thread ≠ thread.getD i }

/-! ## Answers -/

variable {α : Type}

/-- A statement that the environment does not let fail without an effect was carried out. -/
theorem answer_eq_some {x : Option (Except SqlError α × State)} {r : Except SqlError α}
    (h : answer c i s x = some (r, s')) :
    s' = s ∨ s.lost i = false ∧ ∃ r', x = some (r', s') := by
  unfold answer at h
  split at h
  · exact .inl (Prod.mk.inj (Option.some.inj h)).2.symm
  · rename_i hl
    have hl : s.lost i = false := by simpa using hl
    cases c with
    | done => exact .inr ⟨hl, r, h⟩
    | failed kind => exact .inl (Prod.mk.inj (Option.some.inj h)).2.symm
    | lost kind =>
      obtain ⟨⟨r', u⟩, hx, hu⟩ := Option.map_eq_some_iff.1 h
      obtain ⟨-, rfl⟩ := Prod.mk.inj hu
      exact .inr ⟨hl, r', hx⟩
    | late | token => cases h

/-- A statement that answers anything but a failure of the database was carried out and gave
its own answer. -/
theorem answer_eq {x : Option (Except SqlError α × State)} {r : Except SqlError α}
    (hr : r ≠ .error .database) (h : answer c i s x = some (r, s')) :
    s.lost i = false ∧ x = some (r, s') := by
  unfold answer at h
  split at h
  · exact absurd (Prod.mk.inj (Option.some.inj h)).1.symm hr
  · rename_i hl
    have hl : s.lost i = false := by simpa using hl
    cases c with
    | done => exact ⟨hl, h⟩
    | failed kind => exact absurd (Prod.mk.inj (Option.some.inj h)).1.symm hr
    | lost kind =>
      obtain ⟨⟨r', u⟩, -, hu⟩ := Option.map_eq_some_iff.1 h
      exact absurd (Prod.mk.inj hu).1.symm hr
    | late | token => cases h

/-- A query leaves the state alone. -/
theorem reads_state {x r : Except SqlError α} (h : reads c i s x = some (r, s')) : s' = s := by
  rcases answer_eq_some h with h | ⟨-, r', h⟩
  · exact h
  · exact (Prod.mk.inj (Option.some.inj h)).2.symm

theorem reads_eq {x r : Except SqlError α} (hr : r ≠ .error .database)
    (h : reads c i s x = some (r, s')) : s.lost i = false ∧ x = r ∧ s' = s := by
  obtain ⟨hl, h⟩ := answer_eq hr h
  cases h
  exact ⟨hl, rfl, rfl⟩

/-- The backend's answer: the request was carried out, or nothing happened. -/
theorem backendAnswer_eq_some {x : Except OpendalError α × State} {r : Except OpendalError α}
    (h : backendAnswer c s x = some (r, s')) : s' = s ∨ s' = x.2 := by
  cases c with
  | done => exact .inr (congrArg Prod.snd (Option.some.inj h)).symm
  | failed kind => exact .inl (Prod.mk.inj (Option.some.inj h)).2.symm
  | lost kind => exact .inr (Prod.mk.inj (Option.some.inj h)).2.symm
  | late | token => cases h

theorem backendAnswer_eq_ok {x : Except OpendalError α × State} {a : α}
    (h : backendAnswer c s x = some (.ok a, s')) : x = (.ok a, s') := by
  cases c with
  | done => exact Option.some.inj h
  | failed kind => cases (Prod.mk.inj (Option.some.inj h)).1
  | lost kind => cases (Prod.mk.inj (Option.some.inj h)).1
  | late | token => cases h

/-! ## Inversion -/

theorem lockUser_effect {key : PublicKey} {r : Except SqlError UserEntity} (hl : s.lost i = false)
    (h : s.lockUser C i key = some (r, s')) : Effect cfg C i s (.lockUser key) s' := by
  simp only [State.lockUser, Table.selectForUpdate] at h
  cases hrow : lookup (s.users.view i) (C.z32 key) with
  | none =>
    simp only [hrow] at h
    cases h
    exact .same _
  | some row =>
    cases hb : s.users.blocked i (C.z32 key) with
    | true => simp [hrow, hb] at h
    | false =>
      simp only [hrow, hb, Bool.false_eq_true, if_false] at h
      cases h
      exact .lockUser key row hl hrow hb

theorem updateUserById_effect {o : Op} {userId : ℕ} {f : UserRow → UserRow}
    {r : Except SqlError UserEntity} (ho : o.writesUser = some (userId, f)) (hl : s.lost i = false)
    (h : s.updateUserById C i userId f = some (r, s')) : Effect cfg C i s o s' := by
  simp only [State.updateUserById, Table.update] at h
  cases hnamed : (s.users.view i).find? fun r => r.id = userId with
  | none =>
    simp only [hnamed] at h
    cases h
    exact .same _
  | some named =>
    simp only [hnamed] at h
    cases hrow : lookup (s.users.view i) named.publicKey with
    | none =>
      simp only [hrow] at h
      cases h
      exact .same _
    | some row =>
      obtain ⟨hmem, hkey⟩ := lookup_eq_some hrow
      have hkey : row.publicKey = named.publicKey := hkey
      cases hb : s.users.blocked i named.publicKey with
      | true => simp [hrow, hb] at h
      | false =>
        simp only [hrow, hb, Bool.false_eq_true, if_false] at h
        cases h
        exact .writeUser o userId f ho hl named row (List.mem_of_find?_eq_some hnamed)
          (by simpa using List.find?_some hnamed) hmem hkey (by rwa [hkey])

theorem createEntry_effect {userId : ℕ} {path : StoragePath} {metadata : FileMetadata}
    {r : Except SqlError Unit} (hl : s.lost i = false)
    (h : s.createEntry i userId path metadata = some (r, s')) :
    Effect cfg C i s (.createEntry userId path metadata) s' := by
  simp only [State.createEntry] at h
  split at h
  · cases h
    exact .same _
  · split at h
    · cases h
      exact .drawEntryId userId path metadata hl
    · rename_i hfree
      cases h
      refine .createEntry userId path metadata hl fun r hr hu hp => hfree ?_
      have : (s.entries.view i).any (fun r => r.user = userId && r.path = path.asStr) = true :=
        List.any_eq_true.2 ⟨r, hr, by simp [hu, hp]⟩
      simp [this]

theorem updateEntry_effect {id : ℕ} {metadata : FileMetadata} {r : Except SqlError Unit}
    (hl : s.lost i = false) (h : s.updateEntry i id metadata = some (r, s')) :
    Effect cfg C i s (.updateEntry id metadata) s' := by
  simp only [State.updateEntry, Table.update] at h
  split at h
  · cases h
    exact .same _
  · cases hrow : lookup (s.entries.view i) id with
    | none =>
      simp only [hrow] at h
      cases h
      exact .same _
    | some row =>
      obtain ⟨hmem, hid⟩ := lookup_eq_some hrow
      cases hb : s.entries.blocked i id with
      | true => simp [hrow, hb] at h
      | false =>
        simp only [hrow, hb, Bool.false_eq_true, if_false] at h
        cases h
        exact .updateEntry id metadata hl row hmem hid hb

theorem deleteEntry_effect {id : ℕ} {r : Except SqlError Unit} (hl : s.lost i = false)
    (h : s.deleteEntry i id = some (r, s')) : Effect cfg C i s (.deleteEntry id) s' := by
  simp only [State.deleteEntry] at h
  split at h
  · cases h
    exact .same _
  · split at h
    · cases h
    · rename_i hb
      cases h
      exact .deleteEntry id hl (by simpa using hb)

theorem lockEvents_effect {r : Except SqlError Unit} (hl : s.lost i = false)
    (h : s.lockEvents i = some (r, s')) : Effect cfg C i s .lockEvents s' := by
  simp only [State.lockEvents] at h
  split at h
  · cases h
  · rename_i hfree
    cases h
    refine .lockEvents hl fun j hj => ?_
    simpa [hj] using hfree

theorem acquireLock_effect {path : EntryPath} {token : Text} {lifetime now : ℤ}
    {r : Except SqlError (Option EntryLockRow)} (hl : s.lost i = false)
    (h : s.acquireLock C i path token lifetime now = some (r, s')) :
    Effect cfg C i s (.acquireLock path token lifetime now) s' := by
  simp only [State.acquireLock] at h
  split at h
  · cases h
  · rename_i hb
    have hb : s.entryLocks.blocked i (path.asStr C) = false := by simpa using hb
    split at h
    · rename_i old hold
      split at h
      · rename_i hexp
        cases h
        refine .acquireLock path token lifetime now hl hb fun old' hold' => ?_
        rwa [← Option.some.inj (hold.symm.trans hold')]
      · cases h
        exact .same _
    · rename_i hnone
      cases h
      refine .acquireLock path token lifetime now hl hb fun old hold => ?_
      cases hnone.symm.trans hold

theorem deleteExpiredLocks_effect {now : ℤ} {r : Except SqlError Unit} (hl : s.lost i = false)
    (h : s.deleteExpiredLocks i now = some (r, s')) :
    Effect cfg C i s (.deleteExpiredLocks now) s' := by
  simp only [State.deleteExpiredLocks] at h
  split at h
  · cases h
  · rename_i hb
    cases h
    exact .deleteExpiredLocks now hl (by simpa using hb)

theorem takeLock_effect {path : EntryPath} {tokens : List Text} {r : Except SqlError Unit}
    (hl : s.lost i = false) (h : s.takeLock C i path tokens = some (r, s')) :
    Effect cfg C i s (.takeLock path tokens) s' := by
  simp only [State.takeLock] at h
  cases hrow : lookup (s.entryLocks.view i) (path.asStr C) with
  | none =>
    simp only [hrow] at h
    cases h
    exact .same _
  | some row =>
    have hpath : row.path = path.asStr C := (lookup_eq_some hrow).2
    simp only [hrow, hpath] at h
    split at h
    · cases h
    · rename_i hb
      split at h
      · cases h
        exact .takeLock path tokens hl (by simpa using hb)
      · cases h
        exact .same _

theorem extendLock_effect {path : EntryPath} {tokens : List Text} {keep : Bool}
    {seconds now : ℤ} {r : Except SqlError (Option EntryLockRow)} (hl : s.lost i = false)
    (h : s.extendLock C i path tokens keep seconds now = some (r, s')) :
    Effect cfg C i s (.extendLock path tokens keep seconds now) s' := by
  simp only [State.extendLock] at h
  cases hrow : lookup (s.entryLocks.view i) (path.asStr C) with
  | none =>
    simp only [hrow] at h
    cases h
    exact .same _
  | some row =>
    have hpath : row.path = path.asStr C := (lookup_eq_some hrow).2
    simp only [hrow] at h
    split at h
    · cases h
    · rename_i hb
      split at h
      · cases h
        exact .extendLock path tokens keep seconds now _ hl row hrow (by simpa [hpath] using hb)
      · cases h
        exact .same _

theorem holdLock_effect {path : EntryPath} {token : Text} {now : ℤ} {r : Except SqlError Bool}
    (hl : s.lost i = false) (h : s.holdLock C i path token now = some (r, s')) :
    Effect cfg C i s (.holdLock path token now) s' := by
  simp only [State.holdLock] at h
  cases hrow : lookup (s.entryLocks.view i) (path.asStr C) with
  | none =>
    simp only [hrow] at h
    cases h
    exact .same _
  | some row =>
    have hpath : row.path = path.asStr C := (lookup_eq_some hrow).2
    simp only [hrow, hpath] at h
    split at h
    · cases h
    · rename_i hb
      split at h
      · rename_i hlive
        obtain ⟨rfl, hlive⟩ := hlive
        cases h
        exact .holdLock path now hl row hrow (by simpa using hb) hlive
      · cases h
        exact .same _

theorem releaseLock_effect {path : EntryPath} {token : Text} {r : Except SqlError Bool}
    (hl : s.lost i = false) (h : s.releaseLock C i path token = some (r, s')) :
    Effect cfg C i s (.releaseLock path token) s' := by
  simp only [State.releaseLock] at h
  cases hrow : lookup s.entryLocks.rows (path.asStr C) with
  | none =>
    simp only [hrow] at h
    cases h
    exact .same _
  | some row =>
    have hpath : row.path = path.asStr C := (lookup_eq_some hrow).2
    simp only [hrow, hpath] at h
    split at h
    · cases h
    · rename_i hb
      split at h
      · cases h
        exact .releaseLock path token hl (by simpa using hb)
      · cases h
        exact .same _

/-- A statement either has no effect or is carried out. -/
theorem answer_effect {o : Op} {x : Option (Except SqlError α × State)} {r : Except SqlError α}
    (h : answer c i s x = some (r, s'))
    (hx : ∀ {r'}, s.lost i = false → x = some (r', s') → Effect cfg C i s o s') :
    Effect cfg C i s o s' := by
  rcases answer_eq_some h with rfl | ⟨hl, r', h⟩
  · exact .same _
  · exact hx hl h

/-- What a request to the backend leaves behind, if it is carried out. -/
theorem carryOut_of_meets {tx : Option ℕ} {request : BackendRequest}
    (h : s.meets request.key request.expected = true) :
    s.carryOut tx request = (.ok (), (s.carryOut tx request).2) := by
  cases request <;> simp [State.carryOut, h]

theorem carryOut_of_not_meets {tx : Option ℕ} {request : BackendRequest}
    (h : s.meets request.key request.expected = false) :
    s.carryOut tx request = (.error ⟨.conditionNotMatch, none⟩, s) := by
  simp [State.carryOut, h]

theorem send_effect {request : BackendRequest} {r : Except OpendalError Unit}
    (h : s.send cfg i request c = some (r, s')) : Effect cfg C i s (.send request) s' := by
  cases c with
  | late kind =>
    simp only [State.send] at h
    cases hbackend : cfg.backend with
    | fileSystem => simp [hbackend] at h
    | googleBucket =>
      simp only [hbackend] at h
      cases h
      exact .late request kind hbackend
  | done | failed | lost | token =>
    simp only [State.send] at h
    cases hm : s.meets request.key request.expected with
    | true =>
      rw [carryOut_of_meets hm] at h
      rcases backendAnswer_eq_some h with rfl | rfl
      · exact .same _
      · exact .carriedOut request hm
    | false =>
      rw [carryOut_of_not_meets hm] at h
      rcases backendAnswer_eq_some h with rfl | rfl <;> exact .same _

theorem copyBlob_effect {source target : Text} {r : Except OpendalError Unit}
    (h : backendAnswer c s (s.copyBlob cfg i source target) = some (r, s')) :
    Effect cfg C i s (.copyBlob source target) s' := by
  rcases backendAnswer_eq_some h with rfl | rfl
  · exact .same _
  · cases hbackend : cfg.backend with
    | googleBucket => simpa [State.copyBlob, hbackend] using .same _
    | fileSystem =>
      cases hb : s.blob? source with
      | none => simpa [State.copyBlob, hbackend, hb] using .same _
      | some b => simpa [State.copyBlob, hbackend, hb] using .copyBlob source target b hbackend hb

theorem renameBlob_effect {source target : Text} {r : Except OpendalError Unit}
    (h : backendAnswer c s (s.renameBlob cfg i source target) = some (r, s')) :
    Effect cfg C i s (.renameBlob source target) s' := by
  rcases backendAnswer_eq_some h with rfl | rfl
  · exact .same _
  · cases hbackend : cfg.backend with
    | googleBucket => simpa [State.renameBlob, hbackend] using .same _
    | fileSystem =>
      cases hb : s.blob? source with
      | none => simpa [State.renameBlob, hbackend, hb] using .same _
      | some b =>
        simpa [State.renameBlob, hbackend, hb] using .renameBlob source target b hbackend hb

/-- `Effect` covers every operation. -/
theorem exec_effect {o : Op} {r : o.Res} (h : exec cfg C i o c s = some (r, s')) :
    Effect cfg C i s o s' := by
  cases o with
  | begin =>
    cases c with
    | done =>
      simp only [exec] at h
      split at h
      · cases h
      · rename_i hnew
        cases h
        exact .begin (by simpa using hnew)
    | failed kind =>
      cases h
      exact .same _
    | lost | late | token => cases h
  | commit =>
    simp only [exec] at h
    split at h
    · rename_i ha
      cases c with
      | done =>
        cases h
        exact .commit ha
      | failed kind =>
        cases h
        exact .rollback _ (.inl rfl)
      | lost kind =>
        cases h
        exact .commit ha
      | late | token => cases h
    · cases h
      exact .rollback _ (.inl rfl)
  | rollback =>
    cases c with
    | done =>
      cases h
      exact .rollback _ (.inr rfl)
    | failed kind =>
      cases h
      exact .rollback _ (.inr rfl)
    | lost | late | token => cases h
  | ping => exact reads_state h ▸ .same _
  | getUser key => exact reads_state h ▸ .same _
  | lockUser key => exact answer_effect h lockUser_effect
  | updateUser user =>
    exact answer_effect h (updateUserById_effect rfl)
  | setQuota userId quota =>
    exact answer_effect h (updateUserById_effect rfl)
  | getEntry path => exact reads_state h ▸ .same _
  | hasCollision path => exact reads_state h ▸ .same _
  | createEntry userId path metadata => exact answer_effect h createEntry_effect
  | updateEntry id metadata => exact answer_effect h updateEntry_effect
  | deleteEntry id => exact answer_effect h deleteEntry_effect
  | lockEvents => exact answer_effect h lockEvents_effect
  | insertEvent userId type path =>
    rcases answer_eq_some h with rfl | ⟨hl, r', h⟩
    · exact .same _
    · cases h
      exact .insertEvent userId type path hl
  | statementTimestamp =>
    cases h
    exact .same _
  | newToken =>
    cases c with
    | token t =>
      cases h
      exact .same _
    | _ => cases h
  | getActiveLock path =>
    rcases answer_eq_some h with rfl | ⟨hl, r', h⟩
    · exact .same _
    · cases h
      split
      · rename_i hnone
        exact .noLock path (Option.isNone_iff_eq_none.1 hnone)
      · exact .same _
  | acquireLock path token lifetime now => exact answer_effect h acquireLock_effect
  | deleteExpiredLocks now => exact answer_effect h deleteExpiredLocks_effect
  | takeLock path tokens => exact answer_effect h takeLock_effect
  | extendLock path tokens keep seconds now => exact answer_effect h extendLock_effect
  | holdLock path token now => exact answer_effect h holdLock_effect
  | releaseLock path token => exact answer_effect h releaseLock_effect
  | stat key =>
    rcases backendAnswer_eq_some h with rfl | rfl <;> exact .same _
  | upload =>
    rcases backendAnswer_eq_some h with rfl | rfl <;> exact .same _
  | send request => exact send_effect h
  | copyBlob source target => exact copyBlob_effect h
  | renameBlob source target => exact renameBlob_effect h
  | createDir key =>
    rcases backendAnswer_eq_some h with rfl | rfl <;> exact .same _
  | cachedQuota key =>
    cases h
    exact .same _
  | cacheQuota key quota =>
    cases h
    exact .quotaCache _ _
  | uncacheQuota key =>
    cases h
    exact .quotaCache _ _
  | spawnKeepAlive path token =>
    cases h
    exact .spawnKeepAlive path token
  | stopKeepAlive thread =>
    cases h
    exact .stopKeepAlive thread

end Pubky.Homeserver.Storage

import Pubky.Homeserver.Storage.Logic

/-!
# What operations leave alone

Every operation of a call is a move that all other calls may rely on: `effect_rely`. It
goes by cases on `Effect`. What is never undone (`effect_grows`) depends on the preconditions
only where a user row is locked; what the transaction of another call counts on
(`effect_same`) is protected by the row locks that this transaction holds.
-/

namespace Pubky.Homeserver.Storage

open Sql Conc

variable {cfg : Config} {C : StorageCrates} {strict steady : Prop} {i j : ℕ} {w : Wld}
  {s s' : State} {o : Op}

/-! ## The backend -/

theorem mem_putBlob {key : Text} {content : Bytes} {tx : Option ℕ} {b : Blob} :
    b ∈ (s.putBlob key content tx).blobs ↔
      (b ∈ s.blobs ∧ b.key ≠ key) ∨ b = ⟨key, content, s.nextGeneration, tx⟩ := by
  simp [State.putBlob]

theorem mem_removeBlob {key : Text} {b : Blob} :
    b ∈ (s.removeBlob key).blobs ↔ b ∈ s.blobs ∧ b.key ≠ key := by
  simp [State.removeBlob]

theorem Old.putBlob {f g : ℕ} (h : Old s.blobs s.nextGeneration s.journal f g) (key : Text)
    (content : Bytes) (tx : Option ℕ) :
    Old (s.putBlob key content tx).blobs (s.putBlob key content tx).nextGeneration s.journal
      f g where
  lt := Nat.lt_succ_of_lt h.lt
  blobs := by
    intro b hb n hn ha
    rcases mem_putBlob.1 hb with ⟨hb, -⟩ | rfl
    · exact h.blobs b hb n hn ha
    · exact h.lt

theorem Old.removeBlob {f g : ℕ} (h : Old s.blobs s.nextGeneration s.journal f g) (key : Text) :
    Old (s.removeBlob key).blobs s.nextGeneration s.journal f g where
  lt := h.lt
  blobs := fun b hb => h.blobs b (mem_removeBlob.1 hb).1

/-- Marks that acquire nothing for a publisher leave generations old. -/
theorem Old.marks {f g n : ℕ} {blobs : List Blob} {journal ms : List Mark}
    (h : Old blobs n journal f g)
    (hms : ∀ b ∈ blobs, ∀ m, b.publisher = some m → .acquired m ∉ ms) :
    Old blobs n (ms ++ journal) f g where
  lt := h.lt
  blobs := fun b hb m hm ha => h.blobs b hb m hm (ha.of_append (hms b hb m hm))

theorem acquired_not_mem_ended (l : List Tx) (m : ℕ) :
    Mark.acquired m ∉ l.map (Mark.ended ·.number) := by
  simp

theorem carryOut_grows (tx : Option ℕ) (request : BackendRequest) :
    Grows s (s.carryOut tx request).2 := by
  unfold State.carryOut
  split
  · cases request with
    | publish key content expected =>
      exact { Grows.refl s with
        nextGeneration := Nat.le_succ _
        old := fun f g h => h.putBlob key content tx }
    | remove key expected =>
      exact { Grows.refl s with old := fun f g h => h.removeBlob key }
  · exact Grows.refl s

theorem carryOut_eq (s : State) (tx : Option ℕ) (request : BackendRequest) :
    (s.carryOut tx request).2 = { s with
      blobs := (s.carryOut tx request).2.blobs
      nextGeneration := (s.carryOut tx request).2.nextGeneration } := by
  unfold State.carryOut
  split
  · cases request <;> rfl
  · rfl

theorem notePublished_eq (s : State) (i : ℕ) (request : BackendRequest) :
    s.notePublished i request = { s with published := (s.notePublished i request).published } := by
  cases request with
  | publish key content expected =>
    rw [State.notePublished]
    split <;> rfl
  | remove key expected => rfl

/-! ## What never goes back -/

theorem commit_users_grow (hu : UsersOk C w.hist s.users s.userIds) :
    ∀ r ∈ s.users.rows, ∃ r' ∈ s.users.view i, r'.publicKey = r.publicKey :=
  fun _ hr => exists_key_of_mem_foldl (fun k => hu.noDel i k) hr

theorem finish_grows {txs : List Tx} (s₀ : State)
    (h : Grows s₀ s) : Grows s₀ (s.finish i txs) :=
  { h with
    journal := fun n hn => List.mem_append_right _ (h.journal n hn)
    old := fun f g ho => (h.old f g ho).marks fun _ _ m _ => acquired_not_mem_ended _ m }

theorem commit_grows (hu : UsersOk C w.hist s.users s.userIds) : Grows s (s.commit i) :=
  finish_grows s { Grows.refl s with users := commit_users_grow hu }

theorem undo_grows : Grows s (s.undo i) :=
  { Grows.refl s with }

theorem effect_grows (hi : Inv C steady w) (hpre : OpPre cfg C strict steady i w o)
    (h : Effect cfg C i w.state o s') : Grows w.state s' := by
  have hrefl := Grows.refl w.state
  cases h with
  | commit ha => exact commit_grows hi.users
  | rollback _ ho => exact finish_grows w.state undo_grows
  | lockUser key row hl hrow hb =>
    refine { hrefl with
      journal := fun n hn => List.mem_append_right _ hn
      old := fun f g ho => ho.marks fun b hb m hm hmem => ?_ }
    -- a publisher has locked its user row before, and a transaction does so once
    rcases hpre with hlost | ⟨-, hfresh⟩
    · simp [hl] at hlost
    · obtain ⟨t, ht, hm'⟩ := List.mem_map.1 hmem
      obtain ⟨ht, hth⟩ := List.mem_filter.1 ht
      obtain rfl : t.number = m := Mark.acquired.inj hm'
      refine hfresh t.number ⟨t.alive, ?_⟩ (hi.store.publishers b hb _ hm)
      have hth : t.thread = i := by simpa using hth
      exact hth ▸ ht
  | drawEntryId userId path metadata hl =>
    exact { hrefl with entryIds := List.prefix_append _ _ }
  | createEntry userId path metadata hl hnew =>
    exact { hrefl with entryIds := List.prefix_append _ _ }
  | noLock path hnone =>
    exact { hrefl with unlocked := fun e he => List.mem_cons_of_mem _ he }
  | carriedOut request hmeets =>
    rw [notePublished_eq]
    exact { carryOut_grows (w.state.txNumber i) request with }
  | copyBlob source target b hbackend hb =>
    exact { hrefl with
      nextGeneration := Nat.le_succ _
      old := fun f g ho => ho.putBlob _ _ _ }
  | renameBlob source target b hbackend hb =>
    exact { hrefl with
      nextGeneration := Nat.le_succ _
      old := fun f g ho => Old.putBlob (ho.removeBlob source) _ _ _ }
  | same => exact hrefl
  | begin hnew => exact { hrefl with }
  | writeUser => exact { hrefl with }
  | updateEntry => exact { hrefl with }
  | deleteEntry => exact { hrefl with }
  | lockEvents => exact { hrefl with }
  | insertEvent => exact { hrefl with }
  | acquireLock => exact { hrefl with }
  | deleteExpiredLocks => exact { hrefl with }
  | takeLock => exact { hrefl with }
  | extendLock => exact { hrefl with }
  | holdLock => exact { hrefl with }
  | releaseLock => exact { hrefl with }
  | late => exact { hrefl with }
  | quotaCache => exact { hrefl with }
  | spawnKeepAlive => exact { hrefl with }
  | stopKeepAlive => exact { hrefl with }

/-! ## Transactions of others -/

/-- A request that is carried out changes only blobs and the record of publications. -/
theorem carriedOut_eq (s : State) (i : ℕ) (tx : Option ℕ) (request : BackendRequest) :
    (s.carryOut tx request).2.notePublished i request = { s with
      blobs := (s.carryOut tx request).2.blobs
      nextGeneration := (s.carryOut tx request).2.nextGeneration
      published := ((s.carryOut tx request).2.notePublished i request).published } := by
  have h := carryOut_eq s tx request
  rw [notePublished_eq]
  generalize (s.carryOut tx request).2 = s' at h ⊢
  generalize (s'.notePublished i request).published = published
  rw [h]

theorem mem_txsWithout {t : Tx} : t ∈ s.txsWithout i ↔ t ∈ s.txs ∧ t.thread ≠ i := by
  simp [State.txsWithout]

/-- An operation touches no transaction but its own. -/
theorem effect_txs (hj : j ≠ i) (h : Effect cfg C i s o s') (n : ℕ) (a : Bool) :
    ⟨j, n, a⟩ ∈ s'.txs ↔ ⟨j, n, a⟩ ∈ s.txs := by
  cases h with
  | begin hnew => simp [hj]
  | commit ha => exact mem_txsWithout.trans (and_iff_left hj)
  | rollback _ ho => exact mem_txsWithout.trans (and_iff_left hj)
  | carriedOut request hmeets => rw [carriedOut_eq]
  | _ => exact Iff.rfl

theorem alive_congr (h : ∀ n a, ⟨j, n, a⟩ ∈ s'.txs ↔ ⟨j, n, a⟩ ∈ s.txs) :
    s'.alive j = s.alive j := by
  rw [Bool.eq_iff_iff, State.alive_iff, State.alive_iff]
  exact exists_congr fun n => h n true

theorem lost_congr (h : ∀ n a, ⟨j, n, a⟩ ∈ s'.txs ↔ ⟨j, n, a⟩ ∈ s.txs) :
    s'.lost j = s.lost j := by
  rw [Bool.eq_iff_iff, State.lost_iff, State.lost_iff]
  exact exists_congr fun n => h n false

/-- Two transactions with one number are one. -/
theorem TxsOk.eq_of_number {txs : List Tx} {n nextTx : ℕ} {journal : List Mark}
    (h : TxsOk txs nextTx journal) {a b : Bool} (hi : ⟨i, n, a⟩ ∈ txs) (hj : ⟨j, n, b⟩ ∈ txs) :
    i = j :=
  congrArg Tx.thread (List.inj_on_of_nodup_map h.numbers hi hj rfl)

/-- An operation does not lock a user row for another transaction. -/
theorem effect_acquired (hi : TxsOk s.txs s.nextTx s.journal) (hj : j ≠ i)
    (h : Effect cfg C i s o s') {n : ℕ} (hn : ∃ a, ⟨j, n, a⟩ ∈ s.txs)
    (ha : .acquired n ∉ s.journal) : .acquired n ∉ s'.journal := by
  have hends : ∀ l : List Tx, .acquired n ∉ l.map (Mark.ended ·.number) ++ s.journal :=
    fun l hm => (List.mem_append.1 hm).elim (acquired_not_mem_ended l n) ha
  cases h with
  | commit _ => exact hends _
  | rollback _ _ => exact hends _
  | lockUser key row hl hrow hb =>
    intro hm
    rcases List.mem_append.1 hm with hm | hm
    · obtain ⟨t, ht, hm'⟩ := List.mem_map.1 hm
      obtain ⟨hmem, hth⟩ := List.mem_filter.1 ht
      obtain rfl : t.number = n := Mark.acquired.inj hm'
      obtain ⟨a, hja⟩ := hn
      have hth : t.thread = i := by simpa using hth
      exact hj ((hi.eq_of_number hja hmem).trans hth)
    · exact ha hm
  | carriedOut request hmeets => rwa [carriedOut_eq]
  | _ => exact ha

/-! ## Rows that another transaction holds -/

/-- Writes of transaction `i` leave a row alone that `j` has locked. -/
theorem mem_view_of_locked {V K : Type} [Keyed V K] [DecidableEq K] {t : Table V K}
    (ht : t.Locked) (hj : j ≠ i) {v : V} (hv : (j, key v) ∈ t.locks) :
    v ∈ t.view i ↔ v ∈ t.rows :=
  mem_foldl_of_untouched fun _ hw hk => hj (ht.excl hv (hk ▸ ht.writes hw))

/-- An entry that transaction `i` writes belongs to a user whose row `i` has locked. -/
theorem EntriesOk.locked_of_write {hist : Hist} {entries : Table EntryRow ℕ}
    {entryIds : List (ℕ × Text)} {userIds : List Text} {userLocks : List (ℕ × Text)}
    (h : EntriesOk C hist entries entryIds userIds userLocks) {wr : Write EntryRow ℕ}
    (hw : wr ∈ entries.writesOf i) {u : ℕ} {p : Text} (hid : entryIds[wr.key]? = some (u, p)) :
    ∃ k, userIds[u]? = some k ∧ (i, k) ∈ userLocks := by
  obtain ⟨e, -, ⟨u', hu', hk⟩, hl⟩ := h.owned i wr hw
  obtain ⟨rfl, -⟩ := Prod.mk.inj (Option.some.inj (hid.symm.trans hu'))
  exact ⟨_, hk, hl⟩

/-- A commit of `i` leaves the entries of a user alone whose row `j` has locked. -/
theorem mem_entries_view_of_locked (hu : UsersOk C w.hist s.users s.userIds)
    (he : EntriesOk C w.hist s.entries s.entryIds s.userIds s.users.locks) (hj : j ≠ i)
    {r : EntryRow} {k : Text} (hk : (j, k) ∈ s.users.locks) (hr : s.userIds[r.user]? = some k) :
    r ∈ s.entries.view i ↔ r ∈ s.entries.rows := by
  -- a write of `i` to the id of `r` would need the lock on the row of the same user
  have hcontra : ∀ wr ∈ s.entries.writesOf i, wr.key = r.id →
      s.entryIds[r.id]? = some (r.user, r.path) → False := by
    intro wr hw hid hown
    obtain ⟨k', hk', hl⟩ := he.locked_of_write hw (hid.symm ▸ hown)
    obtain rfl := Option.some.inj (hr.symm.trans hk')
    exact hj (hu.locked.excl hk hl)
  by_cases htouched : ∃ wr ∈ s.entries.writesOf i, wr.key = r.id
  · obtain ⟨wr, hw, hid⟩ := htouched
    constructor
    · intro hmem
      rcases mem_or_put_of_mem_foldl hmem with hmem | hput
      · exact hmem
      · exact (hcontra wr hw hid (he.puts i r hput)).elim
    · exact fun hmem => (hcontra wr hw hid (he.rows r hmem)).elim
  · exact mem_foldl_of_untouched fun wr hw hk => htouched ⟨wr, hw, hk⟩

/-- While `j` holds the advisory lock, nobody else commits events. -/
theorem EventsOk.view_of_locked {hist : Hist} {events : Table EventRow ℕ} {nextEventId : ℕ}
    {eventLock : Option ℕ} {userIds : List Text}
    (h : EventsOk C hist events nextEventId eventLock userIds) (hj : j ≠ i)
    (hl : eventLock = some j) : events.view i = events.rows := by
  refine Table.view_of_writesOf_eq_nil (List.eq_nil_iff_forall_not_mem.2 fun wr hw => ?_)
  exact hj (Option.some.inj (hl.symm.trans (h.writes i wr hw).1))

/-- The key of a user's file names no other user. -/
theorem OfUser.unique {b : Blob} {k k' : Text} (hk : '/' ∉ k) (hk' : '/' ∉ k')
    (h : b.OfUser k) (h' : b.OfUser k') : k = k' := by
  obtain ⟨t, ht⟩ := h
  obtain ⟨t', ht'⟩ := h'
  have hsplit := Text.splitOnce_append (u := t) hk
  have hsplit' := Text.splitOnce_append (u := t') hk'
  simp only [List.append_assoc, List.singleton_append] at ht ht'
  rw [ht] at hsplit
  rw [ht'] at hsplit'
  exact (Prod.mk.inj (Option.some.inj (hsplit.symm.trans hsplit'))).1

theorem Blob.ofUser_of_key {b : Blob} {e : EntryPath} (h : b.key = e.asStr C) :
    b.OfUser (C.z32 e.pubkey) := by
  obtain ⟨rest, hrest⟩ := e.path.eq_cons
  exact ⟨rest, by rw [h, EntryPath.asStr, hrest, List.append_assoc]; rfl⟩

/-- A request to the backend changes the blob at its key only. -/
theorem mem_blobs_of_key_ne {tx : Option ℕ} {request : BackendRequest} {b : Blob}
    (h : b.key ≠ request.key) : b ∈ (s.carryOut tx request).2.blobs ↔ b ∈ s.blobs := by
  unfold State.carryOut
  split
  · cases request with
    | publish key content expected =>
      refine mem_putBlob.trans ⟨?_, fun hmem => .inl ⟨hmem, h⟩⟩
      rintro (⟨hmem, -⟩ | rfl)
      · exact hmem
      · exact absurd rfl h
    | remove key expected => exact mem_removeBlob.trans (and_iff_left h)
  · exact Iff.rfl

/-- A request for a file of a user whose row `i` holds leaves the blobs of the others alone. -/
theorem mem_blobs_carryOut (hC : C.Lawful) (hu : s.users.Locked) (hj : j ≠ i) {tx : Option ℕ}
    {request : BackendRequest} {e : EntryPath} (hkey : request.key = e.asStr C)
    (hlock : (i, C.z32 e.pubkey) ∈ s.users.locks) {b : Blob} {k : Text} (hslash : '/' ∉ k)
    (hk : (j, k) ∈ s.users.locks) (hb : b.OfUser k) :
    b ∈ (s.carryOut tx request).2.blobs ↔ b ∈ s.blobs := by
  refine mem_blobs_of_key_ne fun heq => ?_
  have hmine := Blob.ofUser_of_key (heq.trans hkey)
  obtain rfl := OfUser.unique hslash (hC.slash_not_mem_z32 _) hb hmine
  exact hj (hu.excl hk hlock)

/-- The end of another transaction, after which the given rows are committed. -/
theorem finish_same (hj : j ≠ i) {txs : List Tx} {users : List UserRow} {entries : List EntryRow}
    {events : List EventRow} {locks : List EntryLockRow}
    (hu : ∀ r : UserRow, (j, r.publicKey) ∈ s.users.locks → (r ∈ users ↔ r ∈ s.users.rows))
    (he : ∀ r : EntryRow, ∀ k, (j, k) ∈ s.users.locks → s.userIds[r.user]? = some k →
      (r ∈ entries ↔ r ∈ s.entries.rows))
    (hev : s.eventLock = some j → events = s.events.rows) :
    Same steady j s
      ({ s with
        users := s.users.finish i users
        entries := s.entries.finish i entries
        events := s.events.finish i events
        entryLocks := s.entryLocks.finish i locks }.finish i txs) where
  users := Table.writesOf_finish_of_ne hj
  entries := Table.writesOf_finish_of_ne hj
  events := Table.writesOf_finish_of_ne hj
  entryLocks := Table.writesOf_finish_of_ne hj
  locks := fun k hk => Table.mem_locks_finish.2 ⟨hk, hj⟩
  userRows := hu
  entryRows := he
  eventLock := by
    intro hl
    have hne : s.eventLock ≠ some i := fun h => hj (Option.some.inj (hl.symm.trans h))
    exact ⟨(if_neg hne).trans hl, hev hl⟩
  held := fun h hh hth => List.mem_filter.2 ⟨hh, by simpa [hth] using hj⟩
  noHeld := fun hall h hh => hall h (List.mem_filter.1 hh).1
  blobs := fun _ _ _ _ _ _ => Iff.rfl

theorem rollback_same (hj : j ≠ i) (txs : List Tx) : Same steady j s ((s.undo i).finish i txs) :=
  finish_same hj (fun _ _ => Iff.rfl) (fun _ _ _ _ => Iff.rfl) fun _ => rfl

theorem commit_same (hi : Inv C steady w) (hj : j ≠ i) :
    Same steady j w.state (w.state.commit i) :=
  finish_same hj (fun _ hr => mem_view_of_locked hi.users.locked hj hr)
    (fun _ _ hk hr => mem_entries_view_of_locked hi.users hi.entries hj hk hr)
    fun hl => hi.events.view_of_locked hj hl

/-- No operation of `i` changes what the transaction of `j` counts on. -/
theorem effect_same (hC : C.Lawful) (hi : Inv C steady w) (hj : j ≠ i)
    (hpre : OpPre cfg C strict steady i w o) (h : Effect cfg C i w.state o s') :
    Same steady j w.state s' := by
  have hrefl := Same.refl steady j w.state
  cases h with
  | commit ha => exact commit_same hi hj
  | rollback _ ho => exact rollback_same hj _
  | lockUser key row hl hrow hb =>
    exact { hrefl with locks := fun k hk => List.mem_cons_of_mem _ hk }
  | writeUser o userId f ho hl named row hnamed hid hrow hkey hb =>
    exact { hrefl with
      users := Table.writesOf_write_of_ne hj
      locks := fun k hk => List.mem_cons_of_mem _ hk }
  | createEntry userId path metadata hl hnew =>
    exact { hrefl with entries := Table.writesOf_write_of_ne hj }
  | updateEntry id metadata hl row hrow hid hb =>
    exact { hrefl with entries := Table.writesOf_write_of_ne hj }
  | deleteEntry id hl hb => exact { hrefl with entries := Table.writesOf_write_of_ne hj }
  | lockEvents hl hfree => exact { hrefl with eventLock := fun he => absurd (hfree j he) hj }
  | insertEvent userId type path hl =>
    exact { hrefl with events := Table.writesOf_write_of_ne hj }
  | extendLock path tokens keep seconds now expiresAt hl row hrow hb =>
    exact { hrefl with entryLocks := Table.writesOf_write_of_ne hj }
  | holdLock path now hl row hrow hb hlive =>
    refine { hrefl with
      held := fun h hh _ => List.mem_cons_of_mem _ hh
      noHeld := fun hall h hh => ?_ }
    rcases List.mem_cons.1 hh with rfl | hh
    · exact Ne.symm hj
    · exact hall h hh
  | carriedOut request hmeets =>
    rw [carriedOut_eq]
    refine { hrefl with blobs := fun hs b k hslash hk hb => ?_ }
    obtain ⟨-, e, hkey, hlock, -⟩ := hpre.steady hs
    exact mem_blobs_carryOut hC hi.users.locked hj hkey hlock hslash hk hb
  | copyBlob source target b hbackend hb =>
    exact { hrefl with blobs := fun hs => absurd hs hpre.1 }
  | renameBlob source target b hbackend hb =>
    exact { hrefl with blobs := fun hs => absurd hs hpre.1 }
  | same => exact hrefl
  | begin hnew => exact { hrefl with }
  | drawEntryId => exact { hrefl with }
  | noLock => exact { hrefl with }
  | acquireLock => exact { hrefl with }
  | deleteExpiredLocks => exact { hrefl with }
  | takeLock => exact { hrefl with }
  | releaseLock => exact { hrefl with }
  | late => exact { hrefl with }
  | quotaCache => exact { hrefl with }
  | spawnKeepAlive => exact { hrefl with }
  | stopKeepAlive => exact { hrefl with }

/-- An operation of `i` is a move that every other call may rely on. -/
theorem effect_rely (hC : C.Lawful) (hi : Inv C steady w) (hj : j ≠ i)
    (hpre : OpPre cfg C strict steady i w o) (h : Effect cfg C i w.state o s') :
    Rely steady j w (w.setState s') where
  hist := List.suffix_refl _
  calls := fun _ hc => hc
  grows := effect_grows hi hpre h
  txs := fun _ => exists_congr fun a => effect_txs hj h _ a
  acquired := fun _ hn ha => effect_acquired hi.txs hj h hn ha
  lost := fun hl => (lost_congr (effect_txs hj h)).trans hl
  same := fun ha => ⟨(alive_congr (effect_txs hj h)).symm.trans ha, effect_same hC hi hj hpre h⟩

end Pubky.Homeserver.Storage

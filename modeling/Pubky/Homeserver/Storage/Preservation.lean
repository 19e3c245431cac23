import Pubky.Homeserver.Storage.Frame

/-!
# Operations keep the invariant

Every operation whose precondition holds keeps the invariant, and so does every step of the
environment and a call that is dropped. The argument goes by cases on `Effect`, one part of the
invariant at a time. An operation that touches none of the fields a part is about keeps it by
definition; that is the last case of each lemma.
-/

namespace Pubky.Homeserver.Storage

open Sql Conc

variable {cfg : Config} {C : StorageCrates} {strict steady : Prop} {i j : ℕ} {w : Wld}
  {s s' : State} {o : Op} {hist hist' : Hist}

/-- Outside of a lost transaction, a statement of a transaction has the rest of its
precondition. -/
theorem During.of_not_lost {P : Prop} (h : During s i P) (hl : s.lost i = false) :
    s.alive i = true ∧ P := by
  rcases h with h | h
  · simp [hl] at h
  · exact h

/-! ## Users -/

section

variable {users : Table UserRow Text} {userIds : List Text}

theorem UsersOk.view (h : UsersOk C hist users userIds) {r : UserRow} (hr : r ∈ users.view i) :
    userIds[r.id]? = some r.publicKey :=
  (mem_or_put_of_mem_foldl hr).elim (h.rows r) fun hput => (h.puts i r hput).1

/-- A row that a transaction sees was there before it. -/
theorem UsersOk.exists_row (h : UsersOk C hist users userIds) {r : UserRow}
    (hr : r ∈ users.view i) : ∃ r' ∈ users.rows, r'.publicKey = r.publicKey := by
  rcases mem_or_put_of_mem_foldl hr with hr | hput
  · exact ⟨r, hr, rfl⟩
  · exact h.lockRows _ (h.locked.writes hput)

theorem UsersOk.finish (h : UsersOk C hist users userIds) {rows : List UserRow}
    (hunique : UniqueKeys rows) (hrows : ∀ r ∈ rows, userIds[r.id]? = some r.publicKey)
    (hkeep : ∀ r ∈ users.rows, ∃ r' ∈ rows, r'.publicKey = r.publicKey) :
    UsersOk C hist (users.finish i rows) userIds where
  locked := h.locked.finish
  unique := hunique
  rows := hrows
  puts := fun j r hr => h.puts j r (Table.mem_writesOf_of_finish hr)
  noDel := fun j k hk => h.noDel j k (Table.mem_writesOf_of_finish hk)
  lockRows := by
    intro l hl
    obtain ⟨r, hr, hk⟩ := h.lockRows l (Table.mem_locks_finish.1 hl).1
    obtain ⟨r', hr', hk'⟩ := hkeep r hr
    exact ⟨r', hr', hk'.trans hk⟩
  keys := h.keys
  present := by
    intro k hk
    obtain ⟨r, hr, hrk⟩ := h.present k hk
    obtain ⟨r', hr', hrk'⟩ := hkeep r hr
    exact ⟨r', hr', hrk'.trans hrk⟩
  nodup := h.nodup

theorem UsersOk.lock (h : UsersOk C hist users userIds) {k : Text}
    (hb : users.blocked i k = false) {r : UserRow} (hr : r ∈ users.view i)
    (hk : r.publicKey = k) : UsersOk C hist (users.lock i k) userIds :=
  { h with
    locked := h.locked.lock hb
    lockRows := by
      intro l hl
      rcases List.mem_cons.1 hl with rfl | hl
      · exact hk ▸ h.exists_row hr
      · exact h.lockRows l hl }

theorem UsersOk.write (h : UsersOk C hist users userIds) {r seen : UserRow}
    (hb : users.blocked i r.publicKey = false) (hseen : seen ∈ users.view i)
    (hsame : seen.publicKey = r.publicKey) (hid : userIds[r.id]? = some r.publicKey)
    {e : EntryPath} (he : InScope C hist i e) (hkey : r.publicKey = C.z32 e.pubkey) :
    UsersOk C hist (users.write i (.put r)) userIds where
  locked := h.locked.write hb
  unique := h.unique
  rows := h.rows
  puts := by
    intro j r' hr'
    by_cases hj : j = i
    · subst hj
      rw [Table.writesOf_write_self, List.mem_append, List.mem_singleton] at hr'
      rcases hr' with hr' | hr'
      · exact h.puts j r' hr'
      · obtain rfl := Write.put.inj hr'
        exact ⟨hid, e, he, hkey⟩
    · rw [Table.writesOf_write_of_ne hj] at hr'
      exact h.puts j r' hr'
  noDel := by
    intro j k hk
    rcases Table.mem_writesOf_write hk with hk | hk
    · exact h.noDel j k hk
    · cases hk
  lockRows := (h.lock hb hseen hsame).lockRows
  keys := h.keys
  present := h.present
  nodup := h.nodup

end

/-- A statement on `users` keeps the id and the key of the row. -/
theorem writesUser_keeps {userId : ℕ} {f : UserRow → UserRow}
    (h : o.writesUser = some (userId, f)) (r : UserRow) :
    (f r).id = r.id ∧ (f r).publicKey = r.publicKey := by
  cases o with
  | updateUser user =>
    cases h
    exact ⟨rfl, rfl⟩
  | setQuota id quota =>
    cases h
    exact ⟨rfl, rfl⟩
  | _ => cases h

/-- Who writes a user's row is about a file of that user. -/
theorem writesUser_pre {userId : ℕ} {f : UserRow → UserRow} (h : o.writesUser = some (userId, f))
    (hpre : OpPre cfg C strict steady i w o) :
    During w.state i (∃ e, InScope C w.hist i e ∧
      w.state.userIds[userId]? = some (C.z32 e.pubkey)) := by
  cases o with
  | updateUser user =>
    cases h
    exact hpre
  | setQuota id quota =>
    cases h
    exact hpre
  | _ => cases h

theorem effect_users (hi : Inv C steady w) (hpre : OpPre cfg C strict steady i w o)
    (h : Effect cfg C i w.state o s') : UsersOk C w.hist s'.users s'.userIds := by
  have hu := hi.users
  cases h with
  | commit ha =>
    exact hu.finish (hu.unique.foldl _) (fun r hr => hu.view hr) (commit_users_grow hu)
  | rollback _ ho => exact hu.finish hu.unique hu.rows fun r hr => ⟨r, hr, rfl⟩
  | lockUser key row hl hrow hb =>
    obtain ⟨hmem, hkey⟩ := lookup_eq_some hrow
    exact hu.lock hb hmem hkey
  | writeUser o userId f ho hl named row hnamed hid hrow hkey hb =>
    obtain ⟨-, e, he, hown⟩ := (writesUser_pre ho hpre).of_not_lost hl
    obtain ⟨hfid, hfkey⟩ := writesUser_keeps ho row
    have hz : named.publicKey = C.z32 e.pubkey :=
      Option.some.inj ((hu.view hnamed).symm.trans (hid ▸ hown))
    refine hu.write (by rwa [hfkey]) hrow hfkey.symm ?_ he (hfkey.trans (hkey.trans hz))
    rw [hfid, hfkey]
    exact hu.view hrow
  | carriedOut request hmeets =>
    rw [carriedOut_eq]
    exact hu
  | _ => exact hu

/-! ## Entries -/

section

variable {entries : Table EntryRow ℕ} {entryIds entryIds' : List (ℕ × Text)} {userIds : List Text}
  {locks locks' : List (ℕ × Text)}

theorem EntriesOk.view (h : EntriesOk C hist entries entryIds userIds locks) {r : EntryRow}
    (hr : r ∈ entries.view i) : entryIds[r.id]? = some (r.user, r.path) :=
  (mem_or_put_of_mem_foldl hr).elim (h.rows r) fun hput => h.puts i r hput

theorem EntriesOk.locks_mono (h : EntriesOk C hist entries entryIds userIds locks)
    (hl : ∀ l ∈ locks, l ∈ locks') : EntriesOk C hist entries entryIds userIds locks' :=
  { h with
    owned := by
      intro j wr hw
      obtain ⟨e, he, hown, hlock⟩ := h.owned j wr hw
      exact ⟨e, he, hown, hl _ hlock⟩ }

theorem EntriesOk.ids_mono (h : EntriesOk C hist entries entryIds userIds locks)
    (hids : entryIds <+: entryIds') (husers : ∀ x ∈ entryIds', ∃ k, userIds[x.1]? = some k) :
    EntriesOk C hist entries entryIds' userIds locks where
  unique := h.unique
  rows := fun r hr => getElem?_of_extends hids (h.rows r hr)
  puts := fun j r hr => getElem?_of_extends hids (h.puts j r hr)
  users := husers
  owned := by
    intro j wr hw
    obtain ⟨e, he, hown, hlock⟩ := h.owned j wr hw
    exact ⟨e, he, hown.mono (List.prefix_refl _) hids, hlock⟩

theorem EntriesOk.finish (h : EntriesOk C hist entries entryIds userIds locks)
    {rows : List EntryRow} (hunique : UniqueKeys rows)
    (hrows : ∀ r ∈ rows, entryIds[r.id]? = some (r.user, r.path))
    (hl : ∀ l ∈ locks, l.1 ≠ i → l ∈ locks') :
    EntriesOk C hist (entries.finish i rows) entryIds userIds locks' where
  unique := hunique
  rows := hrows
  puts := fun j r hr => h.puts j r (Table.mem_writesOf_of_finish hr)
  users := h.users
  owned := by
    intro j wr hw
    by_cases hj : j = i
    · subst hj
      simp at hw
    · rw [Table.writesOf_finish_of_ne hj] at hw
      obtain ⟨e, he, hown, hlock⟩ := h.owned j wr hw
      exact ⟨e, he, hown, hl _ hlock hj⟩

/-- The owner of a row that is written has its row of `users` locked. -/
theorem EntriesOk.write (h : EntriesOk C hist entries entryIds userIds locks)
    {wr : Write EntryRow ℕ}
    (hput : ∀ r, wr = .put r → entryIds[r.id]? = some (r.user, r.path)) {e : EntryPath}
    (he : InScope C hist i e) (hown : OwnedBy C userIds entryIds wr.key e)
    (hlock : (i, C.z32 e.pubkey) ∈ locks) :
    EntriesOk C hist (entries.write i wr) entryIds userIds locks where
  unique := h.unique
  rows := h.rows
  puts := by
    intro j r hr
    rcases Table.mem_writesOf_write hr with hr | hr
    · exact h.puts j r hr
    · exact hput r hr.symm
  users := h.users
  owned := by
    intro j wr' hw
    by_cases hj : j = i
    · subst hj
      rw [Table.writesOf_write_self, List.mem_append, List.mem_singleton] at hw
      rcases hw with hw | rfl
      · exact h.owned j wr' hw
      · exact ⟨e, he, hown, hlock⟩
    · rw [Table.writesOf_write_of_ne hj] at hw
      exact h.owned j wr' hw

end

/-- Drawing an id for an entry of a known user. -/
theorem entries_drawn (hi : Inv C steady w) {userId : ℕ} {path : Text} {k : Text}
    (hk : w.state.userIds[userId]? = some k) :
    EntriesOk C w.hist w.state.entries (w.state.entryIds ++ [(userId, path)]) w.state.userIds
      w.state.users.locks := by
  refine hi.entries.ids_mono (List.prefix_append _ _) fun x hx => ?_
  rcases List.mem_append.1 hx with hx | hx
  · exact hi.entries.users x hx
  · obtain rfl := List.mem_singleton.1 hx
    exact ⟨k, hk⟩

theorem effect_entries (hi : Inv C steady w) (hpre : OpPre cfg C strict steady i w o)
    (h : Effect cfg C i w.state o s') :
    EntriesOk C w.hist s'.entries s'.entryIds s'.userIds s'.users.locks := by
  have he := hi.entries
  cases h with
  | commit ha =>
    exact he.finish (he.unique.foldl _) (fun r hr => he.view hr) fun l hl hne =>
      Table.mem_locks_finish.2 ⟨hl, hne⟩
  | rollback _ ho =>
    exact he.finish he.unique he.rows fun l hl hne => Table.mem_locks_finish.2 ⟨hl, hne⟩
  | lockUser key row hl hrow hb => exact he.locks_mono fun l hl => List.mem_cons_of_mem _ hl
  | writeUser o userId f ho hl named row hnamed hid hrow hkey hb =>
    exact he.locks_mono fun l hl => List.mem_cons_of_mem _ hl
  | drawEntryId userId path metadata hl =>
    obtain ⟨-, e, -, -, hk, -⟩ := During.of_not_lost hpre hl
    exact entries_drawn hi hk
  | createEntry userId path metadata hl hnew =>
    obtain ⟨-, e, hscope, rfl, hk, hlock, -⟩ := During.of_not_lost hpre hl
    have hnewId : (w.state.entryIds ++ [(userId, e.path.asStr)])[w.state.entryIds.length]? =
        some (userId, e.path.asStr) := by simp
    refine (entries_drawn hi hk).write (fun r hr => ?_) hscope ⟨userId, hnewId, hk⟩ hlock
    obtain rfl := Write.put.inj hr
    exact hnewId
  | updateEntry id metadata hl row hrow hid hb =>
    obtain ⟨-, e, hscope, hown, hlock, -⟩ := During.of_not_lost hpre hl
    have hrowId := he.view hrow
    refine he.write (fun r hr => ?_) hscope (hid.symm ▸ hown) hlock
    obtain rfl := Write.put.inj hr
    exact hrowId
  | deleteEntry id hl hb =>
    obtain ⟨-, e, hscope, hown, hlock⟩ := During.of_not_lost hpre hl
    exact he.write (fun r hr => by cases hr) hscope hown hlock
  | carriedOut request hmeets =>
    rw [carriedOut_eq]
    exact he
  | _ => exact he

/-! ## Events -/

section

variable {events : Table EventRow ℕ} {nextEventId : ℕ} {eventLock eventLock' : Option ℕ}
  {userIds : List Text}

theorem EventsOk.view (h : EventsOk C hist events nextEventId eventLock userIds) {ev : EventRow}
    (hev : ev ∈ events.view i) : ev.id < nextEventId ∧ ∃ k, userIds[ev.user]? = some k := by
  rcases mem_or_put_of_mem_foldl hev with hev | hev
  · exact ⟨h.rows ev hev, h.users ev hev⟩
  · obtain ⟨-, ev', _, heq, hlt, -, -, hown, -⟩ := h.writes i _ hev
    obtain rfl := Write.put.inj heq
    exact ⟨hlt, _, hown⟩

/-- The end of a transaction. Whoever else has uncommitted events holds the lock, so the ending
transaction adds none. -/
theorem EventsOk.finish (h : EventsOk C hist events nextEventId eventLock userIds)
    {rows : List EventRow}
    (hrows : ∀ ev ∈ rows, ev.id < nextEventId ∧ ∃ k, userIds[ev.user]? = some k)
    (hothers : ∀ j, j ≠ i → eventLock = some j → rows = events.rows) :
    EventsOk C hist (events.finish i rows) nextEventId
      (if eventLock = some i then none else eventLock) userIds where
  rows := fun ev hev => (hrows ev hev).1
  users := fun ev hev => (hrows ev hev).2
  writes := by
    intro j wr hw
    by_cases hj : j = i
    · subst hj
      simp at hw
    · rw [Table.writesOf_finish_of_ne hj] at hw
      obtain ⟨hl, ev, e, hwr, hlt, hold, hrest⟩ := h.writes j wr hw
      have hne : eventLock ≠ some i := fun h' => hj (Option.some.inj (hl.symm.trans h'))
      refine ⟨(if_neg hne).trans hl, ev, e, hwr, hlt, fun old ho => hold old ?_, hrest⟩
      rwa [Table.finish_rows, hothers j hj hl] at ho

end

theorem effect_events (hi : Inv C steady w) (hpre : OpPre cfg C strict steady i w o)
    (h : Effect cfg C i w.state o s') :
    EventsOk C w.hist s'.events s'.nextEventId s'.eventLock s'.userIds := by
  have he := hi.events
  cases h with
  | commit ha =>
    exact he.finish (fun ev hev => he.view hev) fun j hj hl => he.view_of_locked hj hl
  | rollback _ ho =>
    exact he.finish (fun ev hev => ⟨he.rows ev hev, he.users ev hev⟩) fun _ _ _ => rfl
  | lockEvents hl hfree =>
    refine { he with writes := fun j wr hw => ?_ }
    obtain ⟨hlock, hrest⟩ := he.writes j wr hw
    obtain rfl := hfree j hlock
    exact ⟨rfl, hrest⟩
  | insertEvent userId type path hl =>
    obtain ⟨-, hlock, hscope, hown⟩ := During.of_not_lost hpre hl
    refine { he with rows := fun ev hev => Nat.lt_succ_of_lt (he.rows ev hev), writes := ?_ }
    intro j wr hw
    by_cases hj : j = i
    · subst hj
      rw [Table.writesOf_write_self, List.mem_append, List.mem_singleton] at hw
      rcases hw with hw | rfl
      · obtain ⟨hlock', ev, e, hwr, hlt, hrest⟩ := he.writes j wr hw
        exact ⟨hlock', ev, e, hwr, Nat.lt_succ_of_lt hlt, hrest⟩
      · exact ⟨hlock, _, path, rfl, Nat.lt_succ_self _, he.rows, hscope, hown, rfl⟩
    · rw [Table.writesOf_write_of_ne hj] at hw
      obtain ⟨hlock', ev, e, hwr, hlt, hrest⟩ := he.writes j wr hw
      exact ⟨hlock', ev, e, hwr, Nat.lt_succ_of_lt hlt, hrest⟩
  | carriedOut request hmeets =>
    rw [carriedOut_eq]
    exact he
  | _ => exact he

/-! ## Transactions -/

section

variable {txs : List Tx} {nextTx : ℕ} {journal : List Mark}

theorem TxsOk.begin (h : TxsOk txs nextTx journal) (hnew : ∀ t ∈ txs, t.thread ≠ i) :
    TxsOk (⟨i, nextTx, true⟩ :: txs) (nextTx + 1) journal where
  threads := by
    rw [List.map_cons, List.nodup_cons]
    refine ⟨fun hmem => ?_, h.threads⟩
    obtain ⟨t, ht, hth⟩ := List.mem_map.1 hmem
    exact hnew t ht hth
  numbers := by
    rw [List.map_cons, List.nodup_cons]
    refine ⟨fun hmem => ?_, h.numbers⟩
    obtain ⟨t, ht, hnum⟩ := List.mem_map.1 hmem
    exact Nat.lt_irrefl _ (hnum ▸ h.below t ht)
  below := by
    intro t ht
    rcases List.mem_cons.1 ht with rfl | ht
    · exact Nat.lt_succ_self _
    · exact Nat.lt_succ_of_lt (h.below t ht)
  recorded := fun n hn => Nat.lt_succ_of_lt (h.recorded n hn)
  notEnded := by
    intro t ht ha hm
    rcases List.mem_cons.1 ht with rfl | ht
    · exact Nat.lt_irrefl _ (h.recorded _ (.inr hm))
    · exact h.notEnded t ht ha hm

/-- Transactions of which some are gone or lost, all of them recorded as ended. -/
theorem TxsOk.finish (h : TxsOk txs nextTx journal) {txs' ended : List Tx}
    (hthreads : (txs'.map Tx.thread).Nodup) (hnumbers : (txs'.map Tx.number).Nodup)
    (hended : ∀ t ∈ ended, t ∈ txs)
    (htxs : ∀ t ∈ txs', ∃ t' ∈ txs, t'.number = t.number)
    (halive : ∀ t ∈ txs', t.alive = true → t ∈ txs ∧ t ∉ ended) :
    TxsOk txs' nextTx (ended.map (Mark.ended ·.number) ++ journal) where
  threads := hthreads
  numbers := hnumbers
  below := by
    intro t ht
    obtain ⟨t', ht', hnum⟩ := htxs t ht
    exact hnum ▸ h.below t' ht'
  recorded := by
    intro n hn
    have hcases : (∃ t ∈ ended, t.number = n) ∨ (.acquired n ∈ journal ∨ .ended n ∈ journal) := by
      simpa [or_left_comm] using hn
    rcases hcases with ⟨t, ht, rfl⟩ | hn
    · exact h.below t (hended t ht)
    · exact h.recorded n hn
  notEnded := by
    intro t ht ha hm
    obtain ⟨hmem, hnot⟩ := halive t ht ha
    rcases List.mem_append.1 hm with hm | hm
    · obtain ⟨t', ht', heq⟩ := List.mem_map.1 hm
      have hnum : t'.number = t.number := Mark.ended.inj heq
      obtain rfl := List.inj_on_of_nodup_map h.numbers (hended t' ht') hmem hnum
      exact hnot ht'
    · exact h.notEnded t hmem ha hm

end

theorem finish_txs (h : TxsOk s.txs s.nextTx s.journal) (i : ℕ) :
    TxsOk (s.txsWithout i) s.nextTx
      ((s.txs.filter fun t => t.thread = i && t.alive).map (Mark.ended ·.number) ++ s.journal) := by
  have hsub : (s.txsWithout i).Sublist s.txs := List.filter_sublist
  refine h.finish (h.threads.sublist (hsub.map _)) (h.numbers.sublist (hsub.map _))
    (fun t ht => (List.mem_filter.1 ht).1) (fun t ht => ⟨t, hsub.subset ht, rfl⟩)
    fun t ht _ => ⟨hsub.subset ht, fun hended => ?_⟩
  have hne := (mem_txsWithout.1 ht).2
  simp [hne] at hended

theorem effect_txsOk (hi : Inv C steady w) (h : Effect cfg C i w.state o s') :
    TxsOk s'.txs s'.nextTx s'.journal := by
  have ht := hi.txs
  cases h with
  | begin hnew => exact ht.begin hnew
  | commit ha => exact finish_txs ht i
  | rollback _ ho => exact finish_txs ht i
  | lockUser key row hl hrow hb =>
    refine { ht with recorded := fun n hn => ?_, notEnded := fun t hmem ha hm => ?_ }
    · have hcases : (∃ t, (t ∈ w.state.txs ∧ t.thread = i) ∧ t.number = n) ∨
          (.acquired n ∈ w.state.journal ∨ .ended n ∈ w.state.journal) := by
        simpa [or_assoc] using hn
      rcases hcases with ⟨t, ⟨hmem, -⟩, rfl⟩ | hn
      · exact ht.below t hmem
      · exact ht.recorded n hn
    · exact ht.notEnded t hmem ha (by simpa using hm)
  | carriedOut request hmeets =>
    rw [carriedOut_eq]
    exact ht
  | _ => exact ht

theorem effect_owners (hi : Inv C steady w) (hs : w.Started i)
    (h : Effect cfg C i w.state o s') : ∀ t ∈ s'.txs, w.Started t.thread := by
  intro t ht
  by_cases hj : t.thread = i
  · exact hj ▸ hs
  · exact hi.owners t ((effect_txs hj h t.number t.alive).1 ht)

theorem effect_live (hi : Inv C steady w) (h : Effect cfg C i w.state o s') (hs : steady) :
    ∀ t ∈ s'.txs, t.alive = true := by
  have ht := hi.live hs
  cases h with
  | begin hnew => exact List.forall_mem_cons.2 ⟨rfl, ht⟩
  | commit ha => exact fun t hmem => ht t (mem_txsWithout.1 hmem).1
  | rollback _ ho => exact fun t hmem => ht t (mem_txsWithout.1 hmem).1
  | carriedOut request hmeets =>
    rw [carriedOut_eq]
    exact ht
  | _ => exact ht

/-! ## Calls without a transaction -/

section

variable {txs : List Tx} {users : List UserRow} {entries : List EntryRow} {events : List EventRow}
  {locks : List EntryLockRow}

/-- A transaction that has ended leaves nothing behind. -/
theorem quiet_finish_self (s : State) (i : ℕ) :
    Quiet ({ s with
      users := s.users.finish i users
      entries := s.entries.finish i entries
      events := s.events.finish i events
      entryLocks := s.entryLocks.finish i locks }.finish i txs) i where
  users := Table.writesOf_finish_self
  entries := Table.writesOf_finish_self
  events := Table.writesOf_finish_self
  entryLocks := Table.writesOf_finish_self
  userLocks := fun _ hk => (Table.mem_locks_finish.1 hk).2 rfl
  lockLocks := fun _ hk => (Table.mem_locks_finish.1 hk).2 rfl
  eventLock := by
    show (if s.eventLock = some i then none else s.eventLock) ≠ some i
    split
    · simp
    · assumption
  held := fun h hh => by simpa using (List.mem_filter.1 hh).2
  published := fun e he => by simpa using (List.mem_filter.1 he).2

theorem Quiet.finish (h : Quiet s j) (hj : j ≠ i) :
    Quiet ({ s with
      users := s.users.finish i users
      entries := s.entries.finish i entries
      events := s.events.finish i events
      entryLocks := s.entryLocks.finish i locks }.finish i txs) j where
  users := (Table.writesOf_finish_of_ne hj).trans h.users
  entries := (Table.writesOf_finish_of_ne hj).trans h.entries
  events := (Table.writesOf_finish_of_ne hj).trans h.events
  entryLocks := (Table.writesOf_finish_of_ne hj).trans h.entryLocks
  userLocks := fun k hk => h.userLocks k (Table.mem_locks_finish.1 hk).1
  lockLocks := fun k hk => h.lockLocks k (Table.mem_locks_finish.1 hk).1
  eventLock := by
    show (if s.eventLock = some i then none else s.eventLock) ≠ some j
    split
    · simp
    · exact h.eventLock
  held := fun x hx => h.held x (List.mem_filter.1 hx).1
  published := fun e he => h.published e (List.mem_filter.1 he).1

end

/-- What an operation records as published is the call's own. -/
theorem mem_published {request : BackendRequest} {e : ℕ × Text}
    (h : e ∈ (s.notePublished i request).published) :
    e ∈ s.published ∨ e = (i, request.key) ∧ s.alive i = true ∧
      ∃ key content expected, request = .publish key content expected := by
  cases request with
  | publish key content expected =>
    rw [State.notePublished] at h
    split at h
    · rename_i ha
      rcases List.mem_cons.1 h with rfl | h
      · exact .inr ⟨rfl, ha, _, _, _, rfl⟩
      · exact .inl h
    · exact .inl h
  | remove key expected => exact .inl h

theorem mem_published_carriedOut {tx : Option ℕ} {request : BackendRequest} {e : ℕ × Text}
    (h : e ∈ ((s.carryOut tx request).2.notePublished i request).published) :
    e ∈ s.published ∨ e = (i, request.key) ∧ s.alive i = true ∧
      ∃ key content expected, request = .publish key content expected := by
  have hcases := mem_published h
  rwa [carryOut_eq] at hcases

theorem effect_quiet (hj : j ≠ i) (hq : Quiet s j) (h : Effect cfg C i s o s') : Quiet s' j := by
  -- a lock that is new is the lock of `i`
  have hnew : ∀ {K : Type} {k k' : K} {ls : List (ℕ × K)}, (j, k) ∈ (i, k') :: ls → (j, k) ∈ ls :=
    fun hk => (List.mem_cons.1 hk).resolve_left fun heq => hj (Prod.mk.inj heq).1
  cases h with
  | commit ha => exact hq.finish hj
  | rollback _ ho => exact hq.finish hj
  | lockUser key row hl hrow hb =>
    exact { hq with userLocks := fun k hk => hq.userLocks k (hnew hk) }
  | writeUser o userId f ho hl named row hnamed hid hrow hkey hb =>
    exact { hq with
      users := (Table.writesOf_write_of_ne hj).trans hq.users
      userLocks := fun k hk => hq.userLocks k (hnew hk) }
  | createEntry userId path metadata hl hfree =>
    exact { hq with entries := (Table.writesOf_write_of_ne hj).trans hq.entries }
  | updateEntry id metadata hl row hrow hid hb =>
    exact { hq with entries := (Table.writesOf_write_of_ne hj).trans hq.entries }
  | deleteEntry id hl hb =>
    exact { hq with entries := (Table.writesOf_write_of_ne hj).trans hq.entries }
  | lockEvents hl hfree =>
    exact { hq with eventLock := fun heq => hj (Option.some.inj heq).symm }
  | insertEvent userId type path hl =>
    exact { hq with events := (Table.writesOf_write_of_ne hj).trans hq.events }
  | takeLock path tokens hl hb =>
    exact { hq with lockLocks := fun k hk => hq.lockLocks k (hnew hk) }
  | extendLock path tokens keep seconds now expiresAt hl row hrow hb =>
    exact { hq with
      entryLocks := (Table.writesOf_write_of_ne hj).trans hq.entryLocks
      lockLocks := fun k hk => hq.lockLocks k (hnew hk) }
  | holdLock path now hl row hrow hb hlive =>
    refine { hq with
      lockLocks := fun k hk => hq.lockLocks k (hnew hk)
      held := fun x hx => ?_ }
    rcases List.mem_cons.1 hx with rfl | hx
    · exact Ne.symm hj
    · exact hq.held x hx
  | carriedOut request hmeets =>
    have hpub : ∀ e ∈ ((s.carryOut (s.txNumber i) request).2.notePublished i request).published,
        e.1 ≠ j := by
      intro e he
      rcases mem_published_carriedOut he with he | ⟨rfl, -⟩
      · exact hq.published e he
      · exact Ne.symm hj
    rw [carriedOut_eq]
    exact { hq with published := hpub }
  | same => exact hq
  | begin hnew => exact { hq with }
  | drawEntryId => exact { hq with }
  | noLock => exact { hq with }
  | acquireLock => exact { hq with }
  | deleteExpiredLocks => exact { hq with }
  | releaseLock => exact { hq with }
  | late => exact { hq with }
  | copyBlob => exact { hq with }
  | renameBlob => exact { hq with }
  | quotaCache => exact { hq with }
  | spawnKeepAlive => exact { hq with }
  | stopKeepAlive => exact { hq with }

/-- Without a transaction of its own, a call claims nothing. -/
theorem effect_quiet_self (hi : Inv C steady w) (hpre : OpPre cfg C strict steady i w o)
    (h : Effect cfg C i w.state o s') (hdead : s'.alive i = false) : Quiet s' i := by
  -- the statements of a transaction need one
  have hin : ∀ {P : Prop}, During w.state i P → w.state.lost i = false →
      w.state.alive i = false → Quiet s' i := by
    intro P hd hl ha
    simp [(hd.of_not_lost hl).1] at ha
  cases h with
  | begin hnew =>
    have halive : ({ w.state with
        txs := ⟨i, w.state.nextTx, true⟩ :: w.state.txs
        nextTx := w.state.nextTx + 1 } : State).alive i = true :=
      State.alive_iff.2 ⟨_, List.mem_cons_self⟩
    simp [halive] at hdead
  | commit ha => exact quiet_finish_self w.state i
  | rollback _ ho => exact quiet_finish_self w.state i
  | lockUser key row hl hrow hb => exact hin hpre hl hdead
  | writeUser o userId f ho hl named row hnamed hid hrow hkey hb =>
    exact hin (writesUser_pre ho hpre) hl hdead
  | drawEntryId userId path metadata hl => exact hin hpre hl hdead
  | createEntry userId path metadata hl hfree => exact hin hpre hl hdead
  | updateEntry id metadata hl row hrow hid hb => exact hin hpre hl hdead
  | deleteEntry id hl hb => exact hin hpre hl hdead
  | lockEvents hl hfree => exact hin hpre hl hdead
  | insertEvent userId type path hl => exact hin hpre hl hdead
  | takeLock path tokens hl hb => exact hin hpre hl hdead
  | extendLock path tokens keep seconds now expiresAt hl row hrow hb => exact hin hpre hl hdead
  | holdLock path now hl row hrow hb hlive => exact hin hpre hl hdead
  | carriedOut request hmeets =>
    have hdead' : w.state.alive i = false := by rwa [carriedOut_eq] at hdead
    have hq := hi.idle i hdead'
    have hpub : ∀ e ∈ ((w.state.carryOut (w.state.txNumber i) request).2.notePublished i
        request).published, e.1 ≠ i := by
      intro e he
      rcases mem_published_carriedOut he with he | ⟨-, ha, -⟩
      · exact hq.published e he
      · simp [hdead'] at ha
    rw [carriedOut_eq]
    exact { hq with published := hpub }
  | same => exact hi.idle i hdead
  | noLock => exact { hi.idle i hdead with }
  | acquireLock => exact { hi.idle i hdead with }
  | deleteExpiredLocks => exact { hi.idle i hdead with }
  | releaseLock => exact { hi.idle i hdead with }
  | late => exact { hi.idle i hdead with }
  | copyBlob => exact { hi.idle i hdead with }
  | renameBlob => exact { hi.idle i hdead with }
  | quotaCache => exact { hi.idle i hdead with }
  | spawnKeepAlive => exact { hi.idle i hdead with }
  | stopKeepAlive => exact { hi.idle i hdead with }

theorem effect_idle (hi : Inv C steady w) (hpre : OpPre cfg C strict steady i w o)
    (h : Effect cfg C i w.state o s') (j : ℕ) (hdead : s'.alive j = false) : Quiet s' j := by
  by_cases hj : j = i
  · subst hj
    exact effect_quiet_self hi hpre h hdead
  · rw [alive_congr (effect_txs hj h)] at hdead
    exact effect_quiet hj (hi.idle j hdead) h

/-! ## Write locks -/

theorem Outside.dead (h : Outside s i) : s.alive i = false := by
  rw [← Bool.not_eq_true, State.alive_iff]
  rintro ⟨n, hn⟩
  exact h _ hn rfl

section

variable {entryLocks : Table EntryLockRow Text} {held : List Held} {clock : ℤ}

/-- New committed rows, as long as locked rows stay. -/
theorem LocksOk.setRows (h : LocksOk C hist entryLocks held clock) {rows : List EntryLockRow}
    (hunique : UniqueKeys rows)
    (hrows : ∀ r ∈ entryLocks.rows, ∀ j, (j, r.path) ∈ entryLocks.locks → r ∈ rows) :
    LocksOk C hist { entryLocks with rows := rows } held clock where
  locked := ⟨h.locked.excl, h.locked.writes⟩
  unique := hunique
  noDel := h.noDel
  puts := by
    intro j r hr
    obtain ⟨⟨old, hold, hpath, htoken⟩, hscope⟩ := h.puts j r hr
    have hlock : (j, r.path) ∈ entryLocks.locks := h.locked.writes hr
    exact ⟨⟨old, hrows old hold j (hpath ▸ hlock), hpath, htoken⟩, hscope⟩
  held := by
    intro x hx
    obtain ⟨hlock, hlive, hclock, hrow, hwrites⟩ := h.held x hx
    exact ⟨hlock, hlive, hclock, hrows _ hrow _ hlock, hwrites⟩

theorem LocksOk.finish (h : LocksOk C hist entryLocks held clock) {rows : List EntryLockRow}
    (hunique : UniqueKeys rows)
    (hrows : ∀ r ∈ entryLocks.rows, ∀ j, j ≠ i → (j, r.path) ∈ entryLocks.locks → r ∈ rows) :
    LocksOk C hist (entryLocks.finish i rows) (held.filter fun x => x.thread ≠ i) clock where
  locked := h.locked.finish
  unique := hunique
  noDel := fun j k hk => h.noDel j k (Table.mem_writesOf_of_finish hk)
  puts := by
    intro j r hr
    by_cases hj : j = i
    · subst hj
      simp at hr
    · rw [Table.writesOf_finish_of_ne hj] at hr
      obtain ⟨⟨old, hold, hpath, htoken⟩, hscope⟩ := h.puts j r hr
      have hlock : (j, r.path) ∈ entryLocks.locks := h.locked.writes hr
      exact ⟨⟨old, hrows old hold j hj (hpath ▸ hlock), hpath, htoken⟩, hscope⟩
  held := by
    intro x hx
    obtain ⟨hx, hne⟩ := List.mem_filter.1 hx
    have hne : x.thread ≠ i := by simpa using hne
    obtain ⟨hlock, hlive, hclock, hrow, hwrites⟩ := h.held x hx
    exact ⟨Table.mem_locks_finish.2 ⟨hlock, hne⟩, hlive, hclock, hrows _ hrow _ hne hlock,
      (Table.writesOf_finish_of_ne hne).trans hwrites⟩

theorem LocksOk.lock (h : LocksOk C hist entryLocks held clock) {k : Text}
    (hb : entryLocks.blocked i k = false) : LocksOk C hist (entryLocks.lock i k) held clock :=
  { h with
    locked := h.locked.lock hb
    held := by
      intro x hx
      obtain ⟨hlock, hrest⟩ := h.held x hx
      exact ⟨List.mem_cons_of_mem _ hlock, hrest⟩ }

/-- The row that a transaction sees has the token of a committed row. -/
theorem LocksOk.view (h : LocksOk C hist entryLocks held clock) {row : EntryLockRow}
    (hrow : row ∈ entryLocks.view i) :
    ∃ old ∈ entryLocks.rows, old.path = row.path ∧ old.token = row.token := by
  rcases mem_or_put_of_mem_foldl hrow with hrow | hput
  · exact ⟨row, hrow, rfl, rfl⟩
  · exact (h.puts i row hput).1

/-- A transaction that holds no lock changes the expiry of one. -/
theorem LocksOk.extend (h : LocksOk C hist entryLocks held clock) {row : EntryLockRow}
    {e : EntryPath} {expiresAt : ℤ} (hrow : lookup (entryLocks.view i) (e.asStr C) = some row)
    (hb : entryLocks.blocked i (e.asStr C) = false) (hscope : InScope C hist i e)
    (hheld : ∀ x ∈ held, x.thread ≠ i) :
    LocksOk C hist (entryLocks.write i (.put { row with expiresAt := expiresAt })) held clock := by
  obtain ⟨hmem, hkey⟩ := lookup_eq_some hrow
  have hkey : row.path = e.asStr C := hkey
  have hold := h.view hmem
  refine { locked := h.locked.write (hkey ▸ hb), unique := h.unique, noDel := ?_, puts := ?_
           held := ?_ }
  · intro j k hk
    rcases Table.mem_writesOf_write hk with hk | hk
    · exact h.noDel j k hk
    · cases hk
  · intro j r hr
    by_cases hj : j = i
    · subst hj
      rw [Table.writesOf_write_self, List.mem_append, List.mem_singleton] at hr
      rcases hr with hr | hr
      · exact h.puts j r hr
      · obtain rfl := Write.put.inj hr
        exact ⟨hold, e, hscope, hkey⟩
    · rw [Table.writesOf_write_of_ne hj] at hr
      exact h.puts j r hr
  · intro x hx
    obtain ⟨hlock, hlive, hclock, hmem', hwrites⟩ := h.held x hx
    exact ⟨List.mem_cons_of_mem _ hlock, hlive, hclock, hmem',
      (Table.writesOf_write_of_ne (hheld x hx)).trans hwrites⟩

end

/-- A row that no other transaction has locked is locked by none, if the call has no
transaction. -/
theorem not_locked_of_outside (hi : Inv C steady w) (hout : Outside w.state i) {k : Text}
    (hb : w.state.entryLocks.blocked i k = false) (j : ℕ) :
    (j, k) ∉ w.state.entryLocks.locks := by
  intro hj
  obtain rfl := Table.blocked_eq_false.1 hb j hj
  exact (hi.idle _ hout.dead).lockLocks k hj

theorem effect_locks (hi : Inv C steady w) (hpre : OpPre cfg C strict steady i w o)
    (h : Effect cfg C i w.state o s') : LocksOk C w.hist s'.entryLocks s'.held s'.clock := by
  have hl := hi.locks
  cases h with
  | commit ha =>
    exact hl.finish (hl.unique.foldl _) fun r hr j hj hlock =>
      (mem_view_of_locked hl.locked hj hlock).2 hr
  | rollback _ ho => exact hl.finish hl.unique fun r hr _ _ _ => hr
  | acquireLock path token lifetime now hlost hb hold =>
    refine hl.setRows (hl.unique.apply _) fun r hr j hlock => ?_
    refine Write.mem_apply_put.2 (.inl ⟨hr, fun hk => ?_⟩)
    have hk : r.path = path.asStr C := hk
    exact not_locked_of_outside hi hpre.1 hb j (hk ▸ hlock)
  | deleteExpiredLocks now hlost hb =>
    refine hl.setRows (hl.unique.sublist (List.filter_sublist.map _)) fun r hr j hlock => ?_
    refine List.mem_filter.2 ⟨hr, ?_⟩
    by_cases hexp : r.expiresAt ≤ now
    · exact absurd hlock (not_locked_of_outside hi hpre.1 (hb r hr hexp) j)
    · simpa using hexp
  | releaseLock path token hlost hb =>
    refine hl.setRows (hl.unique.apply _) fun r hr j hlock => ?_
    refine Write.mem_apply_del.2 ⟨hr, fun hk => ?_⟩
    have hk : r.path = path.asStr C := hk
    exact not_locked_of_outside hi hpre.1 hb j (hk ▸ hlock)
  | takeLock path tokens hlost hb => exact hl.lock hb
  | extendLock path tokens keep seconds now expiresAt hlost row hrow hb =>
    obtain ⟨-, hscope, -, hheld⟩ := During.of_not_lost hpre hlost
    exact hl.extend hrow hb hscope hheld
  | holdLock path now hlost row hrow hb hlive =>
    obtain ⟨-, hnow, hwrites⟩ := During.of_not_lost hpre hlost
    rw [Table.view_of_writesOf_eq_nil hwrites] at hrow
    obtain ⟨hmem, hkey⟩ := lookup_eq_some hrow
    have hkey : row.path = path.asStr C := hkey
    refine { hl.lock hb with held := fun x hx => ?_ }
    rcases List.mem_cons.1 hx with rfl | hx
    · exact ⟨List.mem_cons_self, hlive, hnow, hkey ▸ hmem, hwrites⟩
    · exact (hl.lock hb).held x hx
  | carriedOut request hmeets =>
    rw [carriedOut_eq]
    exact hl
  | _ => exact hl

/-! ## The backend -/

theorem RequestOk.mono {tx : Option ℕ} {request : BackendRequest} (hg : Grows s s')
    (hh : hist <:+ hist')
    (h : RequestOk C hist s.blobs s.nextGeneration s.journal i tx request) :
    RequestOk C hist' s'.blobs s'.nextGeneration s'.journal i tx request where
  scope := by
    obtain ⟨e, he, hscope⟩ := h.scope
    exact ⟨e, he, hscope.mono hh⟩
  tx := by
    obtain ⟨n, hn, hold, hacq⟩ := h.tx
    exact ⟨n, hn, fun g hg' => hg.old n g (hold g hg'), fun key content expected hr =>
      hg.journal n (hacq key content expected hr)⟩

section

variable {inFlight : List InFlight}

/-- The store grows with the journal. -/
theorem StoreOk.journal_mono {journal' : List Mark}
    (h : StoreOk C hist s.blobs s.nextGeneration inFlight s.journal)
    (hg : Grows s { s with journal := journal' }) :
    StoreOk C hist s.blobs s.nextGeneration inFlight journal' where
  unique := h.unique
  generations := h.generations
  publishers := fun b hb n hn => hg.journal n (h.publishers b hb n hn)
  inFlight := by
    intro f hf
    obtain ⟨hsome, hok⟩ := h.inFlight f hf
    exact ⟨hsome, hok.mono hg (List.suffix_refl _)⟩

theorem StoreOk.putBlob (h : StoreOk C hist s.blobs s.nextGeneration inFlight s.journal)
    (key : Text) (content : Bytes) {tx : Option ℕ}
    (htx : ∀ n, tx = some n → .acquired n ∈ s.journal) :
    StoreOk C hist (s.putBlob key content tx).blobs (s.nextGeneration + 1) inFlight s.journal where
  unique := by
    have hsub : ((s.blobs.filter fun b => b.key ≠ key).map Blob.key).Nodup :=
      h.unique.sublist (List.filter_sublist.map _)
    rw [State.putBlob, List.map_append, List.map_singleton]
    refine List.Nodup.append hsub (by simp) ?_
    intro k hk hk'
    obtain rfl : k = key := by simpa using hk'
    obtain ⟨b, hb, hbk⟩ := List.mem_map.1 hk
    exact absurd hbk (by simpa using (List.mem_filter.1 hb).2)
  generations := by
    intro b hb
    rcases mem_putBlob.1 hb with ⟨hb, -⟩ | rfl
    · exact Nat.lt_succ_of_lt (h.generations b hb)
    · exact Nat.lt_succ_self _
  publishers := by
    intro b hb n hn
    rcases mem_putBlob.1 hb with ⟨hb, -⟩ | rfl
    · exact h.publishers b hb n hn
    · exact htx n hn
  inFlight := by
    intro f hf
    obtain ⟨hsome, hok⟩ := h.inFlight f hf
    have hg : Grows s (s.putBlob key content tx) := { Grows.refl s with
      nextGeneration := Nat.le_succ _
      old := fun f g ho => ho.putBlob key content tx }
    exact ⟨hsome, hok.mono hg (List.suffix_refl _)⟩

theorem StoreOk.removeBlob (h : StoreOk C hist s.blobs s.nextGeneration inFlight s.journal)
    (key : Text) :
    StoreOk C hist (s.removeBlob key).blobs s.nextGeneration inFlight s.journal where
  unique := h.unique.sublist (List.filter_sublist.map _)
  generations := fun b hb => h.generations b (mem_removeBlob.1 hb).1
  publishers := fun b hb => h.publishers b (mem_removeBlob.1 hb).1
  inFlight := by
    intro f hf
    obtain ⟨hsome, hok⟩ := h.inFlight f hf
    have hg : Grows s (s.removeBlob key) := { Grows.refl s with
      old := fun f g ho => ho.removeBlob key }
    exact ⟨hsome, hok.mono hg (List.suffix_refl _)⟩

/-- A request that satisfies its conditions is carried out. -/
theorem StoreOk.carryOut (h : StoreOk C hist s.blobs s.nextGeneration inFlight s.journal)
    {tx : Option ℕ} {request : BackendRequest}
    (hok : RequestOk C hist s.blobs s.nextGeneration s.journal i tx request) :
    StoreOk C hist (s.carryOut tx request).2.blobs (s.carryOut tx request).2.nextGeneration
      inFlight s.journal := by
  unfold State.carryOut
  split
  · cases request with
    | publish key content expected =>
      refine h.putBlob key content fun n hn => ?_
      obtain ⟨m, hm, -, hacq⟩ := hok.tx
      obtain rfl := Option.some.inj (hn.symm.trans hm)
      exact hacq key content expected rfl
    | remove key expected => exact h.removeBlob key
  · exact h

end

theorem Outside.txNumber (h : Outside s i) : s.txNumber i = none := by
  rw [State.txNumber, State.tx?, Option.map_eq_none_iff, List.find?_eq_none]
  intro t ht
  simpa using h t ht

theorem effect_store (hi : Inv C steady w) (hpre : OpPre cfg C strict steady i w o)
    (h : Effect cfg C i w.state o s') :
    StoreOk C w.hist s'.blobs s'.nextGeneration s'.inFlight s'.journal := by
  have hs := hi.store
  have hg := effect_grows hi hpre h
  have houtside : ∀ n, Outside w.state i → w.state.txNumber i = some n →
      .acquired n ∈ w.state.journal := by
    intro n hout hn
    rw [hout.txNumber] at hn
    cases hn
  cases h with
  | commit ha => exact hs.journal_mono { Grows.refl w.state with journal := hg.journal, old := hg.old }
  | rollback _ ho =>
    exact hs.journal_mono { Grows.refl w.state with journal := hg.journal, old := hg.old }
  | lockUser key row hl hrow hb =>
    exact hs.journal_mono { Grows.refl w.state with journal := hg.journal, old := hg.old }
  | late request kind hbackend =>
    refine { hs with inFlight := fun f hf => ?_ }
    rcases List.mem_append.1 hf with hf | hf
    · exact hs.inFlight f hf
    · obtain rfl := List.mem_singleton.1 hf
      exact ⟨hpre.conditional hbackend, hpre.ok⟩
  | carriedOut request hmeets =>
    have hcarried := hs.carryOut hpre.ok
    rw [carriedOut_eq]
    exact hcarried
  | copyBlob source target b hbackend hb =>
    exact hs.putBlob target b.content fun n hn => houtside n hpre.2.1 hn
  | renameBlob source target b hbackend hb =>
    exact StoreOk.putBlob (s := w.state.removeBlob source) (hs.removeBlob source) target b.content
      fun n hn => houtside n hpre.2.1 hn
  | _ => exact hs

/-! ## Rows and blobs in a steady run -/

section

variable {entries : Table EntryRow ℕ} {userIds : List Text} {published : List (ℕ × Text)}
  {locks locks' : List (ℕ × Text)} {inFlight : List InFlight} {blobs blobs' : List Blob}

/-- Keys of users have one length, so a key of a file determines both of its parts. -/
theorem key_inj (hC : C.Lawful) {a b : PublicKey} {p q : Text}
    (h : C.z32 a ++ p = C.z32 b ++ q) : C.z32 a = C.z32 b ∧ p = q :=
  List.append_inj h ((hC.z32_length a).trans (hC.z32_length b).symm)

theorem SteadyOk.view (h : SteadyOk C entries userIds blobs locks published inFlight)
    {r : EntryRow} (hr : r ∈ entries.view i) {k : Text} (hk : userIds[r.user]? = some k) :
    ∃ b ∈ blobs, b.key = k ++ r.path :=
  (mem_or_put_of_mem_foldl hr).elim (fun hr => h.rows r hr k hk) fun hr => h.puts i r hr k hk

theorem SteadyOk.locks_mono (h : SteadyOk C entries userIds blobs locks published inFlight)
    (hl : ∀ l ∈ locks, l ∈ locks') :
    SteadyOk C entries userIds blobs locks' published inFlight :=
  { h with
    published := by
      intro j key hp
      obtain ⟨e, he, hlock⟩ := h.published j key hp
      exact ⟨e, he, hl _ hlock⟩ }

theorem SteadyOk.finish (h : SteadyOk C entries userIds blobs locks published inFlight)
    {rows : List EntryRow}
    (hrows : ∀ r ∈ rows, ∀ k, userIds[r.user]? = some k → ∃ b ∈ blobs, b.key = k ++ r.path)
    (hl : ∀ l ∈ locks, l.1 ≠ i → l ∈ locks') :
    SteadyOk C (entries.finish i rows) userIds blobs locks' (published.filter fun p => p.1 ≠ i)
      inFlight where
  rows := hrows
  puts := fun j r hr => h.puts j r (Table.mem_writesOf_of_finish hr)
  published := by
    intro j key hp
    obtain ⟨hp, hj⟩ := List.mem_filter.1 hp
    obtain ⟨e, he, hlock⟩ := h.published j key hp
    exact ⟨e, he, hl _ hlock (by simpa using hj)⟩
  inFlight := h.inFlight

theorem SteadyOk.write (h : SteadyOk C entries userIds blobs locks published inFlight)
    {wr : Write EntryRow ℕ}
    (hput : ∀ r, wr = .put r → ∀ k, userIds[r.user]? = some k → ∃ b ∈ blobs, b.key = k ++ r.path) :
    SteadyOk C (entries.write i wr) userIds blobs locks published inFlight :=
  { h with
    puts := by
      intro j r hr k hk
      rcases Table.mem_writesOf_write hr with hr | hr
      · exact h.puts j r hr k hk
      · exact hput r hr.symm k hk }

/-- Blobs may change as long as those that rows refer to are still there. -/
theorem SteadyOk.blobs_change (h : SteadyOk C entries userIds blobs locks published inFlight)
    (hrows : ∀ r ∈ entries.rows, ∀ k, userIds[r.user]? = some k →
      ∀ b ∈ blobs, b.key = k ++ r.path → ∃ b' ∈ blobs', b'.key = b.key)
    (hputs : ∀ j r, .put r ∈ entries.writesOf j → ∀ k, userIds[r.user]? = some k →
      ∀ b ∈ blobs, b.key = k ++ r.path → ∃ b' ∈ blobs', b'.key = b.key) :
    SteadyOk C entries userIds blobs' locks published inFlight :=
  { h with
    rows := by
      intro r hr k hk
      obtain ⟨b, hb, hbk⟩ := h.rows r hr k hk
      obtain ⟨b', hb', hbk'⟩ := hrows r hr k hk b hb hbk
      exact ⟨b', hb', hbk'.trans hbk⟩
    puts := by
      intro j r hr k hk
      obtain ⟨b, hb, hbk⟩ := h.puts j r hr k hk
      obtain ⟨b', hb', hbk'⟩ := hputs j r hr k hk b hb hbk
      exact ⟨b', hb', hbk'.trans hbk⟩ }

end

theorem exists_blob_putBlob {key : Text} {content : Bytes} {tx : Option ℕ} {b : Blob}
    (hb : b ∈ s.blobs) : ∃ b' ∈ (s.putBlob key content tx).blobs, b'.key = b.key := by
  by_cases hk : b.key = key
  · exact ⟨_, mem_putBlob.2 (.inr rfl), hk.symm⟩
  · exact ⟨b, mem_putBlob.2 (.inl ⟨hb, hk⟩), rfl⟩

/-- A blob is removed under the row of its user, when no entry refers to it. -/
theorem steady_remove (hC : C.Lawful) (hi : Inv C steady w) (hs : steady) {key : Text}
    {expected : Option ExpectedGeneration} (hpre : SendPre cfg C steady i (.remove key expected) w) :
    SteadyOk C w.state.entries w.state.userIds (w.state.removeBlob key).blobs w.state.users.locks
      w.state.published w.state.inFlight := by
  obtain ⟨-, e, hkey, hlock, hremove⟩ := hpre.steady hs
  obtain ⟨hnowrites, hnorow⟩ := hremove key expected rfl
  -- an entry of the removed blob belongs to `e`
  have howner : ∀ {user : ℕ} {path k : Text}, w.state.userIds[user]? = some k →
      k ++ path = key → k = C.z32 e.pubkey ∧ path = e.path.asStr := by
    intro user path k hk heq
    obtain ⟨pk, rfl⟩ := hi.users.keys k (List.mem_of_getElem? hk)
    exact key_inj hC (heq.trans hkey)
  refine (hi.steady hs).blobs_change (fun r hr k hk b hb hbk => ?_)
    fun j r hr k hk b hb hbk => ?_
  · refine ⟨b, mem_removeBlob.2 ⟨hb, fun heq => ?_⟩, rfl⟩
    obtain ⟨rfl, hpath⟩ := howner hk (hbk.symm.trans heq)
    exact hnorow r hr hk hpath
  · refine ⟨b, mem_removeBlob.2 ⟨hb, fun heq => ?_⟩, rfl⟩
    obtain ⟨rfl, -⟩ := howner hk (hbk.symm.trans heq)
    obtain ⟨k', hk', hlock'⟩ := hi.entries.locked_of_write hr (hi.entries.puts j r hr)
    obtain rfl := Option.some.inj (hk.symm.trans hk')
    obtain rfl := hi.users.locked.excl hlock hlock'
    rw [hnowrites] at hr
    cases hr

theorem effect_steady (hC : C.Lawful) (hi : Inv C steady w)
    (hpre : OpPre cfg C strict steady i w o) (h : Effect cfg C i w.state o s')
    (hlate : s'.inFlight = w.state.inFlight) (hs : steady) :
    SteadyOk C s'.entries s'.userIds s'.blobs s'.users.locks s'.published s'.inFlight := by
  have hst := hi.steady hs
  cases h with
  | commit ha =>
    exact hst.finish (fun r hr k hk => hst.view hr hk) fun l hl hne =>
      Table.mem_locks_finish.2 ⟨hl, hne⟩
  | rollback _ ho =>
    exact hst.finish hst.rows fun l hl hne => Table.mem_locks_finish.2 ⟨hl, hne⟩
  | lockUser key row hl hrow hb => exact hst.locks_mono fun l hl => List.mem_cons_of_mem _ hl
  | writeUser o userId f ho hl named row hnamed hid hrow hkey hb =>
    exact hst.locks_mono fun l hl => List.mem_cons_of_mem _ hl
  | createEntry userId path metadata hl hnew =>
    obtain ⟨-, e, -, rfl, hown, -, hblob⟩ := During.of_not_lost hpre hl
    refine hst.write fun r hr k hk => ?_
    obtain rfl := Write.put.inj hr
    obtain rfl := Option.some.inj (hown.symm.trans hk)
    exact hblob hs
  | updateEntry id metadata hl row hrow hid hb =>
    have hview := fun k (hk : w.state.userIds[row.user]? = some k) => hst.view hrow hk
    refine hst.write fun r hr k hk => ?_
    obtain rfl := Write.put.inj hr
    exact hview k hk
  | deleteEntry id hl hb => exact hst.write fun r hr => by cases hr
  | late request kind hbackend => exact absurd hlate (by simp)
  | carriedOut request hmeets =>
    obtain ⟨halive, e, hkey, hlock, -⟩ := hpre.steady hs
    have hblobs : SteadyOk C w.state.entries w.state.userIds
        (w.state.carryOut (w.state.txNumber i) request).2.blobs w.state.users.locks
        w.state.published w.state.inFlight := by
      unfold State.carryOut
      rw [if_pos hmeets]
      cases request with
      | publish key content expected =>
        exact hst.blobs_change (fun _ _ _ _ b hb _ => exists_blob_putBlob hb)
          fun _ _ _ _ _ b hb _ => exists_blob_putBlob hb
      | remove key expected => exact steady_remove hC hi hs hpre
    have hpub : ∀ j key, (j, key) ∈ ((w.state.carryOut (w.state.txNumber i) request).2.notePublished
        i request).published →
        ∃ e : EntryPath, key = e.asStr C ∧ (j, C.z32 e.pubkey) ∈ w.state.users.locks := by
      intro j key hp
      rcases mem_published_carriedOut hp with hp | ⟨heq, -⟩
      · exact hst.published j key hp
      · obtain ⟨rfl, rfl⟩ := Prod.mk.inj heq
        exact ⟨e, hkey, hlock⟩
    rw [carriedOut_eq]
    exact { hblobs with published := hpub }
  | copyBlob source target b hbackend hb => exact absurd hs hpre.1
  | renameBlob source target b hbackend hb => exact absurd hs hpre.1
  | _ => exact hst

/-! ## Tasks -/

theorem effect_calls (hi : Inv C steady w) (hpre : OpPre cfg C strict steady i w o)
    (h : Effect cfg C i w.state o s') : CallsOk C w.hist s'.keepAlives := by
  have hc := hi.calls
  cases h with
  | spawnKeepAlive path token =>
    refine { hc with keepAlives := fun k hk => ?_ }
    rcases List.mem_cons.1 hk with rfl | hk
    · exact hpre
    · exact hc.keepAlives k hk
  | stopKeepAlive thread =>
    exact { hc with keepAlives := fun k hk => hc.keepAlives k (List.mem_filter.1 hk).1 }
  | carriedOut request hmeets =>
    rw [carriedOut_eq]
    exact hc
  | _ => exact hc

/-- Operations keep the invariant. -/
theorem effect_inv (hC : C.Lawful) (hi : Inv C steady w) (hs : w.Started i) (hpre : OpPre cfg C strict steady i w o)
    (h : Effect cfg C i w.state o s') (hlate : steady → s'.inFlight = w.state.inFlight) :
    Inv C steady (w.setState s') where
  users := effect_users (w := w) hi hpre h
  entries := effect_entries (w := w) hi hpre h
  events := effect_events (w := w) hi hpre h
  txs := effect_txsOk (w := w) hi h
  owners := effect_owners (w := w) hi hs h
  live := effect_live (w := w) hi h
  idle := effect_idle (w := w) hi hpre h
  locks := effect_locks (w := w) hi hpre h
  store := effect_store (w := w) hi hpre h
  steady := fun hs => effect_steady (w := w) hC hi hpre h (hlate hs) hs
  calls := effect_calls (w := w) hi hpre h

end Pubky.Homeserver.Storage

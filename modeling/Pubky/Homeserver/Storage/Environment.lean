import Pubky.Homeserver.Storage.Preservation

/-!
# The logic of the storage, assembled

What is left besides the operations keeps the invariant too, and is a move that the calls may
rely on: the steps of the environment, calls that are dropped, and the start and the return of
calls. `storageLogic` puts everything together.
-/

namespace Pubky.Homeserver.Storage

open Sql Conc

variable {cfg : Config} {C : StorageCrates} {strict steady : Prop} {i j : ℕ} {w : Wld}
  {s s' : State} {o : Op} {hist hist' : Hist} {c : Choice}

/-! ## Users that sign up -/

section

variable {users : Table UserRow Text} {userIds : List Text} {row : UserRow}

theorem UsersOk.signUp (h : UsersOk C hist users userIds)
    (hnew : lookup users.rows row.publicKey = none) (hid : row.id = userIds.length)
    {key : PublicKey} (hkey : row.publicKey = C.z32 key) :
    UsersOk C hist { users with rows := users.rows ++ [row] } (userIds ++ [row.publicKey]) where
  locked := ⟨h.locked.excl, h.locked.writes⟩
  unique := h.unique.concat (lookup_eq_none.1 hnew)
  rows := by
    intro r hr
    rcases List.mem_append.1 hr with hr | hr
    · exact getElem?_of_extends (List.prefix_append _ _) (h.rows r hr)
    · obtain rfl := List.mem_singleton.1 hr
      rw [hid]
      simp
  puts := by
    intro j r hr
    obtain ⟨hid', hscope⟩ := h.puts j r hr
    exact ⟨getElem?_of_extends (List.prefix_append _ _) hid', hscope⟩
  noDel := h.noDel
  lockRows := by
    intro l hl
    obtain ⟨r, hr, hk⟩ := h.lockRows l hl
    exact ⟨r, List.mem_append_left _ hr, hk⟩
  keys := by
    intro k hk
    rcases List.mem_append.1 hk with hk | hk
    · exact h.keys k hk
    · obtain rfl := List.mem_singleton.1 hk
      exact ⟨key, hkey⟩
  present := by
    intro k hk
    rcases List.mem_append.1 hk with hk | hk
    · obtain ⟨r, hr, hrk⟩ := h.present k hk
      exact ⟨r, List.mem_append_left _ hr, hrk⟩
    · obtain rfl := List.mem_singleton.1 hk
      exact ⟨row, List.mem_append_right _ (List.mem_singleton.2 rfl), rfl⟩
  nodup := by
    refine List.Nodup.append h.nodup (by simp) fun k hk hk' => ?_
    obtain rfl := List.mem_singleton.1 hk'
    obtain ⟨r, hr, hrk⟩ := h.present _ hk
    exact lookup_eq_none.1 hnew r hr hrk

theorem EntriesOk.signUp {entries : Table EntryRow ℕ} {entryIds : List (ℕ × Text)}
    {locks : List (ℕ × Text)} {userIds' : List Text}
    (h : EntriesOk C hist entries entryIds userIds locks) (hids : userIds <+: userIds') :
    EntriesOk C hist entries entryIds userIds' locks :=
  { h with
    users := by
      intro x hx
      obtain ⟨k, hk⟩ := h.users x hx
      exact ⟨k, getElem?_of_extends hids hk⟩
    owned := by
      intro j wr hw
      obtain ⟨e, he, hown, hlock⟩ := h.owned j wr hw
      exact ⟨e, he, hown.mono hids (List.prefix_refl _), hlock⟩ }

theorem EventsOk.signUp {events : Table EventRow ℕ} {nextEventId : ℕ} {eventLock : Option ℕ}
    {userIds' : List Text} (h : EventsOk C hist events nextEventId eventLock userIds)
    (hids : userIds <+: userIds') : EventsOk C hist events nextEventId eventLock userIds' :=
  { h with
    users := by
      intro ev hev
      obtain ⟨k, hk⟩ := h.users ev hev
      exact ⟨k, getElem?_of_extends hids hk⟩
    writes := by
      intro j wr hw
      obtain ⟨hl, ev, e, hwr, hlt, hold, hscope, hown, hpath⟩ := h.writes j wr hw
      exact ⟨hl, ev, e, hwr, hlt, hold, hscope, getElem?_of_extends hids hown, hpath⟩ }

/-- Entries belong to users that exist. -/
theorem EntriesOk.user_of_id {entries : Table EntryRow ℕ} {entryIds : List (ℕ × Text)}
    {locks : List (ℕ × Text)} {userIds' : List Text}
    (h : EntriesOk C hist entries entryIds userIds locks) (hids : userIds <+: userIds')
    {r : EntryRow} (hr : entryIds[r.id]? = some (r.user, r.path)) {k : Text}
    (hk : userIds'[r.user]? = some k) : userIds[r.user]? = some k := by
  obtain ⟨k', hk'⟩ := h.users _ (List.mem_of_getElem? hr)
  rw [getElem?_of_extends hids hk'] at hk
  rw [hk', hk]

end

/-! ## Longer histories -/

/-- The invariant for a longer history, whose new rounds belong to requests. -/
theorem Inv.hist_mono (h : Inv C steady w) (hh : w.hist <:+ hist')
    (hrounds : ∀ j parent path token, .call j (.keepAlive parent path token) ∈ hist' →
      InScope C hist' parent path) :
    Inv C steady { w with hist := hist' } where
  users := { h.users with
    puts := by
      intro j r hr
      obtain ⟨hid, e, he, hk⟩ := h.users.puts j r hr
      exact ⟨hid, e, he.mono hh, hk⟩ }
  entries := { h.entries with
    owned := by
      intro j wr hw
      obtain ⟨e, he, hrest⟩ := h.entries.owned j wr hw
      exact ⟨e, he.mono hh, hrest⟩ }
  events := { h.events with
    writes := by
      intro j wr hw
      obtain ⟨hl, ev, e, hwr, hlt, hold, hscope, hrest⟩ := h.events.writes j wr hw
      exact ⟨hl, ev, e, hwr, hlt, hold, hscope.mono hh, hrest⟩ }
  txs := h.txs
  owners := by
    intro t ht
    obtain ⟨c, hc⟩ := h.owners t ht
    exact ⟨c, hh.subset hc⟩
  live := h.live
  idle := h.idle
  locks := { h.locks with
    puts := by
      intro j r hr
      obtain ⟨hold, e, he, hk⟩ := h.locks.puts j r hr
      exact ⟨hold, e, he.mono hh, hk⟩ }
  store := { h.store with
    inFlight := by
      intro f hf
      obtain ⟨hsome, hok⟩ := h.store.inFlight f hf
      exact ⟨hsome, hok.mono (Grows.refl _) hh⟩ }
  steady := h.steady
  calls := ⟨fun k hk => (h.calls.keepAlives k hk).mono hh, hrounds⟩

theorem Rely.log {ev : Event Call Out} (hev : ∀ c, ev ≠ .call j c) :
    Rely steady j w (w.log ev) :=
  { Rely.refl steady j w with
    hist := List.suffix_cons _ _
    calls := fun c hc => (List.mem_cons.1 hc).resolve_left fun heq => hev c heq.symm }

/-- A call starts. -/
theorem call_inv (hi : Inv C steady w) {call : Call} (ha : Admits C strict steady w (.call i call)) :
    Inv C steady (w.log (.call i call)) := by
  refine hi.hist_mono (List.suffix_cons _ _) fun j parent path token hmem => ?_
  rcases List.mem_cons.1 hmem with heq | hmem
  · obtain ⟨rfl, rfl⟩ := Event.call.inj heq
    exact (hi.calls.keepAlives _ ha).mono (List.suffix_cons _ _)
  · exact (hi.calls.rounds j parent path token hmem).mono (List.suffix_cons _ _)

/-- A call returns. -/
theorem ret_inv (hi : Inv C steady w) {out : Out} : Inv C steady (w.log (.ret i out)) := by
  refine hi.hist_mono (List.suffix_cons _ _) fun j parent path token hmem => ?_
  rcases List.mem_cons.1 hmem with heq | hmem
  · cases heq
  · exact (hi.calls.rounds j parent path token hmem).mono (List.suffix_cons _ _)

/-! ## Calls that are dropped -/

theorem Inv.keepAlives_filter {p : KeepAlive → Bool} (hi : Inv C steady w) :
    Inv C steady (w.setState { w.state with keepAlives := w.state.keepAlives.filter p }) :=
  { hi with
    idle := fun j hj => { hi.idle j hj with }
    calls := { hi.calls with
      keepAlives := fun k hk => hi.calls.keepAlives k (List.mem_filter.1 hk).1 } }

theorem drop_ok (cfg : Config) (hC : C.Lawful) (hi : Inv C steady w) (hs : w.Started i) :
    Inv C steady (w.setState (abort i w.state)) ∧
      ∀ j, j ≠ i → Rely steady j w (w.setState (abort i w.state)) := by
  have heff : Effect cfg C i w.state .rollback (w.state.rollback i) := .rollback _ (.inr rfl)
  have hpre : OpPre cfg C False steady i w .rollback := trivial
  have hinv := effect_inv hC hi hs hpre heff fun _ => rfl
  refine ⟨Inv.keepAlives_filter hinv, fun j hj => ?_⟩
  have hrely := effect_rely hC hi hj hpre heff
  exact { hrely with grows := { hrely.grows with }, same := fun ha => ⟨(hrely.same ha).1,
    { (hrely.same ha).2 with }⟩ }

/-! ## Steps of the environment -/

theorem tick_inv (hi : Inv C steady w) {clock : ℤ} (hc : w.state.clock ≤ clock) :
    Inv C steady (w.setState { w.state with clock := clock }) :=
  { hi with
    idle := fun j hj => { hi.idle j hj with }
    locks := { hi.locks with
      held := by
        intro x hx
        obtain ⟨hlock, hlive, hfound, hrest⟩ := hi.locks.held x hx
        exact ⟨hlock, hlive, Int.le_trans hfound hc, hrest⟩ } }

theorem tick_rely {clock : ℤ} (hc : w.state.clock ≤ clock) :
    Rely steady j w (w.setState { w.state with clock := clock }) :=
  { Rely.refl steady j w with
    grows := { Grows.refl w.state with clock := hc }
    same := fun ha => ⟨ha, { Same.refl steady j w.state with }⟩ }

/-- The state after a user has signed up. -/
def State.signUp (s : State) (row : UserRow) : State :=
  { s with
    users := { s.users with rows := s.users.rows ++ [row] }
    userIds := s.userIds ++ [row.publicKey] }

theorem signUp_inv (hi : Inv C steady w) {row : UserRow} {key : PublicKey}
    (hnew : lookup w.state.users.rows row.publicKey = none)
    (hid : row.id = w.state.userIds.length) (hkey : row.publicKey = C.z32 key) :
    Inv C steady (w.setState (w.state.signUp row)) := by
  have hids : w.state.userIds <+: w.state.userIds ++ [row.publicKey] := List.prefix_append _ _
  exact { hi with
    users := hi.users.signUp hnew hid hkey
    entries := hi.entries.signUp hids
    events := hi.events.signUp hids
    idle := fun j hj => { hi.idle j hj with }
    steady := fun hs => { hi.steady hs with
      rows := fun r hr k hk => (hi.steady hs).rows r hr k
        (hi.entries.user_of_id hids (hi.entries.rows r hr) hk)
      puts := fun j r hr k hk => (hi.steady hs).puts j r hr k
        (hi.entries.user_of_id hids (hi.entries.puts j r hr) hk) } }

theorem signUp_rely (hi : Inv C steady w) {row : UserRow}
    (hnew : lookup w.state.users.rows row.publicKey = none) :
    Rely steady j w (w.setState (w.state.signUp row)) := by
  refine { Rely.refl steady j w with
    grows := { Grows.refl w.state with
      userIds := List.prefix_append _ _
      users := fun r hr => ⟨r, List.mem_append_left _ hr, rfl⟩ }
    same := fun ha => ⟨ha, { Same.refl steady j w.state with userRows := fun r hr => ?_ }⟩ }
  -- a locked row is there already, and it is not the new one
  refine List.mem_append.trans ⟨fun hmem => hmem.resolve_right fun heq => ?_, .inl⟩
  obtain rfl := List.mem_singleton.1 heq
  obtain ⟨r', hr', hk⟩ := hi.users.lockRows _ hr
  exact lookup_eq_none.1 hnew r' hr' hk

/-- The transactions after the connection of `i` has died. -/
theorem mem_lostTxs {t : Tx} :
    t ∈ (w.state.lose i).txs ↔ ∃ t' ∈ w.state.txs, (if t'.thread = i then
      { t' with alive := false } else t') = t :=
  List.mem_map

theorem lose_txs (n : ℕ) :
    (∃ a, ⟨j, n, a⟩ ∈ (w.state.lose i).txs) ↔ ∃ a, ⟨j, n, a⟩ ∈ w.state.txs := by
  constructor
  · rintro ⟨a, ha⟩
    obtain ⟨⟨th, num, al⟩, ht, heq⟩ := mem_lostTxs.1 ha
    split at heq
    · obtain ⟨rfl, rfl, -⟩ := Tx.mk.inj heq
      exact ⟨al, ht⟩
    · exact ⟨a, heq ▸ ht⟩
  · rintro ⟨a, ha⟩
    by_cases hj : j = i
    · exact ⟨false, mem_lostTxs.2 ⟨_, ha, if_pos hj⟩⟩
    · exact ⟨a, mem_lostTxs.2 ⟨_, ha, if_neg hj⟩⟩

/-- After that, `i` has no connection, and the others have what they had. -/
theorem mem_lost_alive {n : ℕ} :
    ⟨j, n, true⟩ ∈ (w.state.lose i).txs ↔ j ≠ i ∧ ⟨j, n, true⟩ ∈ w.state.txs := by
  constructor
  · intro ha
    obtain ⟨t, ht, heq⟩ := mem_lostTxs.1 ha
    split at heq
    · cases heq
    · rename_i hne
      subst heq
      exact ⟨hne, ht⟩
  · rintro ⟨hj, ha⟩
    exact mem_lostTxs.2 ⟨_, ha, if_neg hj⟩

theorem lose_alive : (w.state.lose i).alive j = true ↔ j ≠ i ∧ w.state.alive j = true := by
  simp only [State.alive_iff, mem_lost_alive, exists_and_left]

theorem lose_txsOk (hi : Inv C steady w) (i : ℕ) :
    TxsOk (w.state.lose i).txs (w.state.lose i).nextTx (w.state.lose i).journal := by
  have hthread : ∀ t : Tx, (if t.thread = i then { t with alive := false } else t).thread =
      t.thread := by
    intro t
    split <;> rfl
  have hnumber : ∀ t : Tx, (if t.thread = i then { t with alive := false } else t).number =
      t.number := by
    intro t
    split <;> rfl
  refine hi.txs.finish ?_ ?_ (fun t ht => (List.mem_filter.1 ht).1) (fun t ht => ?_)
    fun t ht ha => ?_
  · have hmap : (w.state.lose i).txs.map Tx.thread = w.state.txs.map Tx.thread :=
      List.map_map.trans (List.map_congr_left fun t _ => hthread t)
    exact hmap ▸ hi.txs.threads
  · have hmap : (w.state.lose i).txs.map Tx.number = w.state.txs.map Tx.number :=
      List.map_map.trans (List.map_congr_left fun t _ => hnumber t)
    exact hmap ▸ hi.txs.numbers
  · obtain ⟨t', ht', rfl⟩ := mem_lostTxs.1 ht
    exact ⟨t', ht', (hnumber t').symm⟩
  · obtain ⟨thread, number, alive⟩ := t
    obtain rfl : alive = true := ha
    obtain ⟨hne, hmem⟩ := mem_lost_alive.1 ht
    exact ⟨hmem, fun hended => hne (by simpa using (List.mem_filter.1 hended).2)⟩

theorem lose_inv (hi : Inv C steady w) (hsteady : ¬ steady) (i : ℕ) :
    Inv C steady (w.setState (w.state.lose i)) where
  users := hi.users.finish hi.users.unique hi.users.rows fun r hr => ⟨r, hr, rfl⟩
  entries := hi.entries.finish hi.entries.unique hi.entries.rows fun _ hl hne =>
    Table.mem_locks_finish.2 ⟨hl, hne⟩
  events := hi.events.finish (fun ev hev => ⟨hi.events.rows ev hev, hi.events.users ev hev⟩)
    fun _ _ _ => rfl
  txs := lose_txsOk hi i
  owners := by
    rintro ⟨thread, number, alive⟩ ht
    obtain ⟨a, ha⟩ := (lose_txs number).1 ⟨alive, ht⟩
    exact hi.owners ⟨thread, number, a⟩ ha
  live := fun hs => absurd hs hsteady
  idle := by
    intro j hdead
    by_cases hj : j = i
    · subst hj
      exact quiet_finish_self w.state j
    · have hdead' : w.state.alive j = false := by
        rw [← Bool.not_eq_true] at hdead ⊢
        exact fun ha => hdead (lose_alive.2 ⟨hj, ha⟩)
      exact (hi.idle j hdead').finish hj
  locks := hi.locks.finish hi.locks.unique fun _ hr _ _ _ => hr
  store := hi.store.journal_mono { Grows.refl w.state with
    journal := fun n hn => List.mem_append_right _ hn
    old := fun f g ho => ho.marks fun _ _ m _ => acquired_not_mem_ended _ m }
  steady := fun hs => (hi.steady hs).finish (hi.steady hs).rows fun _ hl hne =>
    Table.mem_locks_finish.2 ⟨hl, hne⟩
  calls := hi.calls

theorem lose_rely (i : ℕ) :
    Rely steady j w (w.setState (w.state.lose i)) where
  hist := List.suffix_refl _
  calls := fun _ hc => hc
  grows := finish_grows w.state undo_grows
  txs := lose_txs
  acquired := fun n _ ha hm =>
    (List.mem_append.1 hm).elim (acquired_not_mem_ended _ n) ha
  lost := by
    intro hl
    obtain ⟨n, hn⟩ := State.lost_iff.1 hl
    refine State.lost_iff.2 ⟨n, mem_lostTxs.2 ⟨_, hn, ?_⟩⟩
    split <;> rfl
  same := by
    intro ha
    obtain ⟨hj, ha⟩ := lose_alive.1 ha
    exact ⟨ha, rollback_same hj _⟩

theorem land_inv (hi : Inv C steady w) {n : ℕ} {f : InFlight}
    (hf : w.state.inFlight[n]? = some f) :
    Inv C steady (w.setState
      { (w.state.carryOut f.tx f.request).2 with inFlight := w.state.inFlight.eraseIdx n }) := by
  have hmem := List.mem_of_getElem? hf
  have hstore := hi.store.carryOut (hi.store.inFlight f hmem).2
  rw [carryOut_eq]
  exact { hi with
    idle := fun j hj => { hi.idle j hj with }
    store := { hstore with
      inFlight := fun f' hf' => hstore.inFlight f' (List.mem_of_mem_eraseIdx hf') }
    steady := by
      intro hs
      rw [(hi.steady hs).inFlight] at hmem
      cases hmem }

theorem land_rely (hi : Inv C steady w) {n : ℕ} {f : InFlight}
    (hf : w.state.inFlight[n]? = some f) :
    Rely steady j w (w.setState
      { (w.state.carryOut f.tx f.request).2 with inFlight := w.state.inFlight.eraseIdx n }) := by
  have hmem := List.mem_of_getElem? hf
  have hg : Grows w.state (w.state.carryOut f.tx f.request).2 := carryOut_grows f.tx f.request
  rw [carryOut_eq] at hg ⊢
  refine { Rely.refl steady j w with
    grows := { hg with }
    same := fun ha => ⟨ha, { Same.refl steady j w.state with blobs := fun hs => ?_ }⟩ }
  rw [(hi.steady hs).inFlight] at hmem
  cases hmem

theorem env_ok (hi : Inv C steady w) {e : Env} (ha : Admits C strict steady w (.env e))
    (h : env C e w.state = some s) :
    Inv C steady (w.setState s) ∧ ∀ j, Rely steady j w (w.setState s) := by
  cases e with
  | tick clock =>
    simp only [env] at h
    split at h
    · rename_i hc
      cases h
      exact ⟨tick_inv hi hc, fun j => tick_rely hc⟩
    · cases h
  | addUser key quota =>
    simp only [env] at h
    split at h
    · cases h
    · rename_i hnew
      cases h
      have hnew : lookup w.state.users.rows (C.z32 key) = none := by simpa using hnew
      exact ⟨signUp_inv hi hnew rfl rfl, fun j => signUp_rely hi hnew⟩
  | lose i =>
    simp only [env] at h
    split at h
    · cases h
      exact ⟨lose_inv hi ha i, fun j => lose_rely i⟩
    · cases h
  | land n =>
    simp only [env] at h
    split at h
    · cases h
    · rename_i f hf
      cases h
      exact ⟨land_inv hi hf, fun j => land_rely hi hf⟩
  | disconnect i =>
    cases h
    exact ⟨hi.keepAlives_filter, fun j => { Rely.refl steady j w with
      grows := { Grows.refl w.state with }
      same := fun ha => ⟨ha, { Same.refl steady j w.state with }⟩ }⟩
  | expireQuota key =>
    cases h
    exact ⟨{ hi with idle := fun j hj => { hi.idle j hj with } }, fun j =>
      { Rely.refl steady j w with
        grows := { Grows.refl w.state with }
        same := fun ha => ⟨ha, { Same.refl steady j w.state with }⟩ }⟩

/-! ## The logic -/

/-- Only a late request stays in flight. -/
theorem exec_inFlight {r : o.Res} (h : exec cfg C i o c s = some (r, s'))
    (hc : ∀ kind, c ≠ .late kind) : s'.inFlight = s.inFlight := by
  have heff : Effect cfg C i s o s' := exec_effect h
  cases heff with
  | late request kind hbackend =>
    simp only [exec, State.send] at h
    cases c with
    | late kind => exact absurd rfl (hc kind)
    | _ =>
      rcases backendAnswer_eq_some h with h | h
      · exact congrArg State.inFlight h
      · rw [h]
        split
        · rw [carriedOut_eq]
        · rw [carryOut_eq]
  | carriedOut request hmeets => rw [carriedOut_eq]
  | _ => rfl

/-- The invariant, the rely condition and the preconditions fit together. -/
def storageLogic (cfg : Config) {C : StorageCrates} (hC : C.Lawful) (strict steady : Prop) :
    Logic (machine cfg C) (Admits C strict steady) where
  Inv := Inv C steady
  Rely := Rely steady
  Pre := Pre cfg C strict steady
  Post := fun _ _ _ => True
  rely_refl := Rely.refl steady
  rely_trans := Rely.trans
  op_ok := by
    intro w i o c r s hi hs hpre ha hx
    have heff := exec_effect hx
    refine ⟨effect_inv hC hi hs hpre.2 heff fun hst => ?_,
      fun j hj => effect_rely hC hi hj hpre.2 heff⟩
    refine exec_inFlight hx fun kind hc => ?_
    subst hc
    exact ha hst
  call_ok := fun hi _ ha => ⟨call_inv hi ha, fun j hj => Rely.log fun c heq =>
    hj (Event.call.inj heq).1.symm⟩
  ret_ok := fun hi _ _ _ => ⟨ret_inv hi, fun j _ => Rely.log fun c heq => by cases heq⟩
  drop_ok := fun hi hs _ => drop_ok cfg hC hi hs
  env_ok := fun hi ha hx => env_ok hi ha hx

end Pubky.Homeserver.Storage

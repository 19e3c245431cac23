import Pubky.Homeserver.Storage.Statements

/-!
# Finalizations are changes of the ledger

The transactions of `write_finalization_layer/{write,delete}.rs`, from the lock on the user's row
to the commit: what they have written by then is a `Change` of the ledger, and a finalization
that runs under a token holds the write lock.
-/

namespace Pubky.Homeserver.Storage

open Sql Conc Conc.Proc Conc.Logic

variable {cfg : Config} {C : StorageCrates} {hC : C.Lawful} {strict steady : Prop} {i j : ℕ}
  {w w' : Wld} {s s' : State} {o : Op} {c : Choice} {ε α β : Type} {e : EntryPath}
  {token : Option Text} {u : UserRow} {metadata : FileMetadata} {existing : Option EntryRow}

/-! ## Effects of the statements -/

theorem updateEntry_eq {row : EntryRow} (hw : s.entries.writesOf i = [])
    (hunique : UniqueKeys s.entries.rows) (hrow : row ∈ s.entries.rows)
    (h : s.updateEntry i row.id metadata = some (.ok (), s')) :
    metadata.length.toNat < 2 ^ 63 ∧ s' = { s with
      entries := s.entries.write i (.put (entryAfterWrite (some row) 0 0 [] metadata)) } := by
  simp only [State.updateEntry, Table.update, Table.view_of_writesOf_eq_nil hw,
    show lookup s.entries.rows row.id = some row from hunique.lookup hrow] at h
  split at h
  · cases (Prod.mk.inj (Option.some.inj h)).1
  · rename_i hfits
    have hfits : metadata.length.toNat < 2 ^ 63 := by simpa [State.fitsBigint] using hfits
    cases hb : s.entries.blocked i row.id with
    | true => simp [hb] at h
    | false =>
      simp only [hb] at h
      cases h
      exact ⟨hfits, rfl⟩

theorem createEntry_eq {userId : ℕ} {path : StoragePath}
    (h : s.createEntry i userId path metadata = some (.ok (), s')) :
    metadata.length.toNat < 2 ^ 63 ∧ s' = { s with
      entryIds := s.entryIds ++ [(userId, path.asStr)]
      entries := s.entries.write i (.put
        (entryAfterWrite none s.entryIds.length userId path.asStr metadata)) } := by
  simp only [State.createEntry] at h
  split at h
  · cases (Prod.mk.inj (Option.some.inj h)).1
  · rename_i hfits
    have hfits : metadata.length.toNat < 2 ^ 63 := by simpa [State.fitsBigint] using hfits
    split at h
    · cases (Prod.mk.inj (Option.some.inj h)).1
    · cases h
      exact ⟨hfits, rfl⟩

theorem deleteEntry_eq {row : EntryRow} (hw : s.entries.writesOf i = [])
    (hunique : UniqueKeys s.entries.rows) (hrow : row ∈ s.entries.rows)
    (h : s.deleteEntry i row.id = some (.ok (), s')) :
    s' = { s with entries := s.entries.write i (.del row.id) } := by
  simp only [State.deleteEntry, Table.view_of_writesOf_eq_nil hw,
    show lookup s.entries.rows row.id = some row from hunique.lookup hrow] at h
  split at h
  · cases h
  · cases h
    rfl

/-- Ids of users are unique. -/
theorem UsersOk.eq_of_id {hist : Hist} {users : Table UserRow Text} {userIds : List Text}
    (h : UsersOk C hist users userIds) {r r' : UserRow} (hr : r ∈ users.rows)
    (hr' : r' ∈ users.rows) (hid : r.id = r'.id) : r = r' := by
  refine h.unique.eq_of_key_eq hr hr' (Option.some.inj ?_)
  rw [key_userRow, key_userRow, ← h.rows r hr, ← h.rows r' hr', hid]

theorem updateUserById_eq (hunique : UniqueKeys s.users.rows)
    (hids : ∀ v ∈ s.users.rows, v.id = u.id → v = u) (hw : s.users.writesOf i = [])
    (hmem : u ∈ s.users.rows) {f : UserRow → UserRow} {user : UserEntity}
    (h : s.updateUserById C i u.id f = some (.ok user, s')) :
    s' = { s with users := s.users.write i (.put (f u)) } := by
  simp only [State.updateUserById, Table.update, Table.view_of_writesOf_eq_nil hw] at h
  cases hfind : s.users.rows.find? fun r => r.id = u.id with
  | none =>
    have := List.find?_eq_none.1 hfind u hmem
    simp at this
  | some row =>
    have hid : row.id = u.id := by simpa using List.find?_some hfind
    obtain rfl := hids row (List.mem_of_find?_eq_some hfind) hid
    have hlookup : lookup s.users.rows row.publicKey = some row := hunique.lookup hmem
    simp only [hfind, hlookup] at h
    cases hb : s.users.blocked i row.publicKey with
    | true => simp [hb] at h
    | false =>
      simp only [hb] at h
      obtain ⟨-, rfl⟩ := Prod.mk.inj (Option.some.inj h)
      rfl

section

variable {F : Wld → Prop} {X : State → Prop} {us : List (Write UserRow Text)}
  {es : List (Write EntryRow ℕ)} {evs : List (Write EventRow ℕ)}

/-- What the transaction writes for the entry of the file. -/
theorem writeEntry_safe {prepared : PreparedWrite} (hF : Frame C steady i F)
    (hX : Fact C steady i e u X) (hctx : ∀ {w}, F w → Ctx C steady i e token w)
    (hfinds : ∀ {s}, X s → Finds u e.path.asStr existing s)
    (hentry : ∀ {s}, X s → ReadsEntry existing prepared.existingEntry)
    (huser : ∀ {s}, X s → Reads u prepared.user) (hstored : ∀ {s}, X s → Stored C steady e s)
    (h : F w) (hd : During w.state i (Base C i e u [] [] [] w.state ∧ X w.state)) :
    Safely cfg hC strict steady i (writeEntry e prepared metadata) (fun _ => F)
      (fun _ w => F w ∧ ∃ newId, During w.state i (Base C i e u []
        [.put (entryAfterWrite existing newId u.id e.path.asStr metadata)] [] w.state ∧ X w.state ∧
        ((existing = none → w.state.entryIds[newId]? = some (u.id, e.path.asStr)) ∧
          metadata.length.toNat < 2 ^ 63))) w := by
  have hY : ∀ (_ : Unit) newId, Fact C steady i e u fun s =>
      (existing = none → s.entryIds[newId]? = some (u.id, e.path.asStr)) ∧
        metadata.length.toNat < 2 ^ 63 :=
    fun _ _ => (Fact.imp _ entryId_fact).and (Fact.pure _)
  rw [writeEntry]
  cases hex : prepared.existingEntry with
  | some entry =>
    -- the row that was read is the one that is updated
    have hread : ∀ {s}, X s → ∃ row, existing = some row ∧ row.id = entry.id := by
      intro s hx
      obtain ⟨hid, -⟩ := hentry hx
      rw [hex, Option.map_some, eq_comm, Option.map_eq_some_iff] at hid
      exact hid
    refine stmt_base_exists (o := .updateEntry entry.id metadata) (g := fun r => r) hF hX hY rfl
      trivial answer_lost ?_ (fun _ hl => .inl hl) ?_ h hd
    · intro w hi hf hb hx ha
      obtain ⟨row, hrow, hid⟩ := hread hx
      obtain ⟨hmem, hru, hrp⟩ := (hfinds hx).mem row hrow
      have hown := hi.entries.rows row hmem
      rw [hid, hru, hrp] at hown
      exact .inr ⟨ha, e, (hctx hf).scope, ⟨u.id, hown, hb.id⟩, hb.lock, hstored hx⟩
    · intro w c r s' a hi hf ha hb hx hexec hr
      obtain ⟨row, hrow, hid⟩ := hread hx
      subst hr
      obtain ⟨-, hexec⟩ := answer_eq (by simp) hexec
      rw [← hid] at hexec
      obtain ⟨hfits, rfl⟩ := updateEntry_eq hb.entries hi.entries.unique
        ((hfinds hx).mem row hrow).1 hexec
      refine ⟨0, { hb.toWrote with entries := ?_ }, fun hnone => ?_, hfits⟩
      · rw [Table.writesOf_write_self, hb.entries, hrow]
        rfl
      · rw [hrow] at hnone
        cases hnone
  | none =>
    have hnone : ∀ {s}, X s → existing = none := by
      intro s hx
      obtain ⟨hid, -⟩ := hentry hx
      rw [hex, Option.map_none, eq_comm, Option.map_eq_none_iff] at hid
      exact hid
    refine stmt_base_exists (o := .createEntry prepared.user.id e.path metadata)
      (g := fun r => r) hF hX hY rfl trivial answer_lost ?_ (fun _ hl => .inl hl) ?_ h hd
    · intro w hi hf hb hx ha
      refine .inr ⟨ha, e, (hctx hf).scope, rfl, ?_, hb.lock, hstored hx⟩
      rw [(huser hx).id]
      exact hb.id
    · intro w c r s' a hi hf ha hb hx hexec hr
      subst hr
      obtain ⟨-, hexec⟩ := answer_eq (by simp) hexec
      obtain ⟨hfits, rfl⟩ := createEntry_eq hexec
      refine ⟨w.state.entryIds.length, { hb.toWrote with entries := ?_ }, fun _ => ?_, hfits⟩
      · rw [Table.writesOf_write_self, hb.entries, hnone hx, (huser hx).id]
        rfl
      · rw [(huser hx).id]
        simp

/-- The event of a change, under the advisory lock. -/
theorem createEvent_safe {userId : ℕ} {type : EventType} (hF : Frame C steady i F)
    (hX : Fact C steady i e u X) (hctx : ∀ {w}, F w → Ctx C steady i e token w)
    (hid : ∀ {s}, X s → userId = u.id) (h : F w)
    (hd : During w.state i (Base C i e u us es [] w.state ∧ X w.state)) :
    Safely cfg hC strict steady i (createEvent e userId type) (fun _ => F)
      (fun _ w => F w ∧ ∃ eventId, During w.state i (Base C i e u us es
        [.put (type.toRow eventId u.id e.path.asStr)] w.state ∧ X w.state)) w := by
  have hlock : Safely cfg hC strict steady i (sql (perform .lockEvents)) (fun _ => F)
      (fun _ w => F w ∧ During w.state i (Base C i e u us es [] w.state ∧ X w.state ∧
        w.state.eventLock = some i)) w := by
    refine stmt_base (o := .lockEvents) (g := fun r => r) (Y := fun _ s => s.eventLock = some i)
      hF hX (fun _ => eventLock_fact) rfl trivial answer_lost
      (fun _ _ _ _ _ ha => .inr ⟨ha, trivial⟩) (fun _ hl => .inl hl) ?_ h hd
    intro w c r s' a hi hf ha hb hx hexec hr
    refine ⟨effect_wrote (o := .lockEvents) trivial id (exec_effect hexec) hb.toWrote, ?_⟩
    subst hr
    obtain ⟨-, hexec⟩ := answer_eq (by simp) hexec
    simp only [State.lockEvents] at hexec
    split at hexec
    · cases hexec
    · cases hexec
      rfl
  refine SafeX.seq (fun _ _ _ hr _ => hF.rely hr) hlock fun _ w₁ _ hw₁ => ?_
  have hinsert : Safely cfg hC strict steady i (sql (perform (.insertEvent userId type e)))
      (fun _ => F) (fun _ w => F w ∧ ∃ eventId, During w.state i (Base C i e u us es
        [.put (type.toRow eventId u.id e.path.asStr)] w.state ∧
        (X w.state ∧ w.state.eventLock = some i) ∧ True)) w₁ := by
    refine stmt_base_exists (o := .insertEvent userId type e) (g := fun r => r)
      (Y := fun _ _ _ => True) hF (hX.and eventLock_fact) (fun _ _ => Fact.pure _) rfl trivial
      answer_lost ?_ (fun _ hl => .inl hl) ?_ hw₁.1 hw₁.2
    · rintro w hi hf hb ⟨hx, hl⟩ ha
      refine .inr ⟨ha, hl, (hctx hf).scope, ?_⟩
      rw [hid hx]
      exact hb.id
    · rintro w c r s' a hi hf ha hb ⟨hx, -⟩ hexec hr
      subst hr
      obtain ⟨-, hexec⟩ := answer_eq (by simp) hexec
      cases hexec
      refine ⟨w.state.nextEventId, { hb.toWrote with events := ?_ }, trivial⟩
      rw [Table.writesOf_write_self, hb.events, hid hx]
      rfl
  refine SafeX.mono hinsert (fun _ _ _ hf => hf) ?_
  rintro - w₂ - ⟨hf, eventId, hd⟩
  exact ⟨hf, eventId, hd.mono fun h => ⟨h.1, h.2.1.1⟩⟩

/-- What the transaction writes for the user. -/
theorem writeUser_safe {userId : ℕ} {update : UserRow → UserRow} {f : SqlError → ε}
    {p : Prog Op Op.Res (Except SqlError UserEntity)} {g : o.Res → Except SqlError UserEntity}
    (hp : p = .op o fun r => .ret (g r)) (ho : o.OnTables)
    (hexec : ∀ {c s r s'}, exec cfg C i o c s = some (r, s') →
      answer c i s (s.updateUserById C i userId update) = some (g r, s'))
    (hpre : ∀ {w}, During w.state i (∃ e, InScope C w.hist i e ∧
      w.state.userIds[userId]? = some (C.z32 e.pubkey)) → OpPre cfg C strict steady i w o)
    (hF : Frame C steady i F) (hX : Fact C steady i e u X)
    (hscope : ∀ {w}, F w → InScope C w.hist i e) (hid : ∀ {s}, X s → userId = u.id) (h : F w)
    (hd : During w.state i (Base C i e u [] es evs w.state ∧ X w.state)) :
    Safely cfg hC strict steady i (stmt f p) (fun _ => F)
      (fun _ w => F w ∧ During w.state i (Base C i e u [.put (update u)] es evs w.state ∧
        X w.state ∧ True)) w := by
  refine stmt_base (Y := fun _ _ => True) hF hX (fun _ => Fact.pure _) hp ho
    (fun hl hx => answer_lost hl (hexec hx)) ?_ (fun _ hl => hpre (.inl hl)) ?_ h hd
  · intro w hi hf hb hx ha
    refine hpre (.inr ⟨ha, e, hscope hf, ?_⟩)
    rw [hid hx]
    exact hb.id
  · intro w c r s' a hi hf ha hb hx hx' hr
    obtain ⟨-, hx'⟩ := answer_eq (by simp [hr]) (hexec hx')
    rw [hr, hid hx] at hx'
    obtain rfl := updateUserById_eq hi.users.unique
      (fun v hv => hi.users.eq_of_id hv hb.mem) hb.users hb.mem hx'
    refine ⟨{ hb.toWrote with users := ?_ }, trivial⟩
    rw [Table.writesOf_write_self, hb.users]
    rfl

theorem updateUser_safe {user : UserEntity} {f : SqlError → ε} (hF : Frame C steady i F)
    (hX : Fact C steady i e u X) (hscope : ∀ {w}, F w → InScope C w.hist i e)
    (hid : ∀ {s}, X s → user.id = u.id) (h : F w)
    (hd : During w.state i (Base C i e u [] es evs w.state ∧ X w.state)) :
    Safely cfg hC strict steady i (stmt f (perform (.updateUser user))) (fun _ => F)
      (fun _ w => F w ∧ During w.state i (Base C i e u
        [.put { u with disabled := user.disabled, usedBytes := user.usedBytes }] es evs w.state ∧
        X w.state ∧ True)) w :=
  writeUser_safe (o := .updateUser user) (g := fun r => r) rfl trivial (fun hx => hx) id hF hX
    hscope hid h hd

end

/-! ## Writing a file -/

/-- A finalization under a token holds the write lock of its file. -/
theorem Ctx.holdsLock (h : Ctx C steady i e token w) (ht : HoldsToken C i e token w.state) :
    HoldsLock C w i := by
  intro r hr hw htokens _
  obtain ⟨htarget, t, hmem, htoken⟩ := h.covers r hr hw htokens
  obtain ⟨x, hx, hth, hkey, hxt⟩ := ht t htoken
  exact ⟨x, hx, hth, hxt ▸ hmem, e, htarget, hkey⟩

/-- What `prepare_write` has established. -/
structure Prepared (C : StorageCrates) (i : ℕ) (e : EntryPath) (token : Option Text)
    (access : Access) (metadata : FileMetadata) (u : UserRow) (existing : Option EntryRow)
    (prepared : PreparedWrite) (s : State) : Prop where
  user : Reads u prepared.user
  entry : ReadsEntry existing prepared.existingEntry
  delta : prepared.bytesDelta = writeDelta (existing.map EntryRow.contentLength) metadata.length
  held : HoldsToken C i e token s
  free : access = .app → Free u e.path.asStr s
  finds : Finds u e.path.asStr existing s

variable {access : Access} {prepared : PreparedWrite}

theorem Prepared.fact :
    Fact C steady i e u (Prepared C i e token access metadata u existing prepared) := by
  have hheld : Fact C steady i e u (HoldsToken C i e token) := HoldsToken.fact
  have hfree : Fact C steady i e u fun s => access = .app → Free u e.path.asStr s := Free.fact
  have hfinds : Fact C steady i e u (Finds u e.path.asStr existing) := Finds.fact
  exact
    { carried := fun hc ho h => { h with
        held := hheld.carried hc ho h.held
        free := hfree.carried hc ho h.free
        finds := hfinds.carried hc ho h.finds }
      own := fun hr h => { h with
        held := hheld.own hr h.held
        free := hfree.own hr h.free
        finds := hfinds.own hr h.finds } }

theorem PreparedWrite.new_eq {user : UserEntity} {entry : Option EntryEntity}
    (h : PreparedWrite.new cfg user entry metadata = .ok prepared) :
    prepared = ⟨user, entry, writeDelta (entry.map EntryEntity.contentLength) metadata.length⟩ := by
  simp only [PreparedWrite.new] at h
  split at h
  · cases h
  · exact (Except.ok.inj h).symm

section

variable {F : Wld → Prop}

theorem prepareWrite_safe (hF : Frame C steady i F)
    (hctx : ∀ {w}, F w → Ctx C steady i e token w) (h : F w)
    (hd : During w.state i (Fresh i w.state)) :
    Safely cfg hC strict steady i (prepareWrite cfg access e token metadata) (fun _ => F)
      (fun prepared w => (F w ∧ Acquired i w) ∧ ∃ u existing, During w.state i
        (Base C i e u [] [] [] w.state ∧
          Prepared C i e token access metadata u existing prepared w.state)) w := by
  have hE : ∀ (_ : OpendalError) w w', Rely steady i w w' → Inv C steady w' → F w → F w' :=
    fun _ _ _ hr _ => hF.rely hr
  have hA := hF.and_acquired
  refine SafeX.seq hE (lockUser_safe hF (fun hf => (hctx hf).user) (fun _ _ hf _ => hf) h hd) fun user w₁ _ hw₁ => ?_
  obtain ⟨h₁, u, hd₁⟩ := hw₁
  have hreads : Fact C steady i e u fun _ => Reads u user := Fact.pure _
  have hheld : Fact C steady i e u (HoldsToken C i e token) := HoldsToken.fact
  have hfree : Fact C steady i e u fun s => access = .app → Free u e.path.asStr s := Free.fact
  refine SafeX.seq hE (SafeX.mono (hold_safe hA hreads h₁ hd₁) (fun _ _ _ hf => hf.1)
    fun _ _ _ hq => hq) fun _ w₂ _ hw₂ => ?_
  refine SafeX.seq hE (SafeX.mono (onlyApp_collision_safe hA (hreads.and hheld) hw₂.1 hw₂.2)
    (fun _ _ _ hf => hf.1) fun _ _ _ hq => hq) fun _ w₃ _ hw₃ => ?_
  refine SafeX.seq hE (SafeX.mono (findEntry_safe hA ((hreads.and hheld).and hfree) hw₃.1
    (hw₃.2.mono fun hk => ⟨hk.1, hk.2.1, hk.2.2⟩)) (fun _ _ _ hf => hf.1)
    fun _ _ _ hq => hq) fun entry w₄ _ hw₄ => ?_
  obtain ⟨h₄, existing, hd₄⟩ := hw₄
  refine SafeX.check (fun prepared hnew w' hr _ => ⟨hA.rely hr h₄, u, existing, ?_⟩)
    fun _ _ w' hr _ => hF.rely hr h₄.1
  refine During.rely (Base.stable Prepared.fact) hr (hd₄.mono ?_)
  rintro ⟨hb, ⟨⟨hu, ht⟩, hfr⟩, hfi, hen⟩
  obtain rfl := PreparedWrite.new_eq hnew
  exact ⟨hb, hu, hen, by rw [hen.2], ht, hfr, hfi⟩

/-- What the statements of `apply_write_effects` have found out. -/
structure Applied (C : StorageCrates) (i : ℕ) (e : EntryPath) (token : Option Text)
    (access : Access) (metadata : FileMetadata) (u : UserRow) (existing : Option EntryRow)
    (newId : ℕ) (s : State) : Prop where
  held : HoldsToken C i e token s
  free : access = .app → Free u e.path.asStr s
  finds : Finds u e.path.asStr existing s
  entryId : existing = none → s.entryIds[newId]? = some (u.id, e.path.asStr)
  fits : metadata.length.toNat < 2 ^ 63

/-- What a transaction that finalizes a write has written. -/
def Written (C : StorageCrates) (i : ℕ) (e : EntryPath) (token : Option Text) (access : Access)
    (metadata : FileMetadata) (s : State) : Prop :=
  ∃ u existing newId eventId,
    Base C i e u [.put { u with usedBytes := usedAfterWrite u.usedBytes existing metadata }]
      [.put (entryAfterWrite existing newId u.id e.path.asStr metadata)]
      [.put ((EventType.put metadata.hash).toRow eventId u.id e.path.asStr)] s ∧
    Applied C i e token access metadata u existing newId s

theorem Applied.fact {newId : ℕ} :
    Fact C steady i e u (Applied C i e token access metadata u existing newId) := by
  have hheld : Fact C steady i e u (HoldsToken C i e token) := HoldsToken.fact
  have hfree : Fact C steady i e u fun s => access = .app → Free u e.path.asStr s := Free.fact
  have hfinds : Fact C steady i e u (Finds u e.path.asStr existing) := Finds.fact
  have hid : Fact C steady i e u fun s =>
    existing = none → s.entryIds[newId]? = some (u.id, e.path.asStr) := Fact.imp _ entryId_fact
  exact
    { carried := fun hc ho h => ⟨hheld.carried hc ho h.held, hfree.carried hc ho h.free,
        hfinds.carried hc ho h.finds, hid.carried hc ho h.entryId, h.fits⟩
      own := fun hr h => ⟨hheld.own hr h.held, hfree.own hr h.free, hfinds.own hr h.finds,
        hid.own hr h.entryId, h.fits⟩ }

theorem Written.stable : Stable steady i (Written C i e token access metadata) := by
  rintro s s' hc ⟨u, existing, newId, eventId, h⟩
  exact ⟨u, existing, newId, eventId, Base.stable Applied.fact s s' hc h⟩

theorem applyWriteEffects_safe (hF : Frame C steady i F)
    (hctx : ∀ {w}, F w → Ctx C steady i e token w) (h : F w)
    (hd : During w.state i (Base C i e u [] [] [] w.state ∧
      Prepared C i e token access metadata u existing prepared w.state ∧
      Stored C steady e w.state)) :
    Safely cfg hC strict steady i (applyWriteEffects e prepared metadata) (fun _ => F)
      (fun _ w => F w ∧ During w.state i (Written C i e token access metadata w.state)) w := by
  have hE : ∀ (_ : OpendalError) w w', Rely steady i w w' → Inv C steady w' → F w → F w' :=
    fun _ _ _ hr _ => hF.rely hr
  have hP : Fact C steady i e u fun s =>
      Prepared C i e token access metadata u existing prepared s ∧ Stored C steady e s :=
    Prepared.fact.and (Stored.fact hC)
  have hfinds : ∀ {s}, Prepared C i e token access metadata u existing prepared s ∧
      Stored C steady e s → Finds u e.path.asStr existing s := fun hx => hx.1.finds
  refine SafeX.seq hE (writeEntry_safe hF hP hctx hfinds (fun hx => hx.1.entry) (fun hx => hx.1.user) (fun hx => hx.2) h hd) fun _ w₁ _ hw₁ => ?_
  obtain ⟨h₁, newId, hd₁⟩ := hw₁
  have hY : Fact C steady i e u fun s =>
      (Prepared C i e token access metadata u existing prepared s ∧ Stored C steady e s) ∧
        (existing = none → s.entryIds[newId]? = some (u.id, e.path.asStr)) ∧
          metadata.length.toNat < 2 ^ 63 :=
    hP.and ((Fact.imp _ entryId_fact).and (Fact.pure _))
  refine SafeX.seq hE (createEvent_safe hF hY hctx (fun hx => hx.1.1.user.id) h₁ hd₁)
    fun _ w₂ _ hw₂ => ?_
  obtain ⟨h₂, eventId, hd₂⟩ := hw₂
  refine SafeX.seq hE (updateUser_safe hF hY (fun hf => (hctx hf).scope)
    (fun hx => hx.1.1.user.id) h₂ hd₂)
    fun _ w₃ _ hw₃ => SafeX.pure fun w' hr _ => ?_
  refine ⟨hF.rely hr hw₃.1, During.rely Written.stable hr (hw₃.2.mono ?_)⟩
  rintro ⟨hb, ⟨⟨hp, -⟩, hid, hfits⟩, -⟩
  refine ⟨u, existing, newId, eventId, ?_, hp.held, hp.free, hp.finds, hid, hfits⟩
  rw [hp.user.disabled, hp.user.usedBytes, hp.delta] at hb
  exact hb

/-- A finalized write is a change of the ledger. -/
theorem Written.change (hi : Inv C steady w) (hfile : e.path.isFile = true)
    (hstrict : strict → access = .app) (h : Written C i e token access metadata w.state) :
    Change strict w.state.ledger (w.state.ledgerOf i) := by
  obtain ⟨u, existing, newId, eventId, hb, ha⟩ := h
  have hledger : w.state.ledgerOf i =
      ⟨Write.apply w.state.users.rows
          (.put { u with usedBytes := usedAfterWrite u.usedBytes existing metadata }),
        Write.apply w.state.entries.rows
          (.put (entryAfterWrite existing newId u.id e.path.asStr metadata)),
        Write.apply w.state.events.rows
          (.put ((EventType.put metadata.hash).toRow eventId u.id e.path.asStr))⟩ := by
    simp only [State.ledgerOf, Table.view, hb.users, hb.entries, hb.events]
    rfl
  rw [hledger]
  refine .write u hb.mem e.path hfile metadata ha.fits existing ha.finds.mem ha.finds.none
    newId (fun hnone r hr hid => ?_) eventId ?_ fun hs => ha.free (hstrict hs)
  · -- an entry with the new id would be one of this file
    have hrow := hi.entries.rows r hr
    rw [hid, ha.entryId hnone] at hrow
    obtain ⟨huser, hpath⟩ := Prod.mk.inj (Option.some.inj hrow)
    exact ha.finds.none hnone r hr huser.symm hpath.symm
  · have hmem : .put ((EventType.put metadata.hash).toRow eventId u.id e.path.asStr) ∈
        w.state.events.writesOf i := by
      rw [hb.events]
      exact List.mem_singleton_self _
    obtain ⟨-, ev, _, heq, -, hlt, -⟩ := hi.events.writes i _ hmem
    obtain rfl := Write.put.inj heq
    exact hlt

theorem writeInTransaction_safe {content : Bytes} (hF : Frame C steady i F)
    (hctx : ∀ {w}, F w → Ctx C steady i e token w) (h : F w)
    (hd : During w.state i (Fresh i w.state)) :
    Safely cfg hC strict steady i (writeInTransaction cfg C access e token content metadata)
      (fun _ => F)
      (fun _ w => F w ∧ During w.state i (Written C i e token access metadata w.state)) w := by
  have hE : ∀ (_ : WriteFailure) w w', Rely steady i w w' → Inv C steady w' → F w → F w' :=
    fun _ _ _ hr _ => hF.rely hr
  refine SafeX.seq hE (SafeX.mapErr (prepareWrite_safe hF hctx h hd)) fun prepared w₁ _ hw₁ => ?_
  obtain ⟨h₁, u, existing, hd₁⟩ := hw₁
  have hA := hF.and_acquired
  have hP : Fact C steady i e u (Prepared C i e token access metadata u existing prepared) :=
    Prepared.fact
  refine SafeX.seq hE (SafeX.mapErr (SafeX.mono (generationUnderLock_safe hA (Base.stable hP) h₁
    hd₁) (fun _ _ _ hf => hf.1) fun _ _ _ hq => hq)) fun generation w₂ _ hw₂ => ?_
  refine SafeX.seq hE (SafeX.mapErr (SafeX.mono (closeWriter_safe hA.and_fenced hP
    (fun hf => hctx hf.1.1) (fun hf => hf.1.2) (fun hf => hf.2) hw₂.1 hw₂.2)
    (fun _ _ _ hf => hf.1.1) fun _ _ _ hq => hq)) fun _ w₃ _ hw₃ => ?_
  exact SafeX.mapErr (applyWriteEffects_safe hF hctx hw₃.1.1.1 hw₃.2)

theorem finalizeWrite_safe {content : Bytes} (hF : Outer C steady i F)
    (hctx : ∀ {w}, F w → Ctx C steady i e token w)
    (hfile : e.path.isFile = true) (hstrict : strict → access = .app) (h : F w)
    (hout : Outside w.state i) :
    Safely cfg hC strict steady i (finalizeWrite cfg C access e token content metadata)
      (fun _ w => F w ∧ Outside w.state i) (fun _ w => F w ∧ Outside w.state i) w := by
  refine transaction_safe (K := fun _ => Written C i e token access metadata) hF
    (fun _ => Written.stable) (fun w hf hd => ?_) (fun _ w hi hf _ _ hk => ?_) h hout
  · exact SafeX.mono (writeInTransaction_safe hF.toFrame hctx hf hd) (fun _ _ _ hf => hf)
      fun _ _ _ hw => ⟨hw.1, fun _ => hw.2⟩
  · have hheld : HoldsToken C i e token w.state := by
      obtain ⟨_, _, _, _, -, ha⟩ := hk
      exact ha.held
    exact ⟨hk.change hi hfile hstrict, (hctx hf).holdsLock hheld⟩

/-! ### Uploads -/

theorem resolveQuota_uses {key : PublicKey} : (resolveQuota key).run.Uses Op.Plain := by
  refine uses_bind (uses_always (Prog.uses_perform.2 trivial)) fun cached => ?_
  cases cached with
  | some quota => exact uses_pure _
  | none =>
    refine uses_bind (uses_always (Prog.uses_perform.2 trivial)) fun _ => ?_
    refine uses_bind (uses_attempt (uses_stmt (Prog.uses_perform.2 trivial))) fun r => ?_
    rcases r with err | user
    · cases err with
      | rowNotFound => exact uses_bind (uses_always (Prog.uses_perform.2 trivial)) fun _ => uses_pure _
      | decode => exact uses_throw _
      | database => exact uses_throw _
    · exact uses_bind (uses_always (Prog.uses_perform.2 trivial)) fun _ => uses_pure _

theorem checkWritePathAllowed_uses : (checkWritePathAllowed e).run.Uses Op.Plain := by
  refine uses_bind (uses_mapErr resolveQuota_uses) fun quota => ?_
  cases quota with
  | none => exact uses_pure _
  | some quota => exact uses_check

theorem onlyApp_uses {p : Proc ε Unit} (hp : p.run.Uses Op.Plain) :
    (access.onlyApp p).run.Uses Op.Plain := by
  cases access with
  | app => exact hp
  | admin => exact uses_pure _

theorem collisionPreflight_uses : (collisionPreflight access e).run.Uses Op.Plain :=
  onlyApp_uses (uses_bind (uses_stmt (Prog.uses_perform.2 trivial)) fun _ => uses_check)

theorem writeChecks_uses : (writeChecks access e).run.Uses Op.Plain :=
  uses_bind (onlyApp_uses checkWritePathAllowed_uses) fun _ => collisionPreflight_uses

theorem unlessChecked_uses {checked : Bool} {p : Proc ε Unit} (hp : p.run.Uses Op.Plain) :
    (unlessChecked checked p).run.Uses Op.Plain := by
  cases checked with
  | true => exact uses_pure _
  | false => exact hp

theorem writeChunks_uses {checked : Bool} {builder : FileMetadataBuilder}
    {chunks : List (Option Bytes)} :
    (writeChunks C access e checked builder chunks).run.Uses Op.Plain := by
  induction chunks generalizing checked builder with
  | nil => exact uses_pure _
  | cons chunk chunks ih =>
    cases chunk with
    | none => exact uses_throw _
    | some chunk =>
      refine uses_bind (unlessChecked_uses (uses_mapErr writeChecks_uses)) fun _ => ?_
      exact uses_bind (uses_mapErr (uses_stmt (Prog.uses_perform.2 trivial))) fun _ => ih

/-- A program that issues plain operations only, outside of transactions. -/
theorem plain_outside_safe {p : Proc ε α} (hF : Frame C steady i F)
    (hp : p.run.Uses Op.Plain) (h : F w) (hout : Outside w.state i) :
    Safely cfg hC strict steady i p (fun _ w => F w ∧ Outside w.state i)
      (fun _ w => F w ∧ Outside w.state i) w :=
  plain_safe hF outside_settled hp h hout

theorem Frame.rely_outside (hF : Frame C steady i F) (hr : Rely steady i w w')
    (h : F w ∧ Outside w.state i) : F w' ∧ Outside w'.state i :=
  ⟨hF.rely hr h.1, h.2.rely hr⟩

theorem closeFinalization_safe {builder : FileMetadataBuilder} (hF : Outer C steady i F)
    (hctx : ∀ {w}, F w → Ctx C steady i e token w)
    (hfile : e.path.isFile = true) (hstrict : strict → access = .app) (h : F w)
    (hout : Outside w.state i) :
    Safely cfg hC strict steady i (closeFinalization cfg C access e token builder)
      (fun _ w => F w ∧ Outside w.state i) (fun _ w => F w ∧ Outside w.state i) w := by
  refine SafeX.seq (fun _ _ _ hr _ => hF.rely_outside hr)
    (SafeX.attempt (finalizeWrite_safe hF hctx hfile hstrict h hout)) fun r w₁ _ hw₁ => ?_
  rcases r with (err | err) | _
  · refine SafeX.seq (fun _ _ _ hr _ => hF.rely_outside hr)
      (plain_outside_safe hF.toFrame discardUpload_uses hw₁.1 hw₁.2) fun _ w₂ _ hw₂ => ?_
    exact SafeX.throw fun w' hr _ => hF.rely_outside hr hw₂
  · exact SafeX.throw fun w' hr _ => hF.rely_outside hr hw₁
  · exact SafeX.pure fun w' hr _ => hF.rely_outside hr hw₁

theorem isFile_of_parseOpendal {key : Text} (hparse : parseOpendal C key = .ok e)
    (hkey : (!Text.endsWith '/' key) = true) : e.path.isFile = true := by
  rw [StoragePath.isFile, StoragePath.isDirectory,
    EntryPath.endsWith_of_fromStr (ok_of_mapError hparse)]
  exact hkey

/-- An upload from its first chunk to its end. -/
theorem writeStream_safe {key : Text} {chunks : List (Option Bytes)} (hF : Outer C steady i F)
    (hctx : ∀ {w}, F w → ∀ e, parseOpendal C (C.normalizePath key) = .ok e →
      Ctx C steady i e token w)
    (hstrict : strict → access = .app) (h : F w) (hout : Outside w.state i) :
    Safely cfg hC strict steady i (writeStream cfg C access token key chunks)
      (fun _ w => F w ∧ Outside w.state i) (fun _ w => F w ∧ Outside w.state i) w := by
  have hE : ∀ (_ : FileIoError) w w', Rely steady i w w' → Inv C steady w' →
      F w ∧ Outside w.state i → F w' ∧ Outside w'.state i := fun _ _ _ hr _ => hF.rely_outside hr
  have hdiscard : ∀ (err : FileIoError) w, F w ∧ Outside w.state i → Safely cfg hC strict steady i
      (do discardUpload; throw err : Proc FileIoError Unit) (fun _ w => F w ∧ Outside w.state i)
      (fun _ w => F w ∧ Outside w.state i) w := by
    intro err w hw
    refine SafeX.seq hE (plain_outside_safe hF.toFrame discardUpload_uses hw.1 hw.2)
      fun _ w₁ _ hw₁ => SafeX.throw fun w' hr _ => hF.rely_outside hr hw₁
  refine SafeX.seq hE (require_safe (fun hr hA => hF.rely_outside hr hA) ⟨h, hout⟩)
    fun _ w₁ _ hw₁ => ?_
  obtain ⟨hkey, hw₁⟩ := hw₁
  refine SafeX.seq hE (SafeX.check (Q := fun e w => (parseOpendal C (C.normalizePath key) = .ok e) ∧
    F w ∧ Outside w.state i) (fun e he w' hr _ => ⟨he, hF.rely_outside hr hw₁⟩)
    fun _ _ w' hr _ => hF.rely_outside hr hw₁) fun e w₂ _ hw₂ => ?_
  obtain ⟨hparse, hw₂⟩ := hw₂
  refine SafeX.seq hE (SafeX.attempt (plain_outside_safe hF.toFrame writeChunks_uses hw₂.1 hw₂.2))
    fun r w₃ _ hw₃ => ?_
  rcases r with err | ⟨checked, builder⟩
  · exact hdiscard err w₃ hw₃
  · refine SafeX.seq hE (SafeX.attempt (plain_outside_safe hF.toFrame
      (unlessChecked_uses writeChecks_uses) hw₃.1 hw₃.2)) fun r w₄ _ hw₄ => ?_
    rcases r with err | _
    · exact hdiscard _ w₄ hw₄
    · exact SafeX.mapErr (closeFinalization_safe hF (fun hf => hctx hf e hparse)
        (isFile_of_parseOpendal hparse hkey) hstrict hw₄.1 hw₄.2)

end

end Pubky.Homeserver.Storage

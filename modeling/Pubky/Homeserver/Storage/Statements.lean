import Pubky.Homeserver.Storage.Rules

/-!
# The statements of a finalization

What a transaction that holds the row of a user knows, and how each statement of a finalization
adds to it:

* `Base`: the row that the transaction holds, and what it has written so far,
* facts about the user's entries, the held write lock and the published blob, which nobody else
  can change while the row is held (`Fact`).
-/

namespace Pubky.Homeserver.Storage

open Sql Conc Conc.Proc Conc.Logic

variable {cfg : Config} {C : StorageCrates} {hC : C.Lawful} {strict steady : Prop} {i j : ℕ}
  {w w' : Wld} {s s' : State} {o : Op} {c : Choice} {ε α β : Type} {e : EntryPath}
  {token : Option Text} {u : UserRow}

/-! ## The context of a finalization -/

/-- What call `i` knows about the file `e` that it finalizes under a token. -/
structure Ctx (C : StorageCrates) (steady : Prop) (i : ℕ) (e : EntryPath) (token : Option Text)
    (w : Wld) : Prop where
  scope : InScope C w.hist i e
  unlocked : Unlocked C w.hist w.state.unlocked i
  /-- A request that presents tokens finalizes its file under one of them. -/
  covers : ∀ r, .call i (.request r) ∈ w.hist → r.IsWrite → r.tokens ≠ [] →
    r.target C = .ok e ∧ ∃ t ∈ r.tokens, token = some t
  user : steady → ∃ r ∈ w.state.users.rows, r.publicKey = C.z32 e.pubkey

theorem Unlocked.mono {hist hist' : Hist} {unlocked unlocked' : List (ℕ × Text)}
    (h : Unlocked C hist unlocked i) (hcalls : ∀ c, .call i c ∈ hist' → .call i c ∈ hist)
    (hu : ∀ x ∈ unlocked, x ∈ unlocked') : Unlocked C hist' unlocked' i := by
  intro r hr hw ht
  obtain ⟨e, he, hmem⟩ := h r (hcalls _ hr) hw ht
  exact ⟨e, he, hu _ hmem⟩

theorem exists_user_mono {k : Text} (hg : Grows s s') (h : ∃ r ∈ s.users.rows, r.publicKey = k) :
    ∃ r ∈ s'.users.rows, r.publicKey = k := by
  obtain ⟨r, hr, hk⟩ := h
  obtain ⟨r', hr', hk'⟩ := hg.users r hr
  exact ⟨r', hr', hk'.trans hk⟩

theorem Ctx.outer : Outer C steady i (Ctx C steady i e token) where
  rely := fun hr h =>
    { scope := h.scope.mono hr.hist
      unlocked := h.unlocked.mono hr.calls hr.grows.unlocked
      covers := fun r hmem => h.covers r (hr.calls _ hmem)
      user := fun hs => exists_user_mono hr.grows (h.user hs) }
  own := fun hg _ h => { h with
    unlocked := h.unlocked.mono (fun _ hc => hc) hg.unlocked
    user := fun hs => exists_user_mono hg (h.user hs) }
  unlocked := fun h => h.unlocked
  grows := fun hg h => { h with
    unlocked := h.unlocked.mono (fun _ hc => hc) hg.unlocked
    user := fun hs => exists_user_mono hg (h.user hs) }

/-- The transaction of call `i` has locked a user row. -/
def Acquired (i : ℕ) (w : Wld) : Prop :=
  ∀ n a, ⟨i, n, a⟩ ∈ w.state.txs → .acquired n ∈ w.state.journal

/-- Objects published after the end of call `i`'s transaction have other generations than the
one it expects. -/
def Fenced (i : ℕ) (generation : Option ExpectedGeneration) (w : Wld) : Prop :=
  ∀ n a, ⟨i, n, a⟩ ∈ w.state.txs → ∀ g, generation = some (.known g) →
    Old w.state.blobs w.state.nextGeneration w.state.journal n g

theorem Frame.and_acquired {F : Wld → Prop} (hF : Frame C steady i F) :
    Frame C steady i fun w => F w ∧ Acquired i w where
  rely := by
    intro w w' hr h
    refine ⟨hF.rely hr h.1, fun n a ha => ?_⟩
    obtain ⟨b, hb⟩ := (hr.txs n).1 ⟨a, ha⟩
    exact hr.grows.journal n (h.2 n b hb)
  own := fun hg ht h => ⟨hF.own hg ht h.1, fun n a ha => hg.journal n (h.2 n a (ht ▸ ha))⟩
  unlocked := fun h => hF.unlocked h.1

theorem Frame.and_fenced {F : Wld → Prop} {generation : Option ExpectedGeneration}
    (hF : Frame C steady i F) : Frame C steady i fun w => F w ∧ Fenced i generation w where
  rely := by
    intro w w' hr h
    refine ⟨hF.rely hr h.1, fun n a ha g hg => ?_⟩
    obtain ⟨b, hb⟩ := (hr.txs n).1 ⟨a, ha⟩
    exact hr.grows.old n g (h.2 n b hb g hg)
  own := fun hg ht h => ⟨hF.own hg ht h.1, fun n a ha g hgen =>
    hg.old n g (h.2 n a (ht ▸ ha) g hgen)⟩
  unlocked := fun h => hF.unlocked h.1

/-! ## What a transaction knows -/

/-- Call `i` holds the row `u` of the user who owns `e`. -/
structure OwnsRow (C : StorageCrates) (i : ℕ) (e : EntryPath) (u : UserRow) (s : State) :
    Prop where
  mem : u ∈ s.users.rows
  key : u.publicKey = C.z32 e.pubkey
  id : s.userIds[u.id]? = some (C.z32 e.pubkey)
  lock : (i, C.z32 e.pubkey) ∈ s.users.locks

/-- The row that the transaction holds, and what it has written. -/
structure Base (C : StorageCrates) (i : ℕ) (e : EntryPath) (u : UserRow)
    (us : List (Write UserRow Text)) (es : List (Write EntryRow ℕ))
    (evs : List (Write EventRow ℕ)) (s : State) : Prop
    extends Wrote i us es evs s, OwnsRow C i e u s

theorem OwnsRow.stable : Stable steady i (OwnsRow C i e u) := by
  intro s s' hc h
  have hlock : (i, u.publicKey) ∈ s.users.locks := h.key ▸ h.lock
  exact ⟨(hc.same.userRows u hlock).2 h.mem, h.key, getElem?_of_extends hc.grows.userIds h.id,
    hc.same.locks _ h.lock⟩

/-- What the own statements of a transaction leave alone. -/
structure Retains (i : ℕ) (s s' : State) : Prop where
  users : s'.users.rows = s.users.rows
  userIds : s'.userIds = s.userIds
  locks : ∀ l ∈ s.users.locks, l ∈ s'.users.locks
  entries : s'.entries.rows = s.entries.rows
  held : ∀ h ∈ s.held, h ∈ s'.held
  blobs : ∀ b ∈ s.blobs, ∃ b' ∈ s'.blobs, b'.key = b.key
  eventLock : s.eventLock = some i → s'.eventLock = some i
  entryIds : s.entryIds <+: s'.entryIds

theorem Retains.refl (i : ℕ) (s : State) : Retains i s s :=
  ⟨rfl, rfl, fun _ h => h, rfl, fun _ h => h, fun b hb => ⟨b, hb, rfl⟩, fun h => h,
    List.prefix_refl _⟩

/-- Statements on the tables. -/
def Op.OnTables : Op → Prop
  | .begin | .commit | .rollback | .send _ | .copyBlob _ _ | .renameBlob _ _ => False
  | _ => True

theorem Op.OnTables.isStatement (h : o.OnTables) : o.IsStatement := by
  cases o with
  | begin | commit | rollback | send | copyBlob | renameBlob => exact h.elim
  | _ => trivial

theorem effect_retains (ho : o.OnTables) (h : Effect cfg C i s o s') : Retains i s s' := by
  have hrefl := Retains.refl i s
  cases h with
  | begin | commit | late | carriedOut | copyBlob | renameBlob => exact ho.elim
  | rollback o ho' => rcases ho' with rfl | rfl <;> exact ho.elim
  | lockUser => exact { hrefl with locks := fun l hl => List.mem_cons_of_mem _ hl }
  | writeUser => exact { hrefl with locks := fun l hl => List.mem_cons_of_mem _ hl }
  | drawEntryId => exact { hrefl with entryIds := List.prefix_append _ _ }
  | createEntry => exact { hrefl with entryIds := List.prefix_append _ _ }
  | lockEvents => exact { hrefl with eventLock := fun _ => rfl }
  | holdLock => exact { hrefl with held := fun h hh => List.mem_cons_of_mem _ hh }
  | same => exact hrefl
  | updateEntry => exact { hrefl with }
  | deleteEntry => exact { hrefl with }
  | insertEvent => exact { hrefl with }
  | noLock => exact { hrefl with }
  | acquireLock => exact { hrefl with }
  | deleteExpiredLocks => exact { hrefl with }
  | takeLock => exact { hrefl with }
  | extendLock => exact { hrefl with }
  | releaseLock => exact { hrefl with }
  | quotaCache => exact { hrefl with }
  | spawnKeepAlive => exact { hrefl with }
  | stopKeepAlive => exact { hrefl with }

/-- Statements that write rows. -/
def Op.WritesRows : Op → Prop
  | .updateUser _ | .setQuota _ _ | .createEntry _ _ _ | .updateEntry _ _ | .deleteEntry _
  | .insertEvent _ _ _ | .extendLock _ _ _ _ _ => True
  | _ => False

theorem effect_wrote {us : List (Write UserRow Text)} {es : List (Write EntryRow ℕ)}
    {evs : List (Write EventRow ℕ)} (ho : o.OnTables) (hn : ¬ o.WritesRows)
    (h : Effect cfg C i s o s') (hw : Wrote i us es evs s) : Wrote i us es evs s' := by
  cases h with
  | begin | commit | late | carriedOut | copyBlob | renameBlob => exact ho.elim
  | rollback o ho' => rcases ho' with rfl | rfl <;> exact ho.elim
  | writeUser o userId f ho' =>
    cases o with
    | updateUser user => exact absurd trivial hn
    | setQuota userId quota => exact absurd trivial hn
    | _ => cases ho'
  | drawEntryId | createEntry | updateEntry | deleteEntry | insertEvent | extendLock =>
    exact absurd trivial hn
  | same => exact hw
  | _ => exact { hw with }

theorem OwnsRow.retained (h : OwnsRow C i e u s) (hr : Retains i s s') : OwnsRow C i e u s' :=
  ⟨hr.users ▸ h.mem, h.key, hr.userIds ▸ h.id, hr.locks _ h.lock⟩

/-- A fact that holds as long as the transaction holds the row of the user. -/
structure Fact (C : StorageCrates) (steady : Prop) (i : ℕ) (e : EntryPath) (u : UserRow)
    (X : State → Prop) : Prop where
  carried : ∀ {s s'}, Carries steady i s s' → OwnsRow C i e u s → X s → X s'
  own : ∀ {s s'}, Retains i s s' → X s → X s'

theorem Fact.and {X Y : State → Prop} (hX : Fact C steady i e u X) (hY : Fact C steady i e u Y) :
    Fact C steady i e u fun s => X s ∧ Y s where
  carried := fun hc ho h => ⟨hX.carried hc ho h.1, hY.carried hc ho h.2⟩
  own := fun hr h => ⟨hX.own hr h.1, hY.own hr h.2⟩

theorem Fact.pure (P : Prop) : Fact C steady i e u fun _ => P where
  carried := fun _ _ h => h
  own := fun _ h => h

theorem Base.stable {us : List (Write UserRow Text)} {es : List (Write EntryRow ℕ)}
    {evs : List (Write EventRow ℕ)} {X : State → Prop} (hX : Fact C steady i e u X) :
    Stable steady i fun s => Base C i e u us es evs s ∧ X s := by
  rintro s s' hc ⟨hb, hx⟩
  exact ⟨⟨Wrote.stable s s' hc hb.toWrote, OwnsRow.stable s s' hc hb.toOwnsRow⟩,
    hX.carried hc hb.toOwnsRow hx⟩

theorem During.exists {P : α → Prop} [hα : Nonempty α] (h : During s i (∃ a, P a)) :
    ∃ a, During s i (P a) := by
  rcases h with hl | ⟨ha, a, hp⟩
  · exact hα.elim fun a => ⟨a, .inl hl⟩
  · exact ⟨a, .inr ⟨ha, hp⟩⟩

section

variable {F : Wld → Prop} {X : State → Prop} {Y : α → State → Prop}
  {us : List (Write UserRow Text)} {es : List (Write EntryRow ℕ)} {evs : List (Write EventRow ℕ)}
  {us' : List (Write UserRow Text)} {es' : List (Write EntryRow ℕ)}
  {evs' : List (Write EventRow ℕ)} {f : SqlError → ε}
  {p : Prog Op Op.Res (Except SqlError α)} {g : o.Res → Except SqlError α}

/-- A statement of a transaction that holds the row of the user; what it writes may depend on
something that is found out on the way. -/
theorem stmt_base_exists {ι : Type} [Nonempty ι] {es' : ι → List (Write EntryRow ℕ)}
    {evs' : ι → List (Write EventRow ℕ)} {Y : α → ι → State → Prop} (hF : Frame C steady i F)
    (hX : Fact C steady i e u X) (hY : ∀ a x, Fact C steady i e u (Y a x))
    (hp : p = .op o fun r => .ret (g r)) (ho : o.OnTables)
    (hlost : ∀ {s c r s'}, s.lost i = true → exec cfg C i o c s = some (r, s') →
      g r = .error .database)
    (hpre : ∀ w, Inv C steady w → F w → Base C i e u us es evs w.state → X w.state →
      w.state.alive i = true → OpPre cfg C strict steady i w o)
    (hpreLost : ∀ w, w.state.lost i = true → OpPre cfg C strict steady i w o)
    (hpost : ∀ w c r s' a, Inv C steady w → F w → w.state.alive i = true →
      Base C i e u us es evs w.state → X w.state → exec cfg C i o c w.state = some (r, s') →
      g r = .ok a → ∃ x, Wrote i us' (es' x) (evs' x) s' ∧ Y a x s')
    (h : F w) (hd : During w.state i (Base C i e u us es evs w.state ∧ X w.state)) :
    Safely cfg hC strict steady i (stmt f p) (fun _ => F)
      (fun a w => F w ∧ ∃ x, During w.state i
        (Base C i e u us' (es' x) (evs' x) w.state ∧ X w.state ∧ Y a x w.state)) w := by
  refine SafeX.mono (stmt_during (fun r s => ∀ a, r = .ok a →
    ∃ x, Base C i e u us' (es' x) (evs' x) s ∧ X s ∧ Y a x s) hF (Base.stable hX)
    (fun r s s' hc hk a ha => ?_) hp ho.isStatement hlost (fun w hi hf hd' => ?_)
    (fun w c r s' hi hf ha hk hx _ a hg => ?_) h hd) (fun _ _ _ hf => hf)
    fun a w _ hw => ⟨hw.1, (hw.2.mono fun hk => hk a rfl).exists⟩
  · obtain ⟨x, hx⟩ := hk a ha
    exact ⟨x, Base.stable (hX.and (hY a x)) s s' hc hx⟩
  · rcases hd' with hl | ⟨ha, hb, hx⟩
    · exact hpreLost w hl
    · exact hpre w hi hf hb hx ha
  · obtain ⟨hb, hX'⟩ := hk
    obtain ⟨x, hwrote, hy⟩ := hpost w c r s' a hi hf ha hb hX' hx hg
    have hr := effect_retains ho (exec_effect hx)
    exact ⟨x, ⟨hwrote, hb.toOwnsRow.retained hr⟩, hX.own hr hX', hy⟩

/-- A statement of a transaction that holds the row of the user. -/
theorem stmt_base (hF : Frame C steady i F) (hX : Fact C steady i e u X)
    (hY : ∀ a, Fact C steady i e u (Y a)) (hp : p = .op o fun r => .ret (g r)) (ho : o.OnTables)
    (hlost : ∀ {s c r s'}, s.lost i = true → exec cfg C i o c s = some (r, s') →
      g r = .error .database)
    (hpre : ∀ w, Inv C steady w → F w → Base C i e u us es evs w.state → X w.state →
      w.state.alive i = true → OpPre cfg C strict steady i w o)
    (hpreLost : ∀ w, w.state.lost i = true → OpPre cfg C strict steady i w o)
    (hpost : ∀ w c r s' a, Inv C steady w → F w → w.state.alive i = true →
      Base C i e u us es evs w.state → X w.state → exec cfg C i o c w.state = some (r, s') →
      g r = .ok a → Wrote i us' es' evs' s' ∧ Y a s')
    (h : F w) (hd : During w.state i (Base C i e u us es evs w.state ∧ X w.state)) :
    Safely cfg hC strict steady i (stmt f p) (fun _ => F)
      (fun a w => F w ∧ During w.state i
        (Base C i e u us' es' evs' w.state ∧ X w.state ∧ Y a w.state)) w := by
  have hstmt : Safely cfg hC strict steady i (stmt f p) (fun _ => F)
      (fun a w => F w ∧ ∃ _ : Unit, During w.state i
        (Base C i e u us' es' evs' w.state ∧ X w.state ∧ Y a w.state)) w :=
    stmt_base_exists (Y := fun a _ => Y a) hF hX (fun a _ => hY a) hp ho hlost hpre hpreLost
      (fun w c r s' a hi hf ha hb hx hexec hg => ⟨(), hpost w c r s' a hi hf ha hb hx hexec hg⟩)
      h hd
  exact SafeX.mono hstmt (fun _ _ _ hf => hf) fun a w _ ⟨hf, _, hd⟩ => ⟨hf, hd⟩

end

/-! ## Facts -/

/-- The transaction holds the write lock of its file under its token. -/
def HoldsToken (C : StorageCrates) (i : ℕ) (e : EntryPath) (token : Option Text) (s : State) :
    Prop :=
  ∀ t, token = some t → ∃ h ∈ s.held, h.thread = i ∧ h.key = e.asStr C ∧ h.token = t

/-- No entry of the user collides with the path. -/
def Free (u : UserRow) (path : Text) (s : State) : Prop :=
  ∀ r ∈ s.entries.rows, r.user = u.id → collides path r.path = false

/-- The entry of the user at the path. -/
structure Finds (u : UserRow) (path : Text) (existing : Option EntryRow) (s : State) : Prop where
  mem : ∀ r, existing = some r → r ∈ s.entries.rows ∧ r.user = u.id ∧ r.path = path
  none : existing = none → ∀ r ∈ s.entries.rows, r.user = u.id → r.path ≠ path

/-- In a steady run the blob of the file is there. -/
def Stored (C : StorageCrates) (steady : Prop) (e : EntryPath) (s : State) : Prop :=
  steady → ∃ b ∈ s.blobs, b.key = e.asStr C

/-- The entries of a user change only under the row of the user. -/
theorem OwnsRow.entries_iff (h : OwnsRow C i e u s) (hc : Carries steady i s s') {r : EntryRow}
    (hr : r.user = u.id) : r ∈ s'.entries.rows ↔ r ∈ s.entries.rows :=
  hc.same.entryRows r _ h.lock (hr ▸ h.id)

theorem HoldsToken.fact : Fact C steady i e u (HoldsToken C i e token) where
  carried := by
    intro s s' hc _ h t ht
    obtain ⟨x, hx, hth, hrest⟩ := h t ht
    exact ⟨x, hc.same.held x hx hth, hth, hrest⟩
  own := by
    intro s s' hr h t ht
    obtain ⟨x, hx, hrest⟩ := h t ht
    exact ⟨x, hr.held x hx, hrest⟩

theorem Free.fact {P : Prop} {path : Text} :
    Fact C steady i e u fun s => P → Free u path s where
  carried := fun hc ho h hp r hr hu => h hp r ((ho.entries_iff hc hu).1 hr) hu
  own := fun hr h hp r hr' => h hp r (hr.entries ▸ hr')

theorem Finds.fact {path : Text} {existing : Option EntryRow} :
    Fact C steady i e u (Finds u path existing) where
  carried := fun hc ho h =>
    { mem := fun r hr => ⟨(ho.entries_iff hc (h.mem r hr).2.1).2 (h.mem r hr).1, (h.mem r hr).2⟩
      none := fun hn r hr hu => h.none hn r ((ho.entries_iff hc hu).1 hr) hu }
  own := fun hr h =>
    { mem := fun r hx => hr.entries ▸ h.mem r hx
      none := fun hn r hx => h.none hn r (hr.entries ▸ hx) }

theorem Stored.fact (hC : C.Lawful) : Fact C steady i e u (Stored C steady e) where
  carried := by
    intro s s' hc ho h hs
    obtain ⟨b, hb, hk⟩ := h hs
    have huser : b.OfUser (C.z32 e.pubkey) := Blob.ofUser_of_key hk
    exact ⟨b, (hc.same.blobs hs b _ (hC.slash_not_mem_z32 _) ho.lock huser).2 hb, hk⟩
  own := by
    intro s s' hr h hs
    obtain ⟨b, hb, hk⟩ := h hs
    obtain ⟨b', hb', hk'⟩ := hr.blobs b hb
    exact ⟨b', hb', hk'.trans hk⟩

theorem eventLock_fact : Fact C steady i e u fun s => s.eventLock = some i where
  carried := fun hc _ h => (hc.same.eventLock h).1
  own := fun hr h => hr.eventLock h

theorem entryId_fact {id : ℕ} {x : ℕ × Text} :
    Fact C steady i e u fun s => s.entryIds[id]? = some x where
  carried := fun hc _ h => getElem?_of_extends hc.grows.entryIds h
  own := fun hr h => getElem?_of_extends hr.entryIds h

/-! ## Reading users and entries -/

/-- What a transaction has read of a user's row. -/
structure Reads (u : UserRow) (user : UserEntity) : Prop where
  id : user.id = u.id
  disabled : user.disabled = u.disabled
  usedBytes : user.usedBytes = u.usedBytes

theorem reads_of_decode {user : UserEntity} (h : u.decode C.toCrates = .ok user) :
    Reads u user := by
  obtain ⟨key, -, h⟩ := Except.bind_ok_iff.1 h
  cases h
  exact ⟨rfl, rfl, rfl⟩

/-- The key of a user's row can be read. -/
theorem decode_ok (hC : C.Lawful) {key : PublicKey} (hkey : u.publicKey = C.z32 key) :
    ∃ user, u.decode C.toCrates = .ok user := by
  rw [UserRow.decode, hkey, hC.fromZ32_z32]
  exact ⟨_, rfl⟩

instance : Nonempty UserRow := ⟨⟨0, [], false, 0, ⟨.default, none⟩⟩⟩

/-- The lock on a user's row. -/
theorem lockUser_eq {key : PublicKey} {r : Except SqlError UserEntity}
    (hw : s.users.writesOf i = []) (h : s.lockUser C i key = some (r, s')) :
    (r = .error .rowNotFound ∧ s' = s ∧ lookup s.users.rows (C.z32 key) = none) ∨
      ∃ u ∈ s.users.rows, u.publicKey = C.z32 key ∧ r = u.decode C.toCrates ∧
        s' = { s with
          users := s.users.lock i (C.z32 key)
          journal := (s.txs.filter fun t => t.thread = i).map (Mark.acquired ·.number) ++
            s.journal } := by
  simp only [State.lockUser, Table.selectForUpdate, Table.view_of_writesOf_eq_nil hw] at h
  cases hrow : lookup s.users.rows (C.z32 key) with
  | none =>
    simp only [hrow] at h
    cases h
    exact .inl ⟨rfl, rfl, rfl⟩
  | some row =>
    simp only [hrow] at h
    obtain ⟨hmem, hkey⟩ := lookup_eq_some hrow
    cases hb : s.users.blocked i (C.z32 key) with
    | true => simp [hb] at h
    | false =>
      simp only [hb] at h
      cases h
      exact .inr ⟨row, hmem, hkey, rfl, rfl⟩

section

variable {F : Wld → Prop} {f : SqlError → ε}

/-- Locking the row of a user, who exists if `known`. -/
theorem lockUser_safe {E : ε → Wld → Prop} {known : Prop} (hF : Frame C steady i F)
    (huser : ∀ {w}, F w → known → ∃ r ∈ w.state.users.rows, r.publicKey = C.z32 e.pubkey)
    (herr : ∀ err w, F w → (err = .rowNotFound →
      During w.state i (Wrote i [] [] [] w.state ∧ ¬ known)) → E (f err) w)
    (h : F w) (hd : During w.state i (Fresh i w.state)) :
    Safely cfg hC strict steady i (stmt f (perform (.lockUser e.pubkey))) E
      (fun user w => (F w ∧ Acquired i w) ∧ ∃ u, During w.state i
        (Base C i e u [] [] [] w.state ∧ Reads u user)) w := by
  refine stmt_during_frame (o := .lockUser e.pubkey) (g := fun r => r)
    (fun r w => match r with | .ok _ => F w ∧ Acquired i w | .error _ => F w)
    (fun r s => match r with
      | .ok user => ∃ u, Base C i e u [] [] [] s ∧ Reads u user
      | .error err => Wrote i [] [] [] s ∧ (err = .rowNotFound → ¬ known))
    hF (fun r => ?_) Fresh.stable (fun r => ?_) rfl trivial answer_lost ?_ ?_ ?_ ?_ h hd
  · cases r with
    | ok user => exact hF.and_acquired
    | error err => exact hF
  · cases r with
    | ok user =>
      rintro s s' hc ⟨u, hu⟩
      exact ⟨u, Base.stable (Fact.pure (Reads u user)) s s' hc hu⟩
    | error err =>
      rintro s s' hc ⟨hw, hs⟩
      exact ⟨Wrote.stable s s' hc hw, hs⟩
  · intro w hi hf hd
    exact hd.mono Fresh.acquired
  · intro w c r s' hi hf hf' ha hk hx hne
    obtain ⟨-, hx⟩ := answer_eq hne hx
    rcases lockUser_eq hk.users hx with ⟨rfl, rfl, hnone⟩ | ⟨u, hu, hkey, hr, hs'⟩
    · refine ⟨hf, hk.toWrote, fun _ hs => ?_⟩
      obtain ⟨row, hrow, hrk⟩ := huser hf hs
      exact lookup_eq_none.1 hnone row hrow hrk
    · subst hs'
      have hwrote : Wrote i [] [] [] { w.state with
          users := w.state.users.lock i (C.z32 e.pubkey)
          journal := (w.state.txs.filter fun t => t.thread = i).map (Mark.acquired ·.number) ++
            w.state.journal } := { hk.toWrote with }
      cases r with
      | error err =>
        obtain ⟨user, huser⟩ := decode_ok hC hkey
        cases hr.trans huser
      | ok user =>
        refine ⟨⟨hf', fun n a hn => ?_⟩, u, ⟨hwrote, ⟨hu, hkey, ?_, List.mem_cons_self⟩⟩,
          reads_of_decode hr.symm⟩
        · exact List.mem_append_left _ (List.mem_map.2
            ⟨_, List.mem_filter.2 ⟨hn, by simp⟩, rfl⟩)
        · exact hkey ▸ hi.users.rows u hu
  · intro user w hi hf hd
    exact ⟨hf, hd.exists⟩
  · rintro err w hi (⟨rfl, hf⟩ | ⟨hf, hd⟩)
    · exact herr _ w hf nofun
    · exact herr _ w hf fun heq => hd.mono fun hk => ⟨hk.1, hk.2 heq⟩

end

/-! ## Checks -/

theorem Fact.imp {X : State → Prop} (P : Prop) (hX : Fact C steady i e u X) :
    Fact C steady i e u fun s => P → X s where
  carried := fun hc ho h hp => hX.carried hc ho (h hp)
  own := fun hr h hp => hX.own hr (h hp)

theorem Frame.and_clock {F : Wld → Prop} {now : ℤ} (hF : Frame C steady i F) :
    Frame C steady i fun w => F w ∧ now ≤ w.state.clock where
  rely := fun hr h => ⟨hF.rely hr h.1, Int.le_trans h.2 hr.grows.clock⟩
  own := fun hg ht h => ⟨hF.own hg ht h.1, Int.le_trans h.2 hg.clock⟩
  unlocked := fun h => hF.unlocked h.1

theorem require_safe {A : Wld → Prop} {b : Bool} {err : ε}
    (hA : ∀ {w w'}, Rely steady i w w' → A w → A w') (h : A w) :
    Safely cfg hC strict steady i (require b err) (fun _ => A) (fun _ w => b = true ∧ A w) w := by
  refine SafeX.check (fun _ hb w' hr _ => ⟨?_, hA hr h⟩) fun _ _ w' hr _ => hA hr h
  cases b with
  | true => rfl
  | false => cases hb

section

variable {F : Wld → Prop}

/-- Reading the clock. -/
theorem timestamp_safe {X : State → Prop} {E : ε → Wld → Prop} (hF : Frame C steady i F)
    (hX : Settled steady i X) (h : F w) (hx : X w.state) :
    Safely cfg hC strict steady i (always (perform .statementTimestamp)) E
      (fun (now : ℤ) w => (F w ∧ now ≤ w.state.clock) ∧ X w.state) w := by
  refine SafeX.always (o := Op.statementTimestamp) (g := fun r => r) rfl fun w₁ hr₁ hi₁ => ?_
  have h₁ := hF.rely hr₁ h
  refine ⟨⟨.inr (hF.unlocked h₁), trivial⟩, fun c r s _ hx' w₂ hr₂ _ => ?_⟩
  cases hx'
  exact ⟨hF.and_clock.rely hr₂ ⟨h₁, Int.le_refl _⟩, hX.rely hr₂ (hX.rely hr₁ hx)⟩

/-- The lock that `holdLock` finds. -/
theorem holdLock_eq {path : EntryPath} {t : Text} {now : ℤ}
    (h : s.holdLock C i path t now = some (.ok true, s')) :
    ∃ row : EntryLockRow, row.path = path.asStr C ∧ row.token = t ∧ s' = { s with
      entryLocks := s.entryLocks.lock i (path.asStr C)
      held := ⟨i, path.asStr C, row.token, now, row.expiresAt⟩ :: s.held } := by
  simp only [State.holdLock] at h
  cases hrow : lookup (s.entryLocks.view i) (path.asStr C) with
  | none => simp [hrow] at h
  | some row =>
    simp only [hrow] at h
    have hkey : row.path = path.asStr C := (lookup_eq_some hrow).2
    split at h
    · cases h
    · split at h
      · rename_i hc
        cases h
        exact ⟨row, hkey, hc.1, by rw [hkey]⟩
      · cases (Prod.mk.inj (Option.some.inj h)).1

theorem hold_safe {X : State → Prop} (hF : Frame C steady i F) (hX : Fact C steady i e u X)
    (h : F w) (hd : During w.state i (Base C i e u [] [] [] w.state ∧ X w.state)) :
    Safely cfg hC strict steady i (hold e token) (fun _ => F)
      (fun _ w => F w ∧ During w.state i
        (Base C i e u [] [] [] w.state ∧ X w.state ∧ HoldsToken C i e token w.state)) w := by
  cases token with
  | none =>
    refine SafeX.pure fun w' hr _ => ⟨hF.rely hr h, ?_⟩
    exact (hd.rely (Base.stable hX) hr).mono fun ⟨hb, hx⟩ => ⟨hb, hx, nofun⟩
  | some t =>
    have hE : ∀ (_ : OpendalError) w w', Rely steady i w w' → Inv C steady w' → F w → F w' :=
      fun _ _ _ hr _ => hF.rely hr
    refine SafeX.seq hE (timestamp_safe hF (during_settled (Base.stable hX)) h hd)
      fun (now : ℤ) w₁ _ hw₁ => ?_
    obtain ⟨h₁, hd₁⟩ := hw₁
    have hstmt : Safely cfg hC strict steady i (sql (perform (.holdLock e t now)))
        (fun _ w => F w ∧ now ≤ w.state.clock)
        (fun b w => (F w ∧ now ≤ w.state.clock) ∧ During w.state i (Base C i e u [] [] [] w.state ∧
          X w.state ∧ (b = true → HoldsToken C i e (some t) w.state))) w₁ := by
      refine stmt_base (o := .holdLock e t now) (g := fun r => r)
        (Y := fun b s => b = true → HoldsToken C i e (some t) s) hF.and_clock hX
        (fun b => Fact.imp _ HoldsToken.fact) rfl trivial answer_lost
        (fun w _ hf hb _ ha => .inr ⟨ha, hf.2, hb.entryLocks⟩) (fun w hl => .inl hl) ?_ h₁ hd₁
      intro w c r s' b hi hf ha hb hx hexec hr
      refine ⟨effect_wrote (o := .holdLock e t now) trivial id (exec_effect hexec) hb.toWrote,
        fun hb t' ht' => ?_⟩
      subst hr hb
      obtain ⟨-, hexec⟩ := answer_eq (by simp) hexec
      obtain ⟨row, hkey, htoken, rfl⟩ := holdLock_eq hexec
      cases ht'
      exact ⟨_, List.mem_cons_self, rfl, rfl, htoken⟩
    refine SafeX.seq hE (SafeX.mono hstmt (fun _ _ _ hf => hf.1) fun _ _ _ hq => hq)
      fun b w₂ _ hw₂ => ?_
    refine SafeX.mono (require_safe (A := fun w => F w ∧ During w.state i
      (Base C i e u [] [] [] w.state ∧ X w.state ∧ (b = true → HoldsToken C i e (some t) w.state)))
      (fun hr hA => ⟨hF.rely hr hA.1, hA.2.rely (Base.stable (hX.and
        (Fact.imp _ HoldsToken.fact))) hr⟩) ⟨hw₂.1.1, hw₂.2⟩) (fun _ _ _ hA => hA.1) ?_
    rintro - w₃ - ⟨hb, hf, hd⟩
    exact ⟨hf, hd.mono fun ⟨hbase, hx, ht⟩ => ⟨hbase, hx, ht hb⟩⟩

end

/-! ### Entries -/

/-- The id of the user whose row is held. -/
theorem Base.userIdOf (h : Base C i e u [] [] [] s) (hunique : UniqueKeys s.users.rows) :
    s.userIdOf C i e.pubkey = some u.id := by
  rw [State.userIdOf, Table.view_of_writesOf_eq_nil h.users, ← h.key, ← key_userRow,
    hunique.lookup h.mem]
  rfl

section

variable {F : Wld → Prop} {X : State → Prop}

theorem checkNoPathCollision_safe (hF : Frame C steady i F) (hX : Fact C steady i e u X)
    (h : F w) (hd : During w.state i (Base C i e u [] [] [] w.state ∧ X w.state)) :
    Safely cfg hC strict steady i (checkNoPathCollision e) (fun _ => F)
      (fun _ w => F w ∧ During w.state i
        (Base C i e u [] [] [] w.state ∧ X w.state ∧ Free u e.path.asStr w.state)) w := by
  have hfree : ∀ b : Bool, Fact C steady i e u fun s => b = false → Free u e.path.asStr s :=
    fun b => Free.fact
  have hstmt : Safely cfg hC strict steady i (sql (perform (.hasCollision e))) (fun _ => F)
      (fun b w => F w ∧ During w.state i (Base C i e u [] [] [] w.state ∧ X w.state ∧
        (b = false → Free u e.path.asStr w.state))) w := by
    refine stmt_base (o := .hasCollision e) (g := fun r => r) hF hX hfree rfl trivial
      answer_lost (fun _ _ _ _ _ _ => trivial) (fun _ _ => trivial) ?_ h hd
    intro w c r s' b hi hf ha hb hx hexec hr
    refine ⟨effect_wrote (o := .hasCollision e) trivial id (exec_effect hexec) hb.toWrote, ?_⟩
    subst hr
    obtain ⟨-, heq, rfl⟩ := reads_eq (by simp) hexec
    rintro rfl r hr hu
    have hnone := Except.ok.inj heq
    rw [State.hasCollision, hb.userIdOf hi.users.unique,
      Table.view_of_writesOf_eq_nil hb.entries, Option.any_some, List.any_eq_false] at hnone
    simpa [hu] using hnone r hr
  refine SafeX.seq (fun _ _ _ hr _ => hF.rely hr) hstmt fun b w₁ _ hw₁ => ?_
  refine SafeX.mono (require_safe (A := fun w => F w ∧ During w.state i
    (Base C i e u [] [] [] w.state ∧ X w.state ∧ (b = false → Free u e.path.asStr w.state)))
    (fun hr hA => ⟨hF.rely hr hA.1, hA.2.rely (Base.stable (hX.and (hfree b))) hr⟩) hw₁)
    (fun _ _ _ hA => hA.1) ?_
  rintro - w₂ - ⟨hb, hf, hd⟩
  exact ⟨hf, hd.mono fun ⟨hbase, hx, hfree⟩ => ⟨hbase, hx, hfree (by simpa using hb)⟩⟩

/-- The check that only the operator of the client server makes. -/
theorem onlyApp_collision_safe {access : Access} (hF : Frame C steady i F)
    (hX : Fact C steady i e u X) (h : F w)
    (hd : During w.state i (Base C i e u [] [] [] w.state ∧ X w.state)) :
    Safely cfg hC strict steady i (access.onlyApp (checkNoPathCollision e)) (fun _ => F)
      (fun _ w => F w ∧ During w.state i (Base C i e u [] [] [] w.state ∧ X w.state ∧
        (access = .app → Free u e.path.asStr w.state))) w := by
  cases access with
  | app =>
    refine SafeX.mono (checkNoPathCollision_safe hF hX h hd) (fun _ _ _ hf => hf) ?_
    exact fun _ w _ hw => ⟨hw.1, hw.2.mono fun ⟨hb, hx, hfree⟩ => ⟨hb, hx, fun _ => hfree⟩⟩
  | admin =>
    refine SafeX.pure fun w' hr _ => ⟨hF.rely hr h, ?_⟩
    exact (hd.rely (Base.stable hX) hr).mono fun ⟨hb, hx⟩ => ⟨hb, hx, nofun⟩

/-- What a transaction has read of an entry. -/
def ReadsEntry (existing : Option EntryRow) (entry : Option EntryEntity) : Prop :=
  entry.map EntryEntity.id = existing.map EntryRow.id ∧
    entry.map EntryEntity.contentLength = existing.map EntryRow.contentLength

theorem decode_ne_rowNotFound {r : EntryRow} {k : Text} :
    r.decode C.toCrates k ≠ .error .rowNotFound := by
  intro h
  rw [EntryRow.decode] at h
  cases hkey : PublicKey.tryFrom C.toCrates k with
  | none =>
    rw [hkey] at h
    cases h
  | some key =>
    cases hpath : StoragePath.new r.path with
    | error err =>
      rw [hkey, hpath] at h
      cases h
    | ok path =>
      rw [hkey, hpath] at h
      by_cases hlen : r.contentHash.length = 32
      · simp [decodedOption, decoded, bind, Except.bind, hlen, pure, Except.pure] at h
      · simp [decodedOption, decoded, bind, Except.bind, hlen] at h

/-- What `getEntry` finds under the row of the user. -/
theorem getEntry_eq (h : Base C i e u [] [] [] s) (hunique : UniqueKeys s.users.rows)
    {r : Except SqlError EntryEntity} (hr : s.getEntry C i e = r) :
    (r = .error .rowNotFound → Finds u e.path.asStr none s) ∧
      ∀ entry, r = .ok entry → ∃ row, Finds u e.path.asStr (some row) s ∧
        ReadsEntry (some row) (some entry) := by
  rw [State.getEntry, h.userIdOf hunique, Table.view_of_writesOf_eq_nil h.entries] at hr
  simp only [found, bind, Except.bind] at hr
  cases hfind : s.entries.rows.find? fun r => r.user = u.id ∧ r.path = e.path.asStr with
  | none =>
    simp only [hfind] at hr
    subst hr
    refine ⟨fun _ => ⟨fun _ h => (by cases h), fun _ r hr hu hp => ?_⟩, fun _ h => (by cases h)⟩
    simpa [hu, hp] using List.find?_eq_none.1 hfind r hr
  | some row =>
    simp only [hfind] at hr
    have hrow : row.user = u.id ∧ row.path = e.path.asStr := by
      simpa using List.find?_some hfind
    have hfinds : Finds u e.path.asStr (some row) s := by
      refine ⟨fun r hr => ?_, fun h => by cases h⟩
      cases hr
      exact ⟨List.mem_of_find?_eq_some hfind, hrow⟩
    subst hr
    constructor
    · exact fun herr => absurd herr decode_ne_rowNotFound
    · intro entry hentry
      obtain ⟨key, -, hentry⟩ := Except.bind_ok_iff.1 hentry
      obtain ⟨path, -, hentry⟩ := Except.bind_ok_iff.1 hentry
      split at hentry
      · cases hentry
        exact ⟨row, hfinds, rfl, rfl⟩
      · cases hentry

/-- The entry of the user at the path, if there is one. -/
theorem findEntry_safe (hF : Frame C steady i F) (hX : Fact C steady i e u X) (h : F w)
    (hd : During w.state i (Base C i e u [] [] [] w.state ∧ X w.state)) :
    Safely cfg hC strict steady i (findEntry e) (fun _ => F)
      (fun entry w => F w ∧ ∃ existing, During w.state i (Base C i e u [] [] [] w.state ∧
        X w.state ∧ Finds u e.path.asStr existing w.state ∧ ReadsEntry existing entry)) w := by
  have hfact : ∀ existing entry, Fact C steady i e u fun s =>
      Finds u e.path.asStr existing s ∧ ReadsEntry existing entry :=
    fun _ _ => Finds.fact.and (Fact.pure _)
  have hpure : ∀ (entry : Option EntryEntity) w, F w → (∃ existing, During w.state i
      (Base C i e u [] [] [] w.state ∧ X w.state ∧ Finds u e.path.asStr existing w.state ∧
        ReadsEntry existing entry)) → Safely cfg hC strict steady i
      (pure entry : Proc OpendalError (Option EntryEntity)) (fun _ => F)
      (fun entry w => F w ∧ ∃ existing, During w.state i (Base C i e u [] [] [] w.state ∧
        X w.state ∧ Finds u e.path.asStr existing w.state ∧ ReadsEntry existing entry)) w := by
    rintro entry w hf ⟨existing, hd⟩
    exact SafeX.pure fun w' hr _ => ⟨hF.rely hr hf, existing,
      hd.rely (Base.stable (hX.and (hfact existing entry))) hr⟩
  have hstmt : Safely cfg hC strict steady i
      (stmt id (perform (.getEntry e)) : Proc SqlError EntryEntity)
      (fun err w => F w ∧ (err = .rowNotFound → ∃ existing, During w.state i
        (Base C i e u [] [] [] w.state ∧ X w.state ∧ Finds u e.path.asStr existing w.state ∧
          ReadsEntry existing none)))
      (fun entry w => F w ∧ ∃ existing, During w.state i (Base C i e u [] [] [] w.state ∧
        X w.state ∧ Finds u e.path.asStr existing w.state ∧ ReadsEntry existing (some entry))) w := by
    refine stmt_during_frame (o := .getEntry e) (g := fun r => r) (fun _ => F)
      (fun r s => ∀ entry, (r = .error .rowNotFound ∧ entry = none ∨
        ∃ x, r = .ok x ∧ entry = some x) → ∃ existing, Base C i e u [] [] [] s ∧ X s ∧
          Finds u e.path.asStr existing s ∧ ReadsEntry existing entry)
      hF (fun _ => hF) (Base.stable hX) (fun r s s' hc hk entry hr => ?_) rfl trivial answer_lost
      (fun _ _ _ _ => trivial) ?_ ?_ ?_ h hd
    · obtain ⟨existing, hex⟩ := hk entry hr
      exact ⟨existing, Base.stable (hX.and (hfact existing entry)) s s' hc hex⟩
    · rintro w c r s' hi hf hf' ha ⟨hb, hx⟩ hexec hne
      obtain ⟨-, heq, rfl⟩ := reads_eq hne hexec
      obtain ⟨hnone, hsome⟩ := getEntry_eq hb hi.users.unique heq
      refine ⟨hf', ?_⟩
      rintro entry (⟨hr, rfl⟩ | ⟨x, hr, rfl⟩)
      · exact ⟨none, hb, hx, hnone hr, rfl, rfl⟩
      · obtain ⟨row, hfinds, hreads⟩ := hsome x hr
        exact ⟨some row, hb, hx, hfinds, hreads⟩
    · intro entry w _ hf hd
      exact ⟨hf, (hd.mono fun hk => hk (some entry) (.inr ⟨entry, rfl, rfl⟩)).exists⟩
    · rintro err w _ (⟨rfl, hf⟩ | ⟨hf, hd⟩)
      · exact ⟨hf, nofun⟩
      · exact ⟨hf, fun heq => (hd.mono fun hk => hk none (.inl ⟨congrArg Except.error heq, rfl⟩)).exists⟩
  refine SafeX.seq (fun _ _ _ hr _ => hF.rely hr) (SafeX.attempt hstmt) fun r w₁ _ hw₁ => ?_
  cases r with
  | ok entry => exact hpure (some entry) w₁ hw₁.1 hw₁.2
  | error err =>
    cases err with
    | rowNotFound => exact hpure none w₁ hw₁.1 (hw₁.2 rfl)
    | decode => exact SafeX.throw fun w' hr _ => hF.rely hr hw₁.1
    | database => exact SafeX.throw fun w' hr _ => hF.rely hr hw₁.1

end

/-! ## Generations -/

theorem Frame.and_below {F : Wld → Prop} {generation : Option ExpectedGeneration}
    (hF : Frame C steady i F) : Frame C steady i fun w => F w ∧
      ∀ g, generation = some (.known g) → g < w.state.nextGeneration where
  rely := fun hr h => ⟨hF.rely hr h.1, fun g hg =>
    Nat.lt_of_lt_of_le (h.2 g hg) hr.grows.nextGeneration⟩
  own := fun hg ht h => ⟨hF.own hg ht h.1, fun g hgen =>
    Nat.lt_of_lt_of_le (h.2 g hgen) hg.nextGeneration⟩
  unlocked := fun h => hF.unlocked h.1

/-- While the transaction is alive, everything that was published is older than its end. -/
theorem old_of_alive (hi : Inv C steady w) {n g : ℕ} (hn : ⟨i, n, true⟩ ∈ w.state.txs)
    (hg : g < w.state.nextGeneration) :
    Old w.state.blobs w.state.nextGeneration w.state.journal n g where
  lt := hg
  blobs := fun _ _ _ _ hacq => absurd hacq.ended_mem (hi.txs.notEnded _ hn rfl)

section

variable {F : Wld → Prop} {K : State → Prop}

theorem liveGeneration_safe {key : Text} (hF : Frame C steady i F) (hK : Stable steady i K)
    (h : F w) (hd : During w.state i (K w.state)) :
    Safely cfg hC strict steady i (liveGeneration key) (fun _ => F)
      (fun generation w => (F w ∧ ∀ g, generation = some (.known g) → g < w.state.nextGeneration) ∧
        During w.state i (K w.state)) w := by
  have hstmt : Safely cfg hC strict steady i (backend (perform (.stat key)))
      (fun _ w => F w ∧ During w.state i (K w.state))
      (fun version w => (F w ∧ ∀ g, version = some g → g < w.state.nextGeneration) ∧
        During w.state i (K w.state)) w := by
    refine SafeX.stmt (o := Op.stat key) (g := fun r => r) rfl fun w₁ hr₁ hi₁ => ?_
    have h₁ := hF.rely hr₁ h
    refine ⟨⟨.inr (hF.unlocked h₁), trivial⟩, fun c r s _ hx w₂ hr₂ _ => ?_⟩
    obtain rfl : s = w₁.state := (backendAnswer_eq_some hx).elim id id
    have hd₂ := (hd.rely hK hr₁).rely hK hr₂
    refine ⟨fun version hr => ⟨⟨hF.rely hr₂ h₁, fun g hg => ?_⟩, hd₂⟩,
      fun _ _ => ⟨hF.rely hr₂ h₁, hd₂⟩⟩
    refine Nat.lt_of_lt_of_le ?_ hr₂.grows.nextGeneration
    subst hr hg
    have hstat := congrArg Prod.fst (backendAnswer_eq_ok hx)
    simp only [State.stat] at hstat
    split at hstat
    · cases hstat
    · rename_i b hb
      split at hstat
      · cases hstat
      · obtain rfl := Option.some.inj (Except.ok.inj hstat)
        exact hi₁.store.generations b (List.mem_of_find?_eq_some hb)
  refine SafeX.seq (fun _ _ _ hr _ => hF.rely hr) (SafeX.attempt hstmt) fun r w₁ _ hw₁ => ?_
  cases r with
  | ok version =>
    refine SafeX.pure fun w' hr _ => ?_
    have hbelow : ∀ g, version.map ExpectedGeneration.known = some (.known g) →
        g < w₁.state.nextGeneration := by
      intro g hg
      obtain ⟨g', hv, heq⟩ := Option.map_eq_some_iff.1 hg
      exact hw₁.1.2 g (hv.trans (congrArg some (ExpectedGeneration.known.inj heq)))
    exact ⟨hF.and_below.rely hr ⟨hw₁.1.1, hbelow⟩, hw₁.2.rely hK hr⟩
  | error err =>
    show Safely cfg hC strict steady i (if err.kind = .notFound then _ else _) _ _ w₁
    by_cases hkind : err.kind = .notFound
    · rw [if_pos hkind]
      exact SafeX.pure fun w' hr _ => ⟨⟨hF.rely hr hw₁.1, nofun⟩, hw₁.2.rely hK hr⟩
    · rw [if_neg hkind]
      exact SafeX.throw fun w' hr _ => hF.rely hr hw₁.1

/-- The generation is read in the transaction, which is alive after that. -/
theorem generationUnderLock_safe (hF : Frame C steady i F) (hK : Stable steady i K) (h : F w)
    (hd : During w.state i (K w.state)) :
    Safely cfg hC strict steady i (generationUnderLock C e) (fun _ => F)
      (fun generation w => (F w ∧ Fenced i generation w) ∧ During w.state i (K w.state)) w := by
  have hE : ∀ (_ : OpendalError) w w', Rely steady i w w' → Inv C steady w' → F w → F w' :=
    fun _ _ _ hr _ => hF.rely hr
  refine SafeX.seq hE (liveGeneration_safe hF hK h hd) fun generation w₁ _ hw₁ => ?_
  have hping : Safely cfg hC strict steady i (sql (perform .ping)) (fun _ => F)
      (fun _ w => (F w ∧ Fenced i generation w) ∧ During w.state i (K w.state)) w₁ := by
    refine stmt_during_frame (o := .ping) (g := fun r => r)
      (fun r w => match r with | .ok _ => F w ∧ Fenced i generation w | .error _ => F w)
      (fun _ => K) hF.and_below (fun r => ?_) hK (fun _ => hK) rfl trivial answer_lost
      (fun _ _ _ _ => trivial) ?_ ?_ ?_ hw₁.1 hw₁.2
    · cases r with
      | ok _ => exact hF.and_fenced
      | error _ => exact hF
    · intro w c r s' hi hf hf' ha hk hexec hne
      obtain ⟨-, heq, rfl⟩ := reads_eq hne hexec
      subst heq
      refine ⟨⟨hf.1, fun n a hn g hg => ?_⟩, hk⟩
      obtain ⟨m, hm⟩ := State.alive_iff.1 ha
      cases List.inj_on_of_nodup_map hi.txs.threads hn hm rfl
      exact old_of_alive hi hm (hf.2 g hg)
    · exact fun _ w _ hf hd => ⟨hf, hd⟩
    · rintro err w _ (⟨-, hf⟩ | ⟨hf, -⟩)
      · exact hf.1
      · exact hf
  refine SafeX.seq hE hping fun _ w₂ _ hw₂ => ?_
  exact SafeX.pure fun w' hr _ => ⟨hF.and_fenced.rely hr hw₂.1, hw₂.2.rely hK hr⟩

end

/-! ## Requests to the backend -/

theorem During.tx {P : Prop} (h : During s i P) : ∃ n a, ⟨i, n, a⟩ ∈ s.txs := by
  rcases h with hl | ⟨ha, -⟩
  · obtain ⟨n, hn⟩ := State.lost_iff.1 hl
    exact ⟨n, false, hn⟩
  · obtain ⟨n, hn⟩ := State.alive_iff.1 ha
    exact ⟨n, true, hn⟩

theorem txNumber_eq {nextTx : ℕ} {journal : List Mark} (h : TxsOk s.txs nextTx journal) {n : ℕ}
    {a : Bool} (hn : ⟨i, n, a⟩ ∈ s.txs) : s.txNumber i = some n := by
  rw [State.txNumber, State.tx?]
  cases hfind : s.txs.find? fun t => t.thread = i with
  | none =>
    have := List.find?_eq_none.1 hfind _ hn
    simp at this
  | some t =>
    have hth : t.thread = i := by simpa using List.find?_some hfind
    have hmem := List.mem_of_find?_eq_some hfind
    have heq := List.inj_on_of_nodup_map h.threads hmem hn hth
    rw [heq]
    rfl

/-- In a steady run a transaction is never lost. -/
theorem During.of_steady {P : Prop} (hi : Inv C steady w) (hs : steady)
    (h : During w.state i P) : w.state.alive i = true ∧ P := by
  rcases h with hl | h
  · obtain ⟨n, hn⟩ := State.lost_iff.1 hl
    cases hi.live hs _ hn
  · exact h

section

variable {F : Wld → Prop} {K K' : State → Prop} {request : BackendRequest}
  {f : OpendalError → ε}

/-- A request to the backend for the file of the transaction. -/
theorem send_safe (hF : Frame C steady i F) (hK : Stable steady i K) (hK' : Stable steady i K')
    (hctx : ∀ {w}, F w → Ctx C steady i e token w) (hkey : request.key = e.asStr C)
    (hacq : ∀ {w}, F w → ∀ key content expected, request = .publish key content expected →
      Acquired i w)
    (hfence : ∀ {w}, F w → Fenced i request.expected w)
    (hcond : cfg.backend = .googleBucket → request.expected.isSome)
    (hsteady : ∀ w, Inv C steady w → steady → K w.state →
      (i, C.z32 e.pubkey) ∈ w.state.users.locks ∧ ∀ key expected, request = .remove key expected →
        w.state.entries.writesOf i = [] ∧ ∀ r ∈ w.state.entries.rows,
          w.state.userIds[r.user]? = some (C.z32 e.pubkey) → r.path ≠ e.path.asStr)
    (hpost : ∀ w c s', Inv C steady w → w.state.alive i = true → K w.state →
      exec cfg C i (.send request) c w.state = some (.ok (), s') → K' s')
    (h : F w) (hd : During w.state i (K w.state)) :
    Safely cfg hC strict steady i (stmt f (perform (.send request))) (fun _ => F)
      (fun _ w => F w ∧ During w.state i (K' w.state)) w := by
  refine SafeX.stmt (o := Op.send request) (g := fun r => r) rfl fun w₁ hr₁ hi₁ => ?_
  have h₁ := hF.rely hr₁ h
  have hd₁ := hd.rely hK hr₁
  have hpre : OpPre cfg C strict steady i w₁ (.send request) := by
    obtain ⟨n, a, hn⟩ := hd₁.tx
    refine ⟨⟨⟨e, hkey, (hctx h₁).scope⟩, n, txNumber_eq hi₁.txs hn,
      fun g hg => hfence h₁ n a hn g hg, fun key content expected hr =>
        hacq h₁ key content expected hr n a hn⟩, hcond, fun hs => ?_⟩
    obtain ⟨ha, hk⟩ := hd₁.of_steady hi₁ hs
    exact ⟨ha, e, hkey, hsteady w₁ hi₁ hs hk⟩
  refine ⟨⟨.inr (hF.unlocked h₁), hpre⟩, fun c r s _ hx w₂ hr₂ _ => ?_⟩
  have hx : exec cfg C i (.send request) c w₁.state = some (r, s) := hx
  have heff : Effect cfg C i w₁.state (.send request) s := exec_effect hx
  have htxs : s.txs = w₁.state.txs := effect_txs_eq (o := .send request) trivial heff
  have h₂ := hF.rely hr₂ (hF.own (effect_grows hi₁ hpre heff) htxs h₁)
  refine ⟨fun _ hr => ⟨h₂, ?_⟩, fun _ _ => h₂⟩
  refine During.rely (w := w₁.setState s) hK' hr₂ ?_
  rcases hd₁ with hl | ⟨ha, hk⟩
  · exact .inl ((lost_congr fun n a => by rw [World.setState_state, htxs]).trans hl)
  · refine .inr ⟨(alive_congr fun n a => by rw [World.setState_state, htxs]).trans ha, ?_⟩
    subst hr
    exact hpost w₁ c s hi₁ ha hk hx

end

/-- A publish that is confirmed has put the blob there, and leaves the rest alone. -/
theorem publish_ok {key : Text} {content : Bytes} {expected : Option ExpectedGeneration}
    (h : exec cfg C i (.send (.publish key content expected)) c s = some (.ok (), s')) :
    Retains i s s' ∧ (∃ b ∈ s'.blobs, b.key = key) ∧
      ∀ us es evs, Wrote i us es evs s → Wrote i us es evs s' := by
  have hcarry : (s.carryOut (s.txNumber i) (.publish key content expected)).1 = .ok () ∧
      s' = (s.carryOut (s.txNumber i) (.publish key content expected)).2.notePublished i
        (.publish key content expected) := by
    simp only [exec, State.send] at h
    cases c with
    | late kind =>
      cases hb : cfg.backend with
      | fileSystem => simp [hb] at h
      | googleBucket =>
        simp only [hb] at h
        cases (Prod.mk.inj (Option.some.inj h)).1
    | _ =>
      obtain ⟨hok, hs⟩ := Prod.mk.inj (backendAnswer_eq_ok h)
      refine ⟨hok, ?_⟩
      rw [← hs, hok]
  obtain ⟨hok, rfl⟩ := hcarry
  have hmeets : s.meets (BackendRequest.publish key content expected).key
      (BackendRequest.publish key content expected).expected = true := by
    by_contra hno
    rw [carryOut_of_not_meets (Bool.eq_false_iff.2 hno)] at hok
    cases hok
  have hblobs : (s.carryOut (s.txNumber i) (.publish key content expected)).2.blobs =
      (s.putBlob key content (s.txNumber i)).blobs := by
    unfold State.carryOut
    rw [if_pos hmeets]
  rw [carriedOut_eq, hblobs]
  refine ⟨{ Retains.refl i s with blobs := fun b hb => exists_blob_putBlob hb },
    ⟨_, mem_putBlob.2 (.inr rfl), rfl⟩, fun us es evs hw => { hw with }⟩

section

variable {F : Wld → Prop} {X : State → Prop} {us : List (Write UserRow Text)}
  {es : List (Write EntryRow ℕ)} {evs : List (Write EventRow ℕ)}

/-- Publishing the content of the file. -/
theorem publish_safe {content : Bytes} {expected : Option ExpectedGeneration}
    {f : OpendalError → ε} (hF : Frame C steady i F) (hX : Fact C steady i e u X)
    (hctx : ∀ {w}, F w → Ctx C steady i e token w) (hacq : ∀ {w}, F w → Acquired i w)
    (hfence : ∀ {w}, F w → Fenced i expected w)
    (hcond : cfg.backend = .googleBucket → expected.isSome) (h : F w)
    (hd : During w.state i (Base C i e u us es evs w.state ∧ X w.state)) :
    Safely cfg hC strict steady i
      (stmt f (perform (.send (.publish (e.asStr C) content expected)))) (fun _ => F)
      (fun _ w => F w ∧ During w.state i (Base C i e u us es evs w.state ∧ X w.state ∧
        Stored C steady e w.state)) w := by
  refine send_safe hF (Base.stable hX) (Base.stable (hX.and (Stored.fact hC))) hctx rfl
    (fun hf _ _ _ _ => hacq hf) hfence hcond
    (fun w _ _ hk => ⟨hk.1.lock, fun _ _ hr => by cases hr⟩) ?_ h hd
  rintro w c s' hi ha ⟨hb, hx⟩ hexec
  obtain ⟨hr, hstored, hwrote⟩ := publish_ok hexec
  exact ⟨⟨hwrote _ _ _ hb.toWrote, hb.toOwnsRow.retained hr⟩, hX.own hr hx, fun _ => hstored⟩

theorem plain_base_safe {p : Proc ε α} (hF : Frame C steady i F) (hX : Fact C steady i e u X)
    (hp : p.run.Uses Op.Plain) (h : F w)
    (hd : During w.state i (Base C i e u us es evs w.state ∧ X w.state)) :
    Safely cfg hC strict steady i p (fun _ => F)
      (fun _ w => F w ∧ During w.state i (Base C i e u us es evs w.state ∧ X w.state)) w :=
  SafeX.mono (plain_safe hF (during_settled (Base.stable hX)) hp h hd) (fun _ _ _ hw => hw.1)
    fun _ _ _ hw => hw

theorem discardUpload_uses : (discardUpload : Proc ε Unit).run.Uses Op.Plain :=
  uses_bind (uses_always (Prog.uses_perform.2 trivial)) fun _ => uses_pure _

theorem closeWriter_safe {content : Bytes} {generation : Option ExpectedGeneration}
    (hF : Frame C steady i F) (hX : Fact C steady i e u X)
    (hctx : ∀ {w}, F w → Ctx C steady i e token w) (hacq : ∀ {w}, F w → Acquired i w)
    (hfence : ∀ {w}, F w → Fenced i generation w) (h : F w)
    (hd : During w.state i (Base C i e u us es evs w.state ∧ X w.state)) :
    Safely cfg hC strict steady i (closeWriter cfg (e.asStr C) content generation) (fun _ => F)
      (fun _ w => F w ∧ During w.state i (Base C i e u us es evs w.state ∧ X w.state ∧
        Stored C steady e w.state)) w := by
  have hE : ∀ (_ : OpendalError) w w', Rely steady i w w' → Inv C steady w' → F w → F w' :=
    fun _ _ _ hr _ => hF.rely hr
  have hX' : Fact C steady i e u fun s => X s ∧ Stored C steady e s := hX.and (Stored.fact hC)
  unfold closeWriter
  cases hb : cfg.backend with
  | fileSystem =>
    exact publish_safe hF hX hctx hacq (fun _ _ _ _ _ hg => by cases hg) (by simp [hb]) h hd
  | googleBucket =>
    refine SafeX.seq hE (plain_base_safe hF hX (uses_stmt (Prog.uses_perform.2 trivial)) h hd)
      fun _ w₁ _ hw₁ => ?_
    cases generation with
    | none =>
      refine SafeX.seq hE (plain_base_safe hF hX discardUpload_uses hw₁.1 hw₁.2)
        fun _ w₂ _ hw₂ => SafeX.throw fun w' hr _ => hF.rely hr hw₂.1
    | some expected =>
      refine SafeX.seq hE (SafeX.attempt (publish_safe hF hX hctx hacq hfence (fun _ => rfl)
        hw₁.1 hw₁.2)) fun published w₂ _ hw₂ => ?_
      cases published with
      | ok _ =>
        refine SafeX.seq hE (plain_base_safe hF hX' discardUpload_uses hw₂.1 hw₂.2)
          fun _ w₃ _ hw₃ => ?_
        exact SafeX.check (fun _ _ w' hr _ => ⟨hF.rely hr hw₃.1, hw₃.2.rely (Base.stable hX') hr⟩)
          fun _ _ w' hr _ => hF.rely hr hw₃.1
      | error err =>
        refine SafeX.seq hE (SafeX.mono (plain_safe hF (X := fun _ => True) ⟨fun _ h => h,
          fun h => h⟩ discardUpload_uses hw₂ trivial) (fun _ _ _ hw => hw.1)
          fun _ _ _ hw => hw.1) fun _ w₃ _ hw₃ => ?_
        exact SafeX.check nofun fun _ _ w' hr _ => hF.rely hr hw₃

end

end Pubky.Homeserver.Storage

import Pubky.Homeserver.Storage.Sample

/-!
# Tenant isolation

A request to change files touches the rows and the blob of one file only: the one that its path
names, below `/pub/` or `/priv/`, of the user of its session, who has the capability to write it.

A request acts through the operations of its handler, through the rounds of the task that keeps
its write lock alive, and through backend requests that are carried out late (`actor`, `ActsFor`).
What a transition of any of them can change follows from the invariant: whatever a transaction has
written, and whatever is sent to the backend, is in the scope of its call.
-/

namespace Pubky.Homeserver.Storage

open Sql Conc Conc.Logic

variable {cfg : Config} {C : StorageCrates} {strict steady : Prop} {i j : ℕ} {o : Op}
  {p p' p₀ : Pl} {w : Wld} {s s' : State} {P : EntryPath → Prop} {r : Request}

/-! ## Changes -/

/-- Committed rows and blobs differ at files with the property `P` only, apart from expired locks
that are gone. -/
structure DiffersOnlyAt (C : StorageCrates) (P : EntryPath → Prop) (s s' : State) : Prop where
  entries : ∀ row : EntryRow, ¬ (row ∈ s'.entries.rows ↔ row ∈ s.entries.rows) →
    ∃ e, P e ∧ s.userIds[row.user]? = some (C.z32 e.pubkey) ∧ row.path = e.path.asStr
  blobs : ∀ b : Blob, ¬ (b ∈ s'.blobs ↔ b ∈ s.blobs) → ∃ e, P e ∧ b.key = e.asStr C
  events : ∀ ev : EventRow, ¬ (ev ∈ s'.events.rows ↔ ev ∈ s.events.rows) →
    ∃ e, P e ∧ s.userIds[ev.user]? = some (C.z32 e.pubkey) ∧ ev.path = e.path.asStr
  users : ∀ u : UserRow, ¬ (u ∈ s'.users.rows ↔ u ∈ s.users.rows) →
    ∃ e, P e ∧ u.publicKey = C.z32 e.pubkey
  locks : ∀ lock : EntryLockRow, ¬ (lock ∈ s'.entryLocks.rows ↔ lock ∈ s.entryLocks.rows) →
    (∃ e, P e ∧ lock.path = e.asStr C) ∨
      lock.expiresAt ≤ s.clock ∧ lock ∉ s'.entryLocks.rows

theorem DiffersOnlyAt.of_eq (hentries : s'.entries.rows = s.entries.rows)
    (hblobs : s'.blobs = s.blobs) (hevents : s'.events.rows = s.events.rows)
    (husers : s'.users.rows = s.users.rows) (hlocks : s'.entryLocks.rows = s.entryLocks.rows) :
    DiffersOnlyAt C P s s' where
  entries := fun row h => absurd (by rw [hentries]) h
  blobs := fun b h => absurd (by rw [hblobs]) h
  events := fun ev h => absurd (by rw [hevents]) h
  users := fun u h => absurd (by rw [husers]) h
  locks := fun lock h => absurd (by rw [hlocks]) h

/-- A row that a commit changes is one that the transaction has written. -/
theorem exists_write_of_differs {V K : Type} [Keyed V K] [DecidableEq K] {t : Table V K} {v : V}
    (h : ¬ (v ∈ t.view i ↔ v ∈ t.rows)) : ∃ wr ∈ t.writesOf i, wr.key = key v := by
  by_contra hno
  exact h (mem_foldl_of_untouched fun wr hwr hk => hno ⟨wr, hwr, hk⟩)

/-- A transaction commits what is in the scope of its call. -/
theorem commit_differs (hi : Inv C steady w) (hscope : ∀ e, InScope C w.hist i e → P e) :
    DiffersOnlyAt C P w.state (w.state.commit i) where
  entries := by
    intro row hrow
    obtain ⟨wr, hwr, hkey⟩ := exists_write_of_differs hrow
    obtain ⟨e, he, ⟨u, hid, hu⟩, -⟩ := hi.entries.owned i wr hwr
    have hrow : w.state.entryIds[row.id]? = some (row.user, row.path) := by
      by_cases hold : row ∈ w.state.entries.rows
      · exact hi.entries.rows row hold
      · exact hi.entries.view (by_contra fun hnew => hrow (iff_of_false hnew hold))
    rw [hkey, key_entryRow, hrow] at hid
    obtain ⟨rfl, hpath⟩ := Prod.mk.inj (Option.some.inj hid)
    exact ⟨e, hscope e he, hu, hpath⟩
  blobs := fun b h => absurd Iff.rfl h
  events := by
    intro ev hev
    obtain ⟨wr, hwr, hkey⟩ := exists_write_of_differs hev
    obtain ⟨-, ev', e, rfl, -, hnew, he, huser, hpath⟩ := hi.events.writes i wr hwr
    have hold : ev ∉ w.state.events.rows := fun hold =>
      absurd (hnew ev hold) (Nat.not_lt.2 (Nat.le_of_eq hkey))
    have hview : ev ∈ w.state.events.view i := by_contra fun hno => hev (iff_of_false hno hold)
    -- the event itself was written
    obtain ⟨-, ev'', e, heq, -, -, he, huser, hpath⟩ :=
      hi.events.writes i _ ((mem_or_put_of_mem_foldl hview).resolve_left hold)
    obtain rfl := Write.put.inj heq
    exact ⟨e, hscope e he, huser, hpath⟩
  users := by
    intro u hu
    obtain ⟨wr, hwr, hkey⟩ := exists_write_of_differs hu
    cases wr with
    | del k => exact absurd hwr (hi.users.noDel i k)
    | put u' =>
      obtain ⟨-, e, he, hk⟩ := hi.users.puts i u' hwr
      exact ⟨e, hscope e he, hkey.symm.trans hk⟩
  locks := by
    intro lock hlock
    obtain ⟨wr, hwr, hkey⟩ := exists_write_of_differs hlock
    cases wr with
    | del k => exact absurd hwr (hi.locks.noDel i k)
    | put lock' =>
      obtain ⟨-, e, he, hk⟩ := hi.locks.puts i lock' hwr
      exact .inl ⟨e, hscope e he, hkey.symm.trans hk⟩

theorem carryOut_differs {tx : Option ℕ} {request : BackendRequest} (hs : s'.entries = s.entries)
    (hblobs : s'.blobs = (s.carryOut tx request).2.blobs) (hevents : s'.events = s.events)
    (husers : s'.users = s.users) (hlocks : s'.entryLocks = s.entryLocks)
    (hscope : ∃ e, request.key = e.asStr C ∧ P e) : DiffersOnlyAt C P s s' :=
  have hrefl : DiffersOnlyAt C P s { s' with blobs := s.blobs } :=
    .of_eq (by rw [hs]) rfl (by rw [hevents]) (by rw [husers]) (by rw [hlocks])
  { hrefl with
    blobs := by
      intro b hb
      obtain ⟨e, hkey, he⟩ := hscope
      refine ⟨e, he, by_contra fun hne => hb ?_⟩
      rw [hblobs]
      exact mem_blobs_of_key_ne (hkey ▸ hne) }

/-- What an operation of a call changes is in the scope of the call, unless it is an operation on
a storage operator. -/
theorem effect_differs (hi : Inv C steady w) (hpre : OpPre cfg C strict steady i w o)
    (h : Effect cfg C i w.state o s') (hscope : ∀ e, InScope C w.hist i e → P e)
    (hcall : ∀ access operation, .call i (.operate access operation) ∉ w.hist) :
    DiffersOnlyAt C P w.state s' := by
  have hrefl : DiffersOnlyAt C P w.state w.state := .of_eq rfl rfl rfl rfl rfl
  cases h with
  | commit ha => exact commit_differs hi hscope
  | acquireLock path token lifetime now hl hb hold =>
    refine { hrefl with locks := fun lock hlock => .inl ⟨path, hscope path hpre.2.1, ?_⟩ }
    by_contra hne
    refine hlock (Write.mem_apply_put.trans ⟨?_, fun hmem => .inl ⟨hmem, hne⟩⟩)
    rintro (⟨hmem, -⟩ | rfl)
    · exact hmem
    · exact absurd rfl hne
  | releaseLock path token hl hb =>
    refine { hrefl with locks := fun lock hlock => .inl ⟨path, hscope path hpre.2, ?_⟩ }
    by_contra hne
    exact hlock (Write.mem_apply_del.trans (and_iff_left hne))
  | deleteExpiredLocks now hl hb =>
    refine { hrefl with locks := fun lock hlock => .inr ?_ }
    have hexpired : lock.expiresAt ≤ now := by
      by_contra hlive
      exact hlock (List.mem_filter.trans (and_iff_left (by simpa using hlive)))
    exact ⟨Int.le_trans hexpired hpre.2, by simp [hexpired]⟩
  | carriedOut request hmeets =>
    obtain ⟨e, hkey, he⟩ := hpre.ok.scope
    rw [carriedOut_eq]
    exact carryOut_differs rfl rfl rfl rfl rfl ⟨e, hkey, hscope e he⟩
  | copyBlob source target b hbackend hb =>
    obtain ⟨-, -, access, operation, hmem⟩ := hpre
    exact absurd hmem (hcall access operation)
  | renameBlob source target b hbackend hb =>
    obtain ⟨-, -, access, operation, hmem⟩ := hpre
    exact absurd hmem (hcall access operation)
  | _ => exact .of_eq rfl rfl rfl rfl rfl

/-! ## Requests -/

/-- The call that a transition belongs to. -/
def actor (s : State) : Lbl → Option ℕ
  | .call i _ | .op i _ _ | .ret i _ | .drop i => some i
  | .env (.land n) => (s.inFlight[n]?).map InFlight.thread
  | .env _ => none

/-- Call `j` acts for call `i`: it is that call, or a round of its keep-alive task. -/
def ActsFor (hist : Hist) (j i : ℕ) : Prop :=
  j = i ∨ ∃ path token, .call j (.keepAlive i path token) ∈ hist

section

variable (hw : w.Once) (hcall : .call i (.request r) ∈ w.hist) (hfor : ActsFor w.hist j i)
include hw hcall hfor

/-- What acts for a request is entitled to what the request is. -/
theorem ActsFor.entitles (hc : CallsOk C w.hist w.state.keepAlives) {e : EntryPath}
    (h : InScope C w.hist j e) : r.Entitles C e := by
  have hself : ∀ {e}, InScope C w.hist i e → r.Entitles C e := by
    rintro e ⟨c, hc, htouches⟩
    obtain rfl := hw i _ _ hcall hc
    exact htouches
  rcases hfor with rfl | ⟨path, token, hround⟩
  · exact hself h
  · obtain ⟨c, hmem, htouches⟩ := h
    obtain rfl := hw j _ _ hround hmem
    obtain rfl : e = path := htouches
    exact hself (hc.rounds j i e token hround)

theorem ActsFor.not_operates (access : Access) (operation : Operation) :
    .call j (.operate access operation) ∉ w.hist := by
  intro hmem
  rcases hfor with rfl | ⟨path, token, hround⟩
  · cases hw j _ _ hcall hmem
  · cases hw j _ _ hround hmem

end

/-- A transition that belongs to a request, by whatever headers, path and session, changes the rows
and the blob of a file that the session may write, and nothing else but expired locks. -/
theorem request_changes_entitled_file (hC : C.Lawful) (h₀ : Initial C p₀)
    (hrun : Runs cfg C False False p₀ p) {a : Conc.Action Choice Env Call} {l : Lbl}
    (hnext : p.next (machine cfg C) a = some (l, p')) (hcall : .call i (.request r) ∈ p.world.hist)
    (hactor : actor p.world.state l = some j) (hfor : ActsFor p.world.hist j i) :
    DiffersOnlyAt C (r.Entitles C) p.world.state p'.world.state := by
  have hp := hrun.poolSafe hC h₀ False.elim
  have hw : p.world.Once := Steps.once _ _ hrun (by simp [World.Once, h₀.hist])
  have hscope : ∀ e, InScope C p.world.hist j e → r.Entitles C e :=
    fun e he => hfor.entitles hw hcall hp.inv.calls he
  cases Pool.next_cases _ hnext with
  | call k c hk => exact .of_eq rfl rfl rfl rfl rfl
  | ret k a hk => exact .of_eq rfl rfl rfl rfl rfl
  | drop k q hk => exact .of_eq rfl rfl rfl rfl rfl
  | op k o f inp res s hk hx =>
    obtain rfl : k = j := Option.some.inj hactor
    exact effect_differs hp.inv (hp.pre hk).2 (exec_effect hx) hscope (hfor.not_operates hw hcall)
  | env e s hx =>
    cases e with
    | land n =>
      obtain ⟨f, hf, hthread⟩ := Option.map_eq_some_iff.1 hactor
      obtain ⟨e, hkey, he⟩ := (hp.inv.store.inFlight f (List.mem_of_getElem? hf)).2.scope
      have hx : env C (.land n) p.world.state = some s := hx
      simp only [env, hf] at hx
      cases hx
      rw [World.setState_state, carryOut_eq]
      exact carryOut_differs rfl rfl rfl rfl rfl ⟨e, hkey, hscope e (hthread ▸ he)⟩
    | _ => cases hactor

open Sample in
/-- The only request is about to commit its file. -/
def commitsFile (p : Pl) : Bool :=
  match p.world.hist, p.next (machine onFileSystem crates) (.run 0 .done) with
  | [.call 0 (.request r)], some (.op 0 .commit .done, p') =>
    r = putRequest "/pub/a" ⟨[]⟩ (utf8 "a".toList) && (p.world.state.entries.rows = [] &&
      p'.world.state.entries.rows.map EntryRow.path = ["/pub/a".toList])
  | _, _ => false

open Sample in
/-- Alice's upload of `/pub/a` is committed. -/
theorem request_changes_entitled_file_sample :
    ∃ p p' : Pl, Runs onFileSystem crates False False start p ∧
      p.next (machine onFileSystem crates) (.run 0 .done) = some (.op 0 .commit .done, p') ∧
      p.world.state.entries.rows = [] ∧
      p'.world.state.entries.rows.map EntryRow.path = ["/pub/a".toList] ∧
      DiffersOnlyAt crates ((putRequest "/pub/a" ⟨[]⟩ (utf8 "a".toList)).Entitles crates)
        p.world.state p'.world.state := by
  have hrun : (start.run (machine onFileSystem crates) (Admits crates False False)
      (.call 0 (.request (putRequest "/pub/a" ⟨[]⟩ (utf8 "a".toList))) :: proceed 0 19)).any
      commitsFile := by
    decide +kernel
  obtain ⟨p, hp, h⟩ := Pool.exists_steps_of_run _ _ hrun
  unfold commitsFile at h
  split at h
  · rename_i r p' hhist hnext
    simp only [Bool.and_eq_true, decide_eq_true_eq] at h
    refine ⟨p, p', hp, hnext, h.2.1, h.2.2, ?_⟩
    refine request_changes_entitled_file crates_lawful start_initial hp hnext ?_ rfl (.inl rfl)
    rw [hhist, h.1]
    exact List.mem_singleton_self _
  · cases h

end Pubky.Homeserver.Storage

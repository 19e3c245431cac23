import Pubky.Homeserver.Storage.Changes

/-!
# Deletions

The two transactions of a deletion: `finalize_delete` takes the entry out of the ledger, and
`remove_blob_if_unreferenced` looks again under the row of the user before the blob goes.
Changes of a user by the administrator are changes of the ledger, too.
-/

namespace Pubky.Homeserver.Storage

open Sql Conc Conc.Proc Conc.Logic

variable {cfg : Config} {C : StorageCrates} {hC : C.Lawful} {strict steady : Prop} {i : ℕ}
  {w w' : Wld} {s s' : State} {e : EntryPath} {token : Option Text} {u : UserRow}
  {access : Access} {F : Wld → Prop}

/-! ## The entry -/

/-- Locking the row of a user who may not exist. -/
theorem lockUserIfAny_safe (hF : Frame C steady i F)
    (hctx : ∀ {w}, F w → Ctx C steady i e token w) (h : F w)
    (hd : During w.state i (Fresh i w.state)) :
    Safely cfg hC strict steady i (lockUserIfAny e.pubkey) (fun _ => F)
      (fun user w => F w ∧ ∃ u, match user with
        | some user => During w.state i (Base C i e u [] [] [] w.state ∧ Reads u user)
        | none => During w.state i (Wrote i [] [] [] w.state ∧ ¬ steady)) w := by
  have hstable : Stable steady i fun s => Wrote i [] [] [] s ∧ ¬ steady :=
    fun s s' hc hk => ⟨Wrote.stable s s' hc hk.1, hk.2⟩
  refine SafeX.seq (fun _ _ _ hr _ => hF.rely hr) (SafeX.attempt (lockUser_safe
    (E := fun (err : SqlError) w => F w ∧ (err = .rowNotFound →
      During w.state i (Wrote i [] [] [] w.state ∧ ¬ steady))) hF
    (fun hf => (hctx hf).user) (fun err w hf hnone => ⟨hf, hnone⟩) h hd)) fun r w₁ _ hw₁ => ?_
  rcases r with err | user
  · cases err with
    | rowNotFound =>
      refine SafeX.pure fun w' hr _ => ⟨hF.rely hr hw₁.1, Classical.arbitrary _, ?_⟩
      exact (hw₁.2 rfl).rely hstable hr
    | decode => exact SafeX.throw fun w' hr _ => hF.rely hr hw₁.1
    | database => exact SafeX.throw fun w' hr _ => hF.rely hr hw₁.1
  · obtain ⟨⟨h₁, -⟩, u, hd₁⟩ := hw₁
    exact SafeX.pure fun w' hr _ => ⟨hF.rely hr h₁, u,
      hd₁.rely (Base.stable (Fact.pure (Reads u user))) hr⟩

/-- What `stage_delete` has established. -/
structure Staged (C : StorageCrates) (i : ℕ) (e : EntryPath) (token : Option Text) (u : UserRow)
    (row : EntryRow) (staged : StagedDelete) (s : State) : Prop where
  user : Reads u staged.user
  entry : ReadsEntry (some row) (some staged.deletedEntry)
  held : HoldsToken C i e token s
  finds : Finds u e.path.asStr (some row) s

theorem Staged.fact {row : EntryRow} {staged : StagedDelete} :
    Fact C steady i e u (Staged C i e token u row staged) := by
  have hheld : Fact C steady i e u (HoldsToken C i e token) := HoldsToken.fact
  have hfinds : Fact C steady i e u (Finds u e.path.asStr (some row)) := Finds.fact
  exact
    { carried := fun hc ho h => { h with
        held := hheld.carried hc ho h.held
        finds := hfinds.carried hc ho h.finds }
      own := fun hr h => { h with
        held := hheld.own hr h.held
        finds := hfinds.own hr h.finds } }

instance : Nonempty EntryRow := ⟨⟨0, 0, [], [], 0, []⟩⟩

/-- The entry that was read is the one that is deleted. -/
theorem deleteEntry_safe {user : UserEntity} {existing : Option EntryRow}
    {deletedEntry : EntryEntity} (hF : Frame C steady i F)
    (hctx : ∀ {w}, F w → Ctx C steady i e token w) (h : F w)
    (hd : During w.state i (Base C i e u [] [] [] w.state ∧
      (Reads u user ∧ HoldsToken C i e token w.state) ∧ Finds u e.path.asStr existing w.state ∧
        ReadsEntry existing (some deletedEntry))) :
    Safely cfg hC strict steady i (sql (perform (.deleteEntry deletedEntry.id))) (fun _ => F)
      (fun _ w => F w ∧ ∃ row, During w.state i (Base C i e u [] [.del row.id] [] w.state ∧
        Staged C i e token u row ⟨user, deletedEntry⟩ w.state)) w := by
  have hfact : Fact C steady i e u fun s => (Reads u user ∧ HoldsToken C i e token s) ∧
      Finds u e.path.asStr existing s ∧ ReadsEntry existing (some deletedEntry) :=
    ((Fact.pure _).and HoldsToken.fact).and (Finds.fact.and (Fact.pure _))
  have hread : ReadsEntry existing (some deletedEntry) →
      ∃ row, existing = some row ∧ row.id = deletedEntry.id := by
    rintro ⟨hid, -⟩
    rwa [Option.map_some, eq_comm, Option.map_eq_some_iff] at hid
  have hstmt : Safely cfg hC strict steady i (sql (perform (.deleteEntry deletedEntry.id)))
      (fun _ => F) (fun _ w => F w ∧ ∃ row : EntryRow, During w.state i
        (Base C i e u [] [.del row.id] [] w.state ∧ ((Reads u user ∧ HoldsToken C i e token w.state) ∧
          Finds u e.path.asStr existing w.state ∧ ReadsEntry existing (some deletedEntry)) ∧
          existing = some row)) w := by
    refine stmt_base_exists (o := .deleteEntry deletedEntry.id) (g := fun r => r) hF hfact
      (fun _ _ => Fact.pure _) rfl trivial answer_lost ?_ (fun _ hl => .inl hl) ?_ h hd
    · rintro w hi hf hb ⟨-, hfinds, hre⟩ ha
      obtain ⟨row, hrow, hid⟩ := hread hre
      obtain ⟨hmem, hru, hrp⟩ := hfinds.mem row hrow
      have hown := hi.entries.rows row hmem
      rw [hid, hru, hrp] at hown
      exact .inr ⟨ha, e, (hctx hf).scope, ⟨u.id, hown, hb.id⟩, hb.lock⟩
    · rintro w c r s' a hi hf ha hb ⟨-, hfinds, hre⟩ hexec hr
      obtain ⟨row, hrow, hid⟩ := hread hre
      subst hr
      obtain ⟨-, hexec⟩ := answer_eq (by simp) hexec
      rw [← hid] at hexec
      obtain rfl := deleteEntry_eq hb.entries hi.entries.unique (hfinds.mem row hrow).1 hexec
      refine ⟨row, { hb.toWrote with entries := ?_ }, hrow⟩
      rw [Table.writesOf_write_self, hb.entries]
      rfl
  refine SafeX.mono hstmt (fun _ _ _ hf => hf) ?_
  rintro - w₁ - ⟨hf, row, hd⟩
  refine ⟨hf, row, hd.mono ?_⟩
  rintro ⟨hb, ⟨⟨hu, ht⟩, hfi, hre⟩, rfl⟩
  exact ⟨hb, hu, hre, ht, hfi⟩

theorem stageDelete_safe (hF : Frame C steady i F) (hctx : ∀ {w}, F w → Ctx C steady i e token w)
    (h : F w) (hd : During w.state i (Fresh i w.state)) :
    Safely cfg hC strict steady i (stageDelete e token) (fun _ => F)
      (fun staged w => F w ∧ ∀ st, staged = some st → ∃ u row, During w.state i
        (Base C i e u [] [.del row.id] [] w.state ∧ Staged C i e token u row st w.state)) w := by
  have hE : ∀ (_ : OpendalError) w w', Rely steady i w w' → Inv C steady w' → F w → F w' :=
    fun _ _ _ hr _ => hF.rely hr
  refine SafeX.seq hE (lockUserIfAny_safe hF hctx h hd) fun user w₁ _ hw₁ => ?_
  obtain ⟨h₁, u, hd₁⟩ := hw₁
  cases user with
  | none => exact SafeX.pure fun w' hr _ => ⟨hF.rely hr h₁, nofun⟩
  | some user =>
    have hreads : Fact C steady i e u fun _ => Reads u user := Fact.pure _
    refine SafeX.seq hE (hold_safe hF hreads h₁ hd₁) fun _ w₂ _ hw₂ => ?_
    refine SafeX.seq hE (findEntry_safe hF (hreads.and HoldsToken.fact) hw₂.1 hw₂.2)
      fun entry w₃ _ hw₃ => ?_
    obtain ⟨h₃, existing, hd₃⟩ := hw₃
    cases entry with
    | none => exact SafeX.pure fun w' hr _ => ⟨hF.rely hr h₃, nofun⟩
    | some deletedEntry =>
      refine SafeX.seq hE (deleteEntry_safe hF hctx h₃ hd₃) fun _ w₄ _ hw₄ => ?_
      obtain ⟨h₄, row, hd₄⟩ := hw₄
      refine SafeX.pure fun w' hr _ => ⟨hF.rely hr h₄, fun st hst => ⟨u, row, ?_⟩⟩
      cases hst
      exact hd₄.rely (Base.stable Staged.fact) hr

/-- What a transaction that finalizes a deletion has written. -/
def Deleted (C : StorageCrates) (i : ℕ) (e : EntryPath) (token : Option Text) (s : State) : Prop :=
  ∃ u row eventId staged,
    Base C i e u [.put { u with usedBytes := usedAfterDelete u.usedBytes row }] [.del row.id]
      [.put (EventType.delete.toRow eventId u.id e.path.asStr)] s ∧
    Staged C i e token u row staged s

theorem Deleted.stable : Stable steady i (Deleted C i e token) := by
  rintro s s' hc ⟨u, row, eventId, staged, h⟩
  exact ⟨u, row, eventId, staged, Base.stable Staged.fact s s' hc h⟩

theorem applyDeleteEffects_safe {row : EntryRow} {staged : StagedDelete} (hF : Frame C steady i F)
    (hctx : ∀ {w}, F w → Ctx C steady i e token w) (h : F w)
    (hd : During w.state i (Base C i e u [] [.del row.id] [] w.state ∧
      Staged C i e token u row staged w.state)) :
    Safely cfg hC strict steady i (applyDeleteEffects e staged) (fun _ => F)
      (fun _ w => F w ∧ During w.state i (Deleted C i e token w.state)) w := by
  have hE : ∀ (_ : OpendalError) w w', Rely steady i w w' → Inv C steady w' → F w → F w' :=
    fun _ _ _ hr _ => hF.rely hr
  have hS : Fact C steady i e u (Staged C i e token u row staged) := Staged.fact
  refine SafeX.seq hE (createEvent_safe hF hS hctx (fun hx => hx.user.id) h hd) fun _ w₁ _ hw₁ => ?_
  obtain ⟨h₁, eventId, hd₁⟩ := hw₁
  refine SafeX.seq hE (updateUser_safe hF hS (fun hf => (hctx hf).scope) (fun hx => hx.user.id) h₁ hd₁)
    fun _ w₂ _ hw₂ => SafeX.pure fun w' hr _ => ?_
  refine ⟨hF.rely hr hw₂.1, During.rely Deleted.stable hr (hw₂.2.mono ?_)⟩
  rintro ⟨hb, hst, -⟩
  refine ⟨u, row, eventId, staged, ?_, hst⟩
  have hlength : staged.deletedEntry.contentLength = row.contentLength := by
    simpa using hst.entry.2
  rw [hst.user.disabled, hst.user.usedBytes, hlength] at hb
  exact hb

/-- A finalized deletion is a change of the ledger. -/
theorem Deleted.change (hi : Inv C steady w) (h : Deleted C i e token w.state) :
    Change strict w.state.ledger (w.state.ledgerOf i) := by
  obtain ⟨u, row, eventId, staged, hb, hs⟩ := h
  obtain ⟨hmem, huser, hpath⟩ := hs.finds.mem row rfl
  have hledger : w.state.ledgerOf i =
      ⟨Write.apply w.state.users.rows
          (.put { u with usedBytes := usedAfterDelete u.usedBytes row }),
        Write.apply w.state.entries.rows (.del row.id),
        Write.apply w.state.events.rows
          (.put (EventType.delete.toRow eventId u.id row.path))⟩ := by
    simp only [State.ledgerOf, Table.view, hb.users, hb.entries, hb.events, hpath]
    rfl
  rw [hledger]
  refine .delete u hb.mem row hmem huser eventId ?_
  have hput : .put (EventType.delete.toRow eventId u.id e.path.asStr) ∈
      w.state.events.writesOf i := by
    rw [hb.events]
    exact List.mem_singleton_self _
  obtain ⟨-, ev, _, heq, -, hlt, -⟩ := hi.events.writes i _ hput
  obtain rfl := Write.put.inj heq
  exact hlt

theorem finalizeDelete_safe (hF : Outer C steady i F)
    (hctx : ∀ {w}, F w → Ctx C steady i e token w) (h : F w) (hout : Outside w.state i) :
    Safely cfg hC strict steady i (finalizeDelete e token)
      (fun _ w => F w ∧ Outside w.state i) (fun _ w => F w ∧ Outside w.state i) w := by
  refine transaction_safe (K := fun _ => Deleted C i e token) hF (fun _ => Deleted.stable)
    (fun w hf hd => ?_) (fun _ w hi hf _ _ hk => ?_) h hout
  · refine SafeX.seq (fun _ _ _ hr _ => hF.rely hr) (stageDelete_safe hF.toFrame hctx hf hd)
      fun staged w₁ _ hw₁ => ?_
    obtain ⟨h₁, hstaged⟩ := hw₁
    cases staged with
    | none => exact SafeX.pure fun w' hr _ => ⟨hF.rely hr h₁, nofun⟩
    | some staged =>
      obtain ⟨u, row, hd₁⟩ := hstaged staged rfl
      refine SafeX.seq (fun _ _ _ hr _ => hF.rely hr)
        (applyDeleteEffects_safe hF.toFrame hctx h₁ hd₁) fun _ w₂ _ hw₂ => ?_
      exact SafeX.pure fun w' hr _ => ⟨hF.rely hr hw₂.1, fun _ => hw₂.2.rely Deleted.stable hr⟩
  · have hheld : HoldsToken C i e token w.state := by
      obtain ⟨_, _, _, _, -, hs⟩ := hk
      exact hs.held
    exact ⟨hk.change hi, (hctx hf).holdsLock hheld⟩

/-! ## The blob -/

/-- In a steady run the transaction holds the row of a user who has no entry at the path. -/
structure Unreferenced (C : StorageCrates) (steady : Prop) (i : ℕ) (e : EntryPath) (u : UserRow)
    (s : State) : Prop extends Wrote i [] [] [] s where
  row : steady → OwnsRow C i e u s
  absent : steady → Finds u e.path.asStr none s

theorem Unreferenced.stable : Stable steady i (Unreferenced C steady i e u) := by
  have hfinds : Fact C steady i e u (Finds u e.path.asStr none) := Finds.fact
  exact fun s s' hc h => { Wrote.stable s s' hc h.toWrote with
    row := fun hs => OwnsRow.stable s s' hc (h.row hs)
    absent := fun hs => hfinds.carried hc (h.row hs) (h.absent hs) }

/-- An id is drawn for one user only. -/
theorem UsersOk.id_eq {hist : Hist} {users : Table UserRow Text} {userIds : List Text}
    (h : UsersOk C hist users userIds) {m n : ℕ} {k : Text} (hm : userIds[m]? = some k)
    (hn : userIds[n]? = some k) : m = n := by
  obtain ⟨hlm, hm⟩ := List.getElem?_eq_some_iff.1 hm
  obtain ⟨hln, hn⟩ := List.getElem?_eq_some_iff.1 hn
  exact (h.nodup.getElem_inj_iff).1 (hm.trans hn.symm)

theorem removeBlob_safe {expected : Option ExpectedGeneration} {f : OpendalError → OpendalError}
    (hF : Frame C steady i F) (hctx : ∀ {w}, F w → Ctx C steady i e token w)
    (hfence : ∀ {w}, F w → Fenced i expected w)
    (hcond : cfg.backend = .googleBucket → expected.isSome) (h : F w)
    (hd : During w.state i (Unreferenced C steady i e u w.state)) :
    Safely cfg hC strict steady i (stmt f (perform (.send (.remove (e.asStr C) expected))))
      (fun _ => F) (fun _ => F) w := by
  have htrue : Stable steady i fun _ => True := fun _ _ _ h => h
  refine SafeX.mono (send_safe hF Unreferenced.stable htrue hctx
    rfl (fun _ _ _ _ hr => by cases hr) hfence hcond (fun w hi hs hk => ⟨(hk.row hs).lock, ?_⟩)
    (fun _ _ _ _ _ _ _ => trivial) h hd) (fun _ _ _ hf => hf) fun _ _ _ hw => hw.1
  intro key expected' _
  refine ⟨hk.entries, fun r hr huser => (hk.absent hs).none rfl r hr ?_⟩
  exact hi.users.id_eq huser (hk.row hs).id

theorem deleteBlob_safe {generation : Option ExpectedGeneration} (hF : Frame C steady i F)
    (hctx : ∀ {w}, F w → Ctx C steady i e token w)
    (hfence : ∀ {w}, F w → Fenced i generation w) (h : F w)
    (hd : During w.state i (Unreferenced C steady i e u w.state)) :
    Safely cfg hC strict steady i (deleteBlob cfg (e.asStr C) generation) (fun _ => F)
      (fun _ => F) w := by
  unfold deleteBlob
  cases hb : cfg.backend with
  | fileSystem =>
    exact removeBlob_safe hF hctx (fun _ _ _ _ _ hg => by cases hg) (by simp [hb]) h hd
  | googleBucket =>
    cases generation with
    | none => exact SafeX.throw fun w' hr _ => hF.rely hr h
    | some expected => exact removeBlob_safe hF hctx hfence (fun _ => rfl) h hd

theorem removeBlobUnderItsGeneration_safe (hF : Frame C steady i F)
    (hctx : ∀ {w}, F w → Ctx C steady i e token w) (h : F w)
    (hd : During w.state i (Unreferenced C steady i e u w.state)) :
    Safely cfg hC strict steady i (removeBlobUnderItsGeneration cfg C e) (fun _ => F)
      (fun _ => F) w := by
  have hE : ∀ (_ : OpendalError) w w', Rely steady i w w' → Inv C steady w' → F w → F w' :=
    fun _ _ _ hr _ => hF.rely hr
  refine SafeX.seq hE (generationUnderLock_safe hF Unreferenced.stable h hd)
    fun generation w₁ _ hw₁ => ?_
  obtain ⟨h₁, hd₁⟩ := hw₁
  show Safely cfg hC strict steady i (if generation = some .absent then _ else _) _ _ w₁
  by_cases habsent : generation = some .absent
  · rw [if_pos habsent]
    exact SafeX.pure fun w' hr _ => hF.rely hr h₁.1
  · rw [if_neg habsent]
    refine SafeX.seq hE (SafeX.attempt (deleteBlob_safe hF.and_fenced (fun hf => hctx hf.1)
      (fun hf => hf.2) h₁ hd₁)) fun r w₂ _ hw₂ => ?_
    rcases r with err | _
    · show Safely cfg hC strict steady i (if err.source = some .publishConflict then _ else _) _ _ w₂
      by_cases hconflict : err.source = some .publishConflict
      · rw [if_pos hconflict]
        exact SafeX.pure fun w' hr _ => hF.rely hr hw₂.1
      · rw [if_neg hconflict]
        exact SafeX.throw fun w' hr _ => hF.rely hr hw₂.1
    · exact SafeX.pure fun w' hr _ => hF.rely hr hw₂.1

theorem findEntry_uses {P : Op → Prop} (h : P (.getEntry e)) : (findEntry e).run.Uses P := by
  refine uses_bind (uses_attempt (uses_stmt (Prog.uses_perform.2 h))) fun r => ?_
  rcases r with (_ | _ | _) | entry
  · exact uses_pure _
  · exact uses_throw _
  · exact uses_throw _
  · exact uses_pure _

/-- No entry refers to the blob: there is none at the path, or, outside of steady runs, no
user. -/
theorem removeBlobInTransaction_safe (hF : Frame C steady i F)
    (hctx : ∀ {w}, F w → Ctx C steady i e token w) (h : F w)
    (hd : During w.state i (Fresh i w.state)) :
    Safely cfg hC strict steady i (removeBlobInTransaction cfg C e) (fun _ => F) (fun _ => F) w := by
  have hE : ∀ (_ : OpendalError) w w', Rely steady i w w' → Inv C steady w' → F w → F w' :=
    fun _ _ _ hr _ => hF.rely hr
  refine SafeX.seq hE (lockUserIfAny_safe hF hctx h hd) fun user w₁ _ hw₁ => ?_
  obtain ⟨h₁, u, hd₁⟩ := hw₁
  have hfind : Safely cfg hC strict steady i (findEntry e) (fun _ => F) (fun entry w =>
      F w ∧ (entry = none → During w.state i (Unreferenced C steady i e u w.state))) w₁ := by
    cases user with
    | some user =>
      refine SafeX.mono (findEntry_safe hF (Fact.pure (Reads u user)) h₁ hd₁)
        (fun _ _ _ hf => hf) ?_
      rintro entry w - ⟨hf, existing, hd⟩
      refine ⟨hf, fun hnone => hd.mono ?_⟩
      rintro ⟨hb, -, hfinds, hre, -⟩
      rw [hnone, Option.map_none, eq_comm, Option.map_eq_none_iff] at hre
      subst hre
      exact { hb.toWrote with row := fun _ => hb.toOwnsRow, absent := fun _ => hfinds }
    | none =>
      have hstable : Stable steady i fun s => Wrote i [] [] [] s ∧ ¬ steady :=
        fun s s' hc hk => ⟨Wrote.stable s s' hc hk.1, hk.2⟩
      refine SafeX.mono (plain_safe hF (during_settled hstable) (findEntry_uses trivial) h₁ hd₁)
        (fun _ _ _ hf => hf.1) fun _ w _ hw => ⟨hw.1, fun _ => hw.2.mono fun hk => ?_⟩
      exact { hk.1 with row := fun hs => absurd hs hk.2, absent := fun hs => absurd hs hk.2 }
  refine SafeX.seq hE hfind fun entry w₂ _ hw₂ => ?_
  cases entry with
  | some entry => exact SafeX.pure fun w' hr _ => hF.rely hr hw₂.1
  | none => exact removeBlobUnderItsGeneration_safe hF hctx hw₂.1 (hw₂.2 rfl)

theorem removeBlobIfUnreferenced_safe (hF : Outer C steady i F)
    (hctx : ∀ {w}, F w → Ctx C steady i e token w) (h : F w) (hout : Outside w.state i) :
    Safely cfg hC strict steady i (removeBlobIfUnreferenced cfg C e)
      (fun _ w => F w ∧ Outside w.state i) (fun _ w => F w ∧ Outside w.state i) w := by
  have hE : ∀ (_ : OpendalError) w w', Rely steady i w w' → Inv C steady w' →
      F w ∧ Outside w.state i → F w' ∧ Outside w'.state i := fun _ _ _ hr _ => hF.rely_outside hr
  refine SafeX.seq hE (begin_safe hF h hout) fun _ w₁ _ hw₁ => ?_
  refine SafeX.seq hE (SafeX.attempt (removeBlobInTransaction_safe hF.toFrame hctx hw₁.1 hw₁.2))
    fun r w₂ _ hw₂ => ?_
  have h₂ : F w₂ := by
    cases r with
    | ok _ => exact hw₂
    | error _ => exact hw₂
  refine SafeX.seq hE (rollback_safe hF h₂) fun _ w₃ _ hw₃ => ?_
  exact SafeX.check (fun _ _ w' hr _ => hF.rely_outside hr hw₃)
    fun _ _ w' hr _ => hF.rely_outside hr hw₃

/-! ## The queue -/

theorem finalizeAndRemoveBlob_safe (hF : Outer C steady i F)
    (hctx : ∀ {w}, F w → Ctx C steady i e token w) (h : F w) (hout : Outside w.state i) :
    Safely cfg hC strict steady i (finalizeAndRemoveBlob cfg C e token)
      (fun _ w => F w ∧ Outside w.state i) (fun _ w => F w ∧ Outside w.state i) w :=
  SafeX.seq (fun _ _ _ hr _ => hF.rely_outside hr) (finalizeDelete_safe hF hctx h hout)
    fun _ _ _ hw => removeBlobIfUnreferenced_safe hF hctx hw.1 hw.2

theorem processDeleteQueue_safe {paths : List EntryPath} {firstError : Option OpendalError}
    (hF : Outer C steady i F) (hctx : ∀ {w}, F w → ∀ e ∈ paths, Ctx C steady i e token w)
    (h : F w) (hout : Outside w.state i) :
    Safely cfg hC strict steady i (processDeleteQueue cfg C token paths firstError)
      (fun _ w => F w ∧ Outside w.state i) (fun _ w => F w ∧ Outside w.state i) w := by
  induction paths generalizing w firstError with
  | nil =>
    exact SafeX.check (fun _ _ w' hr _ => hF.rely_outside hr ⟨h, hout⟩)
      fun _ _ w' hr _ => hF.rely_outside hr ⟨h, hout⟩
  | cons path rest ih =>
    have hrest : ∀ {w}, F w → ∀ e ∈ rest, Ctx C steady i e token w :=
      fun hf e he => hctx hf e (List.mem_cons_of_mem _ he)
    refine SafeX.seq (fun _ _ _ hr _ => hF.rely_outside hr) (SafeX.attempt
      (finalizeAndRemoveBlob_safe hF (fun hf => hctx hf path List.mem_cons_self) h hout))
      fun r w₁ _ hw₁ => ?_
    cases r with
    | ok _ => exact ih hrest hw₁.1 hw₁.2
    | error _ => exact ih hrest hw₁.1 hw₁.2

/-- The deletes that stay queued were queued before. -/
theorem tryDeletes_safe {paths failed : List EntryPath} {firstError : Option OpendalError}
    (hF : Outer C steady i F) (hctx : ∀ {w}, F w → ∀ e ∈ paths, Ctx C steady i e token w)
    (h : F w) (hout : Outside w.state i) :
    Safely cfg hC strict steady i (tryDeletes cfg C token paths failed firstError)
      (fun _ w => F w ∧ Outside w.state i)
      (fun out w => (F w ∧ Outside w.state i) ∧ ∀ e ∈ out.1, e ∈ failed ∨ e ∈ paths) w := by
  induction paths generalizing w failed firstError with
  | nil => exact SafeX.pure fun w' hr _ => ⟨hF.rely_outside hr ⟨h, hout⟩, fun _ => .inl⟩
  | cons path rest ih =>
    have hrest : ∀ {w}, F w → ∀ e ∈ rest, Ctx C steady i e token w :=
      fun hf e he => hctx hf e (List.mem_cons_of_mem _ he)
    refine SafeX.seq (fun _ _ _ hr _ => hF.rely_outside hr) (SafeX.attempt
      (finalizeAndRemoveBlob_safe hF (fun hf => hctx hf path List.mem_cons_self) h hout))
      fun r w₁ _ hw₁ => ?_
    cases r with
    | ok _ =>
      refine SafeX.mono (ih hrest hw₁.1 hw₁.2) (fun _ _ _ hq => hq) fun out w' _ hq => ⟨hq.1, ?_⟩
      exact fun e he => (hq.2 e he).imp_right (List.mem_cons_of_mem _)
    | error _ =>
      refine SafeX.mono (ih hrest hw₁.1 hw₁.2) (fun _ _ _ hq => hq) fun out w' _ hq => ⟨hq.1, ?_⟩
      intro e he
      rcases hq.2 e he with he | he
      · rcases List.mem_append.1 he with he | he
        · exact .inl he
        · exact .inr (List.mem_singleton.1 he ▸ List.mem_cons_self)
      · exact .inr (List.mem_cons_of_mem _ he)

theorem closeAgain_safe {closes : ℕ} {paths : List EntryPath} (hF : Outer C steady i F)
    (hctx : ∀ {w}, F w → ∀ e ∈ paths, Ctx C steady i e token w) (h : F w)
    (hout : Outside w.state i) :
    Safely cfg hC strict steady i (closeAgain cfg C token closes paths)
      (fun _ w => F w ∧ Outside w.state i) (fun _ w => F w ∧ Outside w.state i) w := by
  induction closes generalizing w paths with
  | zero => exact processDeleteQueue_safe hF hctx h hout
  | succ closes ih =>
    refine SafeX.seq (fun _ _ _ hr _ => hF.rely_outside hr) (tryDeletes_safe hF hctx h hout)
      fun out w₁ _ hw₁ => ?_
    obtain ⟨failed, firstError⟩ := out
    cases firstError with
    | none => exact SafeX.pure fun w' hr _ => hF.rely_outside hr hw₁.1
    | some _ =>
      exact ih (fun hf e he => hctx hf e (by simpa using hw₁.2 e he)) hw₁.1.1 hw₁.1.2

/-- Only files of the given keys are queued. -/
theorem queueDeletes_safe {keys : List Text} (hF : Frame C steady i F) (h : F w)
    (hout : Outside w.state i) :
    Safely cfg hC strict steady i (queueDeletes C access keys)
      (fun _ w => F w ∧ Outside w.state i) (fun paths w => (F w ∧ Outside w.state i) ∧
        ∀ e ∈ paths, ∃ key ∈ keys, parseOpendal C (C.normalizePath key) = .ok e) w := by
  have hE : ∀ (_ : OpendalError) w w', Rely steady i w w' → Inv C steady w' →
      F w ∧ Outside w.state i → F w' ∧ Outside w'.state i := fun _ _ _ hr _ => hF.rely_outside hr
  induction keys generalizing w with
  | nil => exact SafeX.pure fun w' hr _ => ⟨hF.rely_outside hr ⟨h, hout⟩, nofun⟩
  | cons key rest ih =>
    refine SafeX.seq hE (SafeX.check (Q := fun e w => parseOpendal C (C.normalizePath key) = .ok e ∧
      F w ∧ Outside w.state i) (fun e he w' hr _ => ⟨he, hF.rely_outside hr ⟨h, hout⟩⟩)
      fun _ _ w' hr _ => hF.rely_outside hr ⟨h, hout⟩) fun e w₁ _ hw₁ => ?_
    obtain ⟨hparse, h₁⟩ := hw₁
    refine SafeX.seq hE (plain_outside_safe hF (onlyApp_uses checkWritePathAllowed_uses) h₁.1 h₁.2)
      fun _ w₂ _ hw₂ => ?_
    refine SafeX.seq hE (ih hw₂.1 hw₂.2) fun paths w₃ _ hw₃ => ?_
    refine SafeX.pure fun w' hr _ => ⟨hF.rely_outside hr hw₃.1, fun e' he' => ?_⟩
    rcases List.mem_cons.1 he' with rfl | hmem
    · exact ⟨key, List.mem_cons_self, hparse⟩
    · obtain ⟨key', hkey', hp⟩ := hw₃.2 e' hmem
      exact ⟨key', List.mem_cons_of_mem _ hkey', hp⟩

/-- A deleter with any number of paths. -/
theorem deleteRepeatedly_safe {keys : List Text} {closes : ℕ} (hF : Outer C steady i F)
    (hctx : ∀ {w}, F w → ∀ key ∈ keys, ∀ e, parseOpendal C (C.normalizePath key) = .ok e →
      Ctx C steady i e token w) (h : F w) (hout : Outside w.state i) :
    Safely cfg hC strict steady i (deleteRepeatedly cfg C access token keys closes)
      (fun _ w => F w ∧ Outside w.state i) (fun _ w => F w ∧ Outside w.state i) w := by
  refine SafeX.seq (fun _ _ _ hr _ => hF.rely_outside hr) (queueDeletes_safe hF.toFrame h hout)
    fun paths w₁ _ hw₁ => ?_
  obtain ⟨h₁, hpaths⟩ := hw₁
  refine closeAgain_safe hF (fun hf e he => ?_) h₁.1 h₁.2
  obtain ⟨key, hkey, hparse⟩ := hpaths e he
  exact hctx hf key hkey e hparse

theorem deleteAll_safe {keys : List Text} (hF : Outer C steady i F)
    (hctx : ∀ {w}, F w → ∀ key ∈ keys, ∀ e, parseOpendal C (C.normalizePath key) = .ok e →
      Ctx C steady i e token w) (h : F w) (hout : Outside w.state i) :
    Safely cfg hC strict steady i (deleteAll cfg C access token keys)
      (fun _ w => F w ∧ Outside w.state i) (fun _ w => F w ∧ Outside w.state i) w :=
  have hsafe : Safely cfg hC strict steady i (deleteRepeatedly cfg C access token keys 0)
      (fun _ w => F w ∧ Outside w.state i) (fun _ w => F w ∧ Outside w.state i) w :=
    deleteRepeatedly_safe hF hctx h hout
  hsafe

end Pubky.Homeserver.Storage

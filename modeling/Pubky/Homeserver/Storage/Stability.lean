import Pubky.Homeserver.Storage.Sample

/-!
# What the storage does not take back

Between any two states of a run, however the calls interleave and whatever fails:

* `ids_never_reused`: the id of a user or of an entry stands for one user or one file forever,
* `event_log_append_only`: committed events stay, and later ones have larger ids,
* `locked_user_stays`: while a transaction holds the row of a user, nobody else changes the row or
  the user's entries, so that what it commits rests on what it has read.
-/

namespace Pubky.Homeserver.Storage

open Sql Conc Conc.Logic

variable {cfg : Config} {C : StorageCrates} {strict : Prop} {p p' p₀ : Pl} {s s' : State}

/-- A run leads to the state `s`, and on to `s'`. -/
def Leads (cfg : Config) (C : StorageCrates) (s s' : State) : Prop :=
  ∃ p₀ p p' : Pl, Initial C p₀ ∧ Runs cfg C False False p₀ p ∧ Runs cfg C False False p p' ∧
    p.world.state = s ∧ p'.world.state = s'

/-! ## Ids -/

/-- Users are never removed, and an id that a user or an entry had is not given to another one, not
even after the entry was deleted. -/
theorem ids_never_reused (hC : C.Lawful) (h : Leads cfg C s s') :
    (∀ u ∈ s.users.rows, ∃ u' ∈ s'.users.rows, u'.id = u.id ∧ u'.publicKey = u.publicKey) ∧
    (∀ u ∈ s.users.rows, ∀ u' ∈ s'.users.rows, u'.id = u.id → u'.publicKey = u.publicKey) ∧
    ∀ r ∈ s.entries.rows, ∀ r' ∈ s'.entries.rows, r'.id = r.id →
      r'.user = r.user ∧ r'.path = r.path := by
  obtain ⟨p₀, p, p', h₀, hrun, hrun', rfl, rfl⟩ := h
  have hp := hrun.poolSafe hC h₀ False.elim
  have hi := hp.inv
  have hi' := (Runs.poolSafe hC (hrun.trans hrun') h₀ False.elim).inv
  have hgrows : Grows p.world.state p'.world.state :=
    steps_related (R := fun w w' => Grows w.state w'.state) storageLogic_callSafe
      (fun _ => Grows.refl _) Grows.trans (fun hr => hr.grows) hp hrun'
  have hkey : ∀ u ∈ p.world.state.users.rows, p'.world.state.userIds[u.id]? = some u.publicKey :=
    fun u hu => getElem?_of_extends hgrows.userIds (hi.users.rows u hu)
  refine ⟨fun u hu => ?_, fun u hu u' hu' hid => ?_, fun r hr r' hr' hid => ?_⟩
  · obtain ⟨u', hu', hsame⟩ := hgrows.users u hu
    have hlt := (List.getElem?_eq_some_iff.1 (hi'.users.rows u' hu')).1
    -- no key has two ids
    refine ⟨u', hu', (List.getElem?_inj hlt hi'.users.nodup).1 ?_, hsame⟩
    rw [hi'.users.rows u' hu', hkey u hu, hsame]
  · exact Option.some.inj ((hi'.users.rows u' hu').symm.trans (hid ▸ hkey u hu))
  · have hfile := getElem?_of_extends hgrows.entryIds (hi.entries.rows r hr)
    rw [← hid, hi'.entries.rows r' hr'] at hfile
    exact Prod.mk.inj (Option.some.inj hfile)

/-- The ids of the entries and of the events. -/
def State.ids (s : State) : List ℕ × List ℕ :=
  (s.entries.rows.map EntryRow.id, s.events.rows.map EventRow.id)

open Sample in
/-- Of two files the first one is deleted; then it is written again. -/
theorem file_written_again : ∃ s s', Leads onFileSystem crates s s' ∧ s.ids = ([1], [1, 2, 3]) ∧
    s'.ids = ([1, 2], [1, 2, 3, 4]) := by
  have hrun : (start.run (machine onFileSystem crates) (Admits crates False False)
      twoFilesAndOneGone).any fun p => p.world.state.ids = ([1], [1, 2, 3]) &&
        (p.run (machine onFileSystem crates) (Admits crates False False)
          (.call 3 (write "/pub/a" (utf8 "a".toList)) :: proceed 3 16)).any fun p' =>
            p'.world.state.ids = ([1, 2], [1, 2, 3, 4]) := by
    decide +kernel
  obtain ⟨p, hp, h⟩ := Pool.exists_steps_of_run _ _ hrun
  simp only [Bool.and_eq_true, decide_eq_true_eq] at h
  obtain ⟨p', hp', h'⟩ := Pool.exists_steps_of_run _ _ h.2
  exact ⟨_, _, ⟨_, p, p', start_initial, hp, hp', rfl, rfl⟩, h.1, of_decide_eq_true h'⟩

/-- The file gets a new id. -/
theorem ids_never_reused_sample : ∃ s s' : State, s.ids = ([1], [1, 2, 3]) ∧
    s'.ids = ([1, 2], [1, 2, 3, 4]) ∧ ∀ r ∈ s.entries.rows, ∀ r' ∈ s'.entries.rows,
      r'.id = r.id → r'.user = r.user ∧ r'.path = r.path := by
  obtain ⟨s, s', hs, h, h'⟩ := file_written_again
  exact ⟨s, s', h, h', (ids_never_reused Sample.crates_lawful hs).2.2⟩

/-! ## Events -/

theorem Change.events_grow {l l' : Ledger} (h : Change strict l l') : l.events <+: l'.events := by
  cases h with
  | write u hu path hfile metadata hfits existing hsome hnone newId hid eventId hevent =>
    rw [apply_put_event hevent]
    exact List.prefix_append _ _
  | delete u hu deleted hdeleted huser eventId hevent =>
    rw [apply_put_event hevent]
    exact List.prefix_append _ _
  | _ => exact List.prefix_refl _

/-- Whoever has read the events up to an id does not miss one when reading on from there: committed
events stay as they are, and every event that is committed later has a larger id. -/
theorem event_log_append_only (hC : C.Lawful) (h : Leads cfg C s s') :
    ∃ later, s'.events.rows = s.events.rows ++ later ∧
      ∀ old ∈ s.events.rows, ∀ ev ∈ later, old.id < ev.id := by
  obtain ⟨p₀, p, p', h₀, hrun, hrun', rfl, rfl⟩ := h
  obtain ⟨later, hlater⟩ : p.world.state.events.rows <+: p'.world.state.events.rows :=
    steps_invariant (P := fun w => p.world.state.events.rows <+: w.state.events.rows)
      (L := storageLogic cfg hC False False) storageLogic_callSafe (fun _ _ ha => ha)
      (fun hq hn _ h => h.trans (step_change hq hn).events_grow)
      (hrun.poolSafe hC h₀ False.elim) (List.prefix_refl _) hrun'
  refine ⟨later, hlater.symm, ?_⟩
  have hok : p'.world.state.ledger.Ok := Runs.ledger hC (fun hc hl => hl.change hc)
    (hrun.trans hrun') h₀ False.elim h₀.consistent.ledger
  have horder := hok.events
  rw [State.ledger, ← hlater, List.pairwise_append] at horder
  exact horder.2.2

/-- The file gets another event. -/
theorem event_log_append_only_sample : ∃ s s' : State, s.ids.2 = [1, 2, 3] ∧
    s'.ids.2 = [1, 2, 3, 4] ∧ s.events.rows <+: s'.events.rows := by
  obtain ⟨s, s', hs, h, h'⟩ := file_written_again
  obtain ⟨later, hlater, -⟩ := event_log_append_only Sample.crates_lawful hs
  exact ⟨s, s', congrArg Prod.snd h, congrArg Prod.snd h', later, hlater.symm⟩

/-! ## Rows of users -/

/-- As long as a transaction that holds the row of a user is alive, whatever all other calls do,
the row and the entries of the user stay as they are, and nobody else gets hold of the row. -/
theorem locked_user_stays {j : ℕ} {u : UserRow} (hC : C.Lawful) (h₀ : Initial C p₀)
    (hrun : Runs cfg C False False p₀ p) (hu : u ∈ p.world.state.users.rows)
    (hlock : (j, u.publicKey) ∈ p.world.state.users.locks)
    (hrun' : Steps (machine cfg C) (fun w l => Admits C False False w l ∧ l.thread ≠ some j) p p')
    (halive : p'.world.state.alive j = true) :
    u ∈ p'.world.state.users.rows ∧
    (∀ r : EntryRow, r.user = u.id →
      (r ∈ p'.world.state.entries.rows ↔ r ∈ p.world.state.entries.rows)) ∧
    ∀ i, (i, u.publicKey) ∈ p'.world.state.users.locks → i = j := by
  have hp := hrun.poolSafe hC h₀ False.elim
  have hrely : Rely False j p.world p'.world :=
    steps_rely (L := storageLogic cfg hC False False) storageLogic_callSafe hp hrun'
  have hsame := (hrely.same halive).2
  have hi' := (steps_safe storageLogic_callSafe hp (Steps.mono _ _ (fun _ _ ha => ha.1) hrun')).inv
  refine ⟨(hsame.userRows u hlock).2 hu, fun r hr => ?_, fun i hi => ?_⟩
  · exact hsame.entryRows r u.publicKey hlock (hr ▸ hp.inv.users.rows u hu)
  · exact hi'.users.locked.excl hi (hsame.locks _ hlock)

open Sample in
/-- A write holds alice's row while another one waits for it. -/
theorem locked_user_stays_sample : ∃ p p' : Pl, ∃ u,
    (0, u.publicKey) ∈ p.world.state.users.locks ∧ p'.world.state.alive 0 = true ∧
      p'.world.Started 1 ∧ u ∈ p'.world.state.users.rows := by
  have hrun : (start.run (machine onFileSystem crates) (Admits crates False False)
      (.call 0 (write "/pub/a" (utf8 "a".toList)) :: proceed 0 17)).any fun p =>
        (p.world.state.users.rows.any fun u => (0, u.publicKey) ∈ p.world.state.users.locks) &&
        (p.run (machine onFileSystem crates)
          (fun w l => Admits crates False False w l ∧ l.thread ≠ some 0)
          (.call 1 (write "/pub/b" (utf8 "b".toList)) :: proceed 1 4)).any fun p' =>
            p'.world.state.alive 0 && p'.world.started 1 := by
    decide +kernel
  obtain ⟨p, hp, h⟩ := Pool.exists_steps_of_run _ _ hrun
  simp only [Bool.and_eq_true, List.any_eq_true, decide_eq_true_eq] at h
  obtain ⟨⟨u, hu, hlock⟩, h⟩ := h
  obtain ⟨p', hp', h'⟩ := Pool.exists_steps_of_run _ _ h
  simp only [Bool.and_eq_true, World.started_iff] at h'
  exact ⟨p, p', u, hlock, h'.1, h'.2,
    (locked_user_stays crates_lawful start_initial hp hu hlock hp' h'.1).1⟩

end Pubky.Homeserver.Storage

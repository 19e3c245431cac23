import Pubky.Homeserver.Storage.Sample

/-!
# Rows stay consistent

What every change of the ledger keeps true holds in every committed state of every run, however
the calls interleave and whichever statements, backend requests and connections fail:

* `events_replay_to_files`: the events of a user are a log of the user's files,
* `no_file_is_a_folder`: files and folders stay apart, if only the operator of the client server
  writes,
* `used_bytes_exact`: the counter of the used bytes is exact as long as it and every new file stay
  in the range of signed 64-bit numbers. Beyond that it saturates (`used_bytes_saturate`).
-/

namespace Pubky.Homeserver.Storage

open Sql Conc Conc.Logic

variable {cfg : Config} {C : StorageCrates} {p p₀ : Pl}

/-! ## The event log -/

/-- The events of a user, replayed in the order of their ids, yield the user's files, and only
files that are there are deleted. -/
theorem events_replay_to_files (hC : C.Lawful) (h₀ : Initial C p₀) (user : ℕ)
    (hlog : p₀.world.state.ledger.Logged user) (hrun : Runs cfg C False False p₀ p) :
    p.world.state.ledger.Logged user := by
  have hboth := hrun.ledger (P := fun l => l.Ok ∧ l.Logged user) hC
    (fun hc hl => ⟨hl.1.change hc, hl.2.change hl.1 hc⟩) h₀ False.elim ⟨h₀.consistent.ledger, hlog⟩
  exact hboth.2

open Sample in
/-- Two files are written and one is deleted again. -/
theorem events_replay_to_files_sample :
    ∃ p : Pl, Runs onFileSystem crates False False start p ∧
      p.world.state.events.rows.map EventRow.id = [1, 2, 3] ∧
      p.world.state.ledger.files 0 "/pub/a".toList = none ∧
      p.world.state.ledger.files 0 "/pub/b".toList = some (blake3 (utf8 "b".toList)) ∧
      p.world.state.ledger.Logged 0 := by
  have hrun : (start.run (machine onFileSystem crates) (Admits crates False False)
      twoFilesAndOneGone).any fun p => p.world.state.events.rows.map EventRow.id = [1, 2, 3] &&
        (p.world.state.ledger.files 0 "/pub/a".toList = none &&
          p.world.state.ledger.files 0 "/pub/b".toList = some (blake3 (utf8 "b".toList))) := by
    decide +kernel
  obtain ⟨p, hp, h⟩ := Pool.exists_steps_of_run _ _ hrun
  simp only [Bool.and_eq_true, decide_eq_true_eq] at h
  exact ⟨p, hp, h.1, h.2.1, h.2.2,
    events_replay_to_files crates_lawful start_initial 0 (.of_nil rfl rfl) hp⟩

/-! ## Files and folders -/

/-- No path of a file followed by a slash starts the path of another file of the user. -/
theorem no_file_is_a_folder (hC : C.Lawful) (h₀ : Initial C p₀) (user : ℕ)
    (hapart : p₀.world.state.ledger.Apart user) (hrun : Runs cfg C True False p₀ p) :
    p.world.state.ledger.Apart user := by
  have hboth := hrun.ledger (P := fun l => l.Ok ∧ l.Apart user) hC
    (fun hc hl => ⟨hl.1.change hc, hl.2.change hl.1 hc⟩) h₀ False.elim
    ⟨h₀.consistent.ledger, hapart⟩
  exact hboth.2

/-- The last event is that the second call was refused. -/
def collided : Option (Event Call Out) → Bool
  | some (.ret 1 (.operated (.error .pathCollision))) => true
  | _ => false

open Sample in
/-- While alice gets the file `/pub/a`, a write of `/pub/a/b` passes the check before its upload.
It waits for alice's row, and then finds the file. -/
theorem no_file_is_a_folder_sample :
    ∃ p : Pl, Runs onFileSystem crates True False start p ∧
      p.world.state.entries.rows.map EntryRow.path = ["/pub/a".toList] ∧
      .ret 1 (.operated (.error .pathCollision)) ∈ p.world.hist ∧
      p.world.state.ledger.Apart 0 := by
  have hrun : (start.run (machine onFileSystem crates) (Admits crates True False)
      (.call 0 (write "/pub/a" (utf8 "a".toList)) :: proceed 0 17 ++
        .call 1 (write "/pub/a/b" (utf8 "b".toList)) :: proceed 1 4 ++ proceed 0 2 ++
        proceed 1 5)).any fun p =>
      p.world.state.entries.rows.map EntryRow.path = ["/pub/a".toList] &&
        collided p.world.hist.head? := by
    decide +kernel
  obtain ⟨p, hp, h⟩ := Pool.exists_steps_of_run _ _ hrun
  simp only [Bool.and_eq_true, decide_eq_true_eq] at h
  refine ⟨p, hp, h.1, ?_, no_file_is_a_folder crates_lawful start_initial 0
    (fun r hr => absurd hr List.not_mem_nil) hp⟩
  have hret := h.2
  unfold collided at hret
  split at hret
  · exact List.mem_of_head? ‹_›
  · cases hret

/-! ## Accounting -/

/-- The call whose transaction a step commits. -/
def committing : Lbl → Option ℕ
  | .op i .commit _ => some i
  | _ => none

/-- What a commit writes for the user stays, together with the used bytes, below the range of
signed 64-bit numbers. -/
def WritesFit (user : ℕ) (w : Wld) (l : Lbl) : Prop :=
  ∀ i ∈ committing l, w.state.ledger.Fits user (w.state.ledgerOf i)

theorem step_fits {l : Lbl} {p' : Pl} {user : ℕ} (h : p.Next (machine cfg C) l p')
    (hfit : WritesFit user p.world l) :
    p.world.state.ledger.Fits user p'.world.state.ledger := by
  -- only a commit adds entries
  have hsame : ∀ {l' : Ledger}, l'.entries = p.world.state.ledger.entries →
      p.world.state.ledger.Fits user l' := by
    intro l' heq r hr hnew
    rw [heq] at hr
    exact absurd hr hnew
  cases h with
  | call i c hi => exact hsame rfl
  | ret i a hi => exact hsame rfl
  | drop i q hi => exact hsame rfl
  | env e s hx =>
    rcases env_ledger hx with heq | ⟨key, quota, -, heq⟩
    · exact hsame (congrArg Ledger.entries heq)
    · exact hsame (by rw [World.setState_state, heq])
  | op i o k inp r s hi hx =>
    have heff : Effect cfg C i p.world.state o s := exec_effect hx
    by_cases ho : o = .commit
    · subst ho
      rcases commit_cases heff with heq | ⟨-, rfl⟩
      · exact hsame (congrArg Ledger.entries heq)
      · exact hfit i rfl
    · exact hsame (congrArg Ledger.entries (effect_ledger ho heff))

/-- The used bytes of a user are the sum over the user's files, in every run in which what is
written for the user fits. -/
theorem used_bytes_exact (hC : C.Lawful) (h₀ : Initial C p₀) (user : ℕ)
    (hacc : p₀.world.state.ledger.Accounted user)
    (hrun : Steps (machine cfg C) (fun w l => Admits C False False w l ∧ WritesFit user w l) p₀ p) :
    p.world.state.ledger.Accounted user := by
  have hL : (storageLogic cfg hC False False).CallSafe := storageLogic_callSafe
  have hboth := steps_invariant (P := fun w => w.state.ledger.Ok ∧ w.state.ledger.Accounted user) hL
    (fun _ _ ha => ha.1)
    (fun hp hn ha hl => ⟨hl.1.change (step_change hp hn),
      hl.2.change hl.1 (step_change hp hn) (step_fits hn ha.2)⟩)
    (h₀.poolSafe hC False.elim) ⟨h₀.consistent.ledger, hacc⟩ hrun
  exact hboth.2

instance (user : ℕ) (l l' : Ledger) : Decidable (l.Fits user l') :=
  inferInstanceAs (Decidable (∀ r ∈ l'.entries, r ∉ l.entries → r.user = user →
    ∀ u ∈ l.users, u.id = user → u.usedBytes.toNat + r.bytes < 2 ^ 63))

instance (user : ℕ) (w : Wld) (l : Lbl) : Decidable (WritesFit user w l) :=
  inferInstanceAs (Decidable (∀ i ∈ committing l, w.state.ledger.Fits user (w.state.ledgerOf i)))

open Sample in
/-- Two files of one byte are written and one is deleted again. -/
theorem used_bytes_exact_sample :
    ∃ p : Pl, Steps (machine onFileSystem crates)
        (fun w l => Admits crates False False w l ∧ WritesFit 0 w l) start p ∧
      usage p.world.state.entries.rows 0 = 257 ∧ p.world.state.ledger.Accounted 0 := by
  have hrun : (start.run (machine onFileSystem crates)
      (fun w l => Admits crates False False w l ∧ WritesFit 0 w l) twoFilesAndOneGone).any
      fun p => usage p.world.state.entries.rows 0 = 257 := by
    decide +kernel
  obtain ⟨p, hp, h⟩ := Pool.exists_steps_of_run _ _ hrun
  refine ⟨p, hp, of_decide_eq_true h, ?_⟩
  exact used_bytes_exact crates_lawful start_initial 0
    (by simp [Ledger.Accounted, State.ledger, start, usage]) hp

/-- Almost 8 EiB. -/
def largeContent : Bytes :=
  List.replicate (2 ^ 63 - 512) 0

theorem length_largeContent : UInt64.ofNat largeContent.length = 9223372036854775296 := by
  rw [largeContent, List.length_replicate]
  rfl

open Sample in
/-- Three such files are going to be written. -/
def largeUploads : Pl where
  world := ⟨start.world.state, [.call 2 (write "/pub/c" largeContent),
    .call 1 (write "/pub/b" largeContent), .call 0 (write "/pub/a" largeContent)]⟩
  threads := Function.update (Function.update (Function.update (fun _ => none)
    0 (some (program onFileSystem crates (write "/pub/a" largeContent))))
    1 (some (program onFileSystem crates (write "/pub/b" largeContent))))
    2 (some (program onFileSystem crates (write "/pub/c" largeContent)))

open Sample in
/-- Three files of almost 8 EiB, which the storage of a user without a limit accepts, count more
than 64 bits hold. -/
theorem used_bytes_saturate :
    ∃ p : Pl, Runs onFileSystem crates False False start p ∧
      start.world.state.entries.rows = [] ∧
      (∀ u ∈ start.world.state.users.rows, u.usedBytes = 0) ∧
      (∃ u ∈ p.world.state.users.rows, u.id = 0 ∧ u.usedBytes.toNat = 2 ^ 64 - 1) ∧
      usage p.world.state.entries.rows 0 = 3 * (2 ^ 63 - 256) ∧
      ¬ p.world.state.ledger.Accounted 0 := by
  have hcalls : start.run (machine onFileSystem crates) (Admits crates False False)
      [.call 0 (write "/pub/a" largeContent), .call 1 (write "/pub/b" largeContent),
        .call 2 (write "/pub/c" largeContent)] = some largeUploads := rfl
  have hrun : (largeUploads.run (machine onFileSystem crates) (Admits crates False False)
      (proceed 0 19 ++ proceed 1 16 ++ proceed 2 16)).any fun p =>
      (p.world.state.users.rows.any fun u => u.id = 0 && u.usedBytes.toNat = 2 ^ 64 - 1) &&
        usage p.world.state.entries.rows 0 = 3 * (2 ^ 63 - 256) := by
    -- the length of the content is not counted out
    simp only [largeUploads, write, program, operate, writeStream, writeChunks,
      FileMetadataBuilder.update, length_largeContent]
    decide +kernel
  obtain ⟨p, hp, h⟩ := Pool.exists_steps_of_run _ _ hrun
  simp only [Bool.and_eq_true, decide_eq_true_eq, List.any_eq_true] at h
  obtain ⟨⟨u, hu, hid, hused⟩, husage⟩ := h
  refine ⟨p, (Pool.run_steps _ _ hcalls).trans hp, rfl, by simp [start], ⟨u, hu, hid, hused⟩, husage,
    fun hacc => ?_⟩
  have heq := hacc u hu hid
  rw [hused, show usage p.world.state.ledger.entries 0 = _ from husage] at heq
  omega

end Pubky.Homeserver.Storage

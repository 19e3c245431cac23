import Pubky.Homeserver.Storage.Sample

/-!
# Blobs and transactions

Blobs are changed by requests to the backend, which no transaction undoes:

* `later_object_survives`: an object store carries out a request whenever it gets to it, perhaps
  long after the transaction that sent it has ended. Requests name the generation that was read
  under the row of the user, so they find an object that was published since to be another one.
* `removal_orphans_no_row`: where transactions live until they are ended, and requests are carried
  out before they return, a blob is removed only while no entry refers to it, and every entry has
  its blob.
-/

namespace Pubky.Homeserver.Storage

open Sql Conc Conc.Logic

variable {cfg : Config} {C : StorageCrates} {strict steady : Prop} {i j : ℕ} {o : Op}
  {p p' p₀ : Pl} {w : Wld} {s s' : State} {hist : Hist} {l : Lbl}

/-! ## Late requests -/

/-- The transaction whose request a transition carries out. -/
def requester (s : State) : Lbl → Option ℕ
  | .op i (.send _) _ => s.txNumber i
  | .env (.land n) => (s.inFlight[n]?).bind InFlight.tx
  | _ => none

/-- The object at a key is the one that a conditional request expects. -/
theorem generation_eq_of_meets (hunique : (s.blobs.map Blob.key).Nodup) {b : Blob}
    (hb : b ∈ s.blobs) {expected : Option ExpectedGeneration} (hcond : expected.isSome)
    (hmeets : s.meets b.key expected = true) : expected = some (.known b.generation) := by
  have hfind : s.blob? b.key = some b := by
    cases hfind : s.blob? b.key with
    | none => exact absurd (List.find?_eq_none.1 hfind b hb) (by simp)
    | some b' =>
      have hkey : b'.key = b.key := by simpa using List.find?_some hfind
      rw [List.inj_on_of_nodup_map hunique (List.mem_of_find?_eq_some hfind) hb hkey]
  cases expected with
  | none => cases hcond
  | some expected =>
    cases expected with
    | absent => simp [State.meets, hfind] at hmeets
    | known g =>
      have hg : b.generation = g := by simpa [State.meets, hfind] using hmeets
      rw [hg]

/-- A conditional request of transaction `f` leaves an object alone that was published after the
end of `f`. -/
theorem mem_carryOut_of_later (hunique : (s.blobs.map Blob.key).Nodup) {b : Blob}
    (hb : b ∈ s.blobs) {request : BackendRequest} {f g : ℕ} (hcond : request.expected.isSome)
    (hold : ∀ n, request.expected = some (.known n) → Old s.blobs s.nextGeneration s.journal f n)
    (hg : b.publisher = some g) (hafter : AcquiredAfterEnd g f s.journal) {tx : Option ℕ} :
    b ∈ (s.carryOut tx request).2.blobs := by
  by_cases hkey : b.key = request.key
  · by_cases hmeets : s.meets request.key request.expected = true
    · have hexpected := generation_eq_of_meets hunique hb hcond (hkey ▸ hmeets)
      exact absurd ((hold _ hexpected).blobs b hb g hg hafter) (Nat.lt_irrefl _)
    · rw [carryOut_of_not_meets (by simpa using hmeets)]
      exact hb
  · exact (mem_blobs_of_key_ne hkey).2 hb

/-- A request of transaction `f`, however late it is carried out, neither replaces nor deletes an
object of a transaction that locked its user row after `f` had ended. -/
theorem later_object_survives (hC : C.Lawful) (hbackend : cfg.backend = .googleBucket)
    (h₀ : Initial C p₀) (hrun : Runs cfg C False False p₀ p)
    {a : Conc.Action Choice Env Call} (hnext : p.next (machine cfg C) a = some (l, p')) {f g : ℕ}
    {b : Blob} (hf : requester p.world.state l = some f) (hb : b ∈ p.world.state.blobs)
    (hg : b.publisher = some g) (hafter : AcquiredAfterEnd g f p.world.state.journal) :
    b ∈ p'.world.state.blobs := by
  have hp := hrun.poolSafe hC h₀ False.elim
  have hunique := hp.inv.store.unique
  cases Pool.next_cases _ hnext with
  | call k c hk => exact hb
  | ret k a hk => exact hb
  | drop k q hk => exact hb
  | op k o q inp res s hk hx =>
    cases o with
    | send request =>
      have hpre : SendPre cfg C False k request p.world := (hp.pre hk).2
      obtain ⟨n, hn, hold, -⟩ := hpre.ok.tx
      obtain rfl : n = f := Option.some.inj (hn.symm.trans hf)
      have heff : Effect cfg C k p.world.state (.send request) s := exec_effect hx
      cases heff with
      | carriedOut request hmeets =>
        rw [World.setState_state, carriedOut_eq]
        exact mem_carryOut_of_later hunique hb (hpre.conditional hbackend) hold hg hafter
      | rollback o ho => simp at ho
      | writeUser o userId f ho => cases ho
      | _ => exact hb
    | _ => cases hf
  | env e s hx =>
    cases e with
    | land n =>
      obtain ⟨inFlight, hmem, htx⟩ := Option.bind_eq_some_iff.1 hf
      obtain ⟨hcond, hok⟩ := hp.inv.store.inFlight inFlight (List.mem_of_getElem? hmem)
      obtain ⟨n', hn', hold, -⟩ := hok.tx
      obtain rfl : n' = f := Option.some.inj (hn'.symm.trans htx)
      have hx : env C (.land n) p.world.state = some s := hx
      simp only [env, hmem] at hx
      cases hx
      exact mem_carryOut_of_later hunique hb hcond hold hg hafter
    | _ => cases hf

open Sample in
/-- The object that the first call sent lands in time order after the second call's object. -/
def landsLate (p : Pl) : Bool :=
  match p.next (machine onBucket crates) (.env (.land 0)) with
  | some (.env (.land 0), _) => requester p.world.state (.env (.land 0)) = some 0 &&
      ((p.world.state.blobs.any fun b =>
        b.content = utf8 "b".toList && b.publisher = some 1) &&
        p.world.state.journal = [.acquired 1, .ended 0, .acquired 0])
  | _ => false

open Sample in
/-- The connection of an upload dies while its request to publish is on the way. Another upload
publishes the file meanwhile; then the backend turns to the request. -/
theorem later_object_survives_sample :
    ∃ (p p' : Pl) (b : Blob), Runs onBucket crates False False start p ∧
      p.next (machine onBucket crates) (.env (.land 0)) = some (.env (.land 0), p') ∧
      requester p.world.state (.env (.land 0)) = some 0 ∧ b ∈ p.world.state.blobs ∧
      b.content = utf8 "b".toList ∧ b.publisher = some 1 ∧
      AcquiredAfterEnd 1 0 p.world.state.journal ∧ b ∈ p'.world.state.blobs := by
  have hrun : (start.run (machine onBucket crates) (Admits crates False False)
      (.call 0 (write "/pub/a" (utf8 "a".toList)) :: proceed 0 13 ++
        [.run 0 (.late .unexpected), .env (.lose 0)] ++
        .call 1 (write "/pub/a" (utf8 "b".toList)) :: proceed 1 11)).any landsLate := by
    decide +kernel
  obtain ⟨p, hp, h⟩ := Pool.exists_steps_of_run _ _ hrun
  unfold landsLate at h
  split at h
  · rename_i p' hnext
    simp only [Bool.and_eq_true, decide_eq_true_eq, List.any_eq_true] at h
    obtain ⟨hf, ⟨b, hb, hcontent, hg⟩, hjournal⟩ := h
    have hafter : AcquiredAfterEnd 1 0 p.world.state.journal := by
      rw [hjournal]
      exact .inl ⟨rfl, by simp⟩
    exact ⟨p, p', b, hp, hnext, hf, hb, hcontent, hg, hafter,
      later_object_survives crates_lawful rfl start_initial hp hnext hf hb hg hafter⟩
  · cases h

/-! ## Removals -/

/-- When a blob is removed no entry refers to it, and no other call has published it and not
committed yet; so every entry has its blob. -/
theorem removal_orphans_no_row (hC : C.Lawful) (h₀ : Initial C p₀)
    (hcomplete : p₀.world.state.Complete) (hrun : Runs cfg C False True p₀ p) :
    p.world.state.Complete ∧
      ∀ {a : Conc.Action Choice Env Call} {i : ℕ} {key : Text}
        {expected : Option ExpectedGeneration} {c : Choice} {p' : Pl},
        p.next (machine cfg C) a = some (.op i (.send (.remove key expected)) c, p') →
        (∀ row ∈ p.world.state.entries.rows, ∀ k, p.world.state.userIds[row.user]? = some k →
          k ++ row.path ≠ key) ∧
        ∀ j ≠ i, (j, key) ∉ p.world.state.published := by
  have hp := hrun.poolSafe hC h₀ fun _ => hcomplete
  have hsteady := hp.inv.steady trivial
  refine ⟨hsteady.rows, fun {a i key expected c p'} hnext => ?_⟩
  cases Pool.next_cases _ hnext with
  | op _ _ q _ res s hi hx =>
    have hpre : SendPre cfg C True i (.remove key expected) p.world := (hp.pre hi).2
    obtain ⟨-, e, hkey, hlock, hremove⟩ := hpre.steady trivial
    obtain ⟨-, habsent⟩ := hremove key expected rfl
    have hkey : key = e.asStr C := hkey
    refine ⟨fun row hrow k hk heq => ?_, fun j hj hmem => ?_⟩
    · -- an entry at the key would be one of this user at this path
      obtain ⟨owner, rfl⟩ := hp.inv.users.keys k (List.mem_of_getElem? hk)
      obtain ⟨howner, hpath⟩ := key_inj hC (heq.trans hkey)
      exact habsent row hrow (howner ▸ hk) hpath
    · obtain ⟨e', hkey', hlock'⟩ := hsteady.published j key hmem
      obtain rfl := EntryPath.asStr_injective hC (hkey.symm.trans hkey')
      exact hj (hp.inv.users.locked.excl hlock' hlock)

open Sample in
/-- The next step of the second call removes the only blob. -/
def removesBlob (p : Pl) : Bool :=
  match p.next (machine onFileSystem crates) (.run 1 .done) with
  | some (.op 1 (.send (.remove key none)) .done, p') => key = keyOf alice "/pub/a" &&
      (p.world.state.blobs.map Blob.key = [keyOf alice "/pub/a"] && p'.world.state.blobs = [])
  | _ => false

open Sample in
/-- The blob of a deleted file is about to be removed. -/
theorem removal_orphans_no_row_sample :
    ∃ (p p' : Pl), Runs onFileSystem crates False True start p ∧
      p.next (machine onFileSystem crates) (.run 1 .done) =
        some (.op 1 (.send (.remove (keyOf alice "/pub/a") none)) .done, p') ∧
      p.world.state.blobs.map Blob.key = [keyOf alice "/pub/a"] ∧ p'.world.state.blobs = [] ∧
      p.world.state.Complete ∧
      (∀ row ∈ p.world.state.entries.rows, ∀ k, p.world.state.userIds[row.user]? = some k →
        k ++ row.path ≠ keyOf alice "/pub/a") ∧
      ∀ j ≠ 1, (j, keyOf alice "/pub/a") ∉ p.world.state.published := by
  have hrun : (start.run (machine onFileSystem crates) (Admits crates False True)
      (.call 0 (write "/pub/a" (utf8 "a".toList)) :: proceed 0 19 ++
        .call 1 (remove "/pub/a") :: proceed 1 14)).any removesBlob := by
    decide +kernel
  obtain ⟨p, hp, h⟩ := Pool.exists_steps_of_run _ _ hrun
  unfold removesBlob at h
  split at h
  · rename_i key p' hnext
    simp only [Bool.and_eq_true, decide_eq_true_eq] at h
    obtain ⟨rfl, hblobs, hblobs'⟩ := h
    obtain ⟨hcomplete, hremoval⟩ :=
      removal_orphans_no_row crates_lawful start_initial start_complete hp
    exact ⟨p, p', hp, hnext, hblobs, hblobs', hcomplete, hremoval hnext⟩
  · cases h

end Pubky.Homeserver.Storage

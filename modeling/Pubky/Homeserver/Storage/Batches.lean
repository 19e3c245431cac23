import Mathlib.Data.List.Chain
import Pubky.Homeserver.Storage.Sample

/-!
# Batches of deletes

`QueuedDeletes` of `write_finalization_layer/delete.rs` finalizes its deletes one after the other.
A delete consists of two transactions that fail on their own: one removes the row, with its event
and the accounting, the other the blob. What failed stays queued for another `close`, which deletes
it as a whole again.

* `tryDeletes_answered`: what is left of a queue, whatever the database and the backend answer.
* `deleteEvents_of_chain`: along every run, with other calls in between, a file has one event for
  each time it goes, however often its delete is repeated.
-/

namespace Pubky.Homeserver.Storage

open Conc Conc.Proc

variable {cfg : Config} {C : StorageCrates} {token : Option Text}

/-! ## One close -/

section Close

variable {σ : Type} (answer : (o : Op) → σ → o.Res × σ)

variable (cfg C token) in
/-- The results of deletes, each tried in the state that the ones before it have left. -/
def deleteResults : List EntryPath → σ → List (Except OpendalError Unit)
  | [], _ => []
  | path :: rest, s =>
    let out := (finalizeAndRemoveBlob cfg C path token).run.answeredBy answer s
    out.1 :: deleteResults rest out.2

/-- The error of a result. -/
def errorOf : Except OpendalError Unit → Option OpendalError
  | .ok _ => none
  | .error e => some e

/-- The deletes that failed. -/
def failures (queue : List EntryPath) (results : List (Except OpendalError Unit)) :
    List EntryPath :=
  ((queue.zip results).filter fun x => (errorOf x.2).isSome).map Prod.fst

theorem length_deleteResults (queue : List EntryPath) (s : σ) :
    (deleteResults cfg C token answer queue s).length = queue.length := by
  induction queue generalizing s with
  | nil => rfl
  | cons path rest ih => simp [deleteResults, ih]

/-- What follows a part whose failure is caught. -/
theorem answeredBy_attempt {ε ε' α β : Type} (p : Proc ε' α) (k : Except ε' α → Proc ε β) (s : σ) :
    (attempt p >>= k).run.answeredBy answer s =
      (k (p.run.answeredBy answer s).1).run.answeredBy answer (p.run.answeredBy answer s).2 := by
  refine (Prog.answeredBy_bind answer (attempt p).run _ s).trans ?_
  rw [show (attempt p : Proc ε _).run = p.run >>= fun r => .ret (.ok r) from rfl,
    Prog.answeredBy_bind]
  rfl

/-- The failures stay queued after those that failed before, and the first error is kept. -/
theorem tryDeletes_answered (queue failed : List EntryPath) (firstError : Option OpendalError)
    (s : σ) :
    ((tryDeletes cfg C token queue failed firstError).run.answeredBy answer s).1 =
      .ok (failed ++ failures queue (deleteResults cfg C token answer queue s),
        firstError.or ((deleteResults cfg C token answer queue s).findSome? errorOf)) := by
  induction queue generalizing failed firstError s with
  | nil => simp [tryDeletes, deleteResults, failures, Prog.answeredBy]
  | cons path rest ih =>
    rw [tryDeletes, answeredBy_attempt, deleteResults]
    rcases (finalizeAndRemoveBlob cfg C path token).run.answeredBy answer s with ⟨e | _, s'⟩
    · simp only [ih]
      cases firstError <;> simp [failures, errorOf, List.findSome?_cons]
    · simp only [ih]
      simp [failures, errorOf, List.findSome?_cons]

/-- The first error is the result. -/
theorem processDeleteQueue_answered (queue : List EntryPath) (firstError : Option OpendalError)
    (s : σ) :
    ((processDeleteQueue cfg C token queue firstError).run.answeredBy answer s).1 =
      (firstError.or ((deleteResults cfg C token answer queue s).findSome? errorOf)).elim
        (.ok ()) .error := by
  induction queue generalizing firstError s with
  | nil => cases firstError <;> rfl
  | cons path rest ih =>
    rw [processDeleteQueue, answeredBy_attempt, deleteResults]
    rcases (finalizeAndRemoveBlob cfg C path token).run.answeredBy answer s with ⟨e | _, s'⟩
    · simp only [ih]
      cases firstError <;> simp [errorOf, List.findSome?_cons]
    · simp only [ih]
      simp [errorOf, List.findSome?_cons]

end Close

/-! ## Closing again -/

section Events

variable {p p₀ : Pl} {user : ℕ} {path : Text}

/-- How often the file goes along a run. -/
def deletions (user : ℕ) (path : Text) : List Pl → ℕ
  | p :: p' :: rest =>
    (gone user path p.world.state.ledger p'.world.state.ledger).toNat +
      deletions user path (p' :: rest)
  | _ => 0

/-- Along a run there is one event for each deletion. -/
theorem deleteEvents_of_chain {hC : C.Lawful} {visits : List Pl}
    (hp : (storageLogic cfg hC False False).PoolSafe p) (hl : p.world.state.ledger.Ok)
    (hchain : List.IsChain (Step (machine cfg C) (Admits C False False)) (p :: visits)) :
    ((p :: visits).getLast (List.cons_ne_nil _ _)).world.state.ledger.deleteEvents user path =
      p.world.state.ledger.deleteEvents user path + deletions user path (p :: visits) := by
  induction visits generalizing p with
  | nil => rfl
  | cons p' rest ih =>
    obtain ⟨hstep, hrest⟩ := List.isChain_cons_cons.1 hchain
    have hp' := hp.step storageLogic_callSafe hstep
    obtain ⟨l, a, hnext, -⟩ := hstep
    have hchange := step_change hp (Pool.next_cases _ hnext)
    rw [List.getLast_cons (List.cons_ne_nil _ _),
      ih hp' (hl.change hchange) hrest,
      hchange.deleteEvents hl, deletions, Nat.add_assoc]

end Events

/-- Whatever the database and the backend answer, every delete of a queue is tried, those that fail
stay queued in their order and the first error is reported; and in every run, in which deleters are
closed again and other calls come in between, a file has exactly one more event of a deletion for
each time it goes. -/
theorem batch_keeps_failures (hC : C.Lawful) {p₀ : Pl} (h₀ : Initial C p₀) :
    (∀ (token : Option Text) (queue : List EntryPath) (σ : Type)
        (answer : (o : Op) → σ → o.Res × σ) (s : σ),
      (deleteResults cfg C token answer queue s).length = queue.length ∧
      ((tryDeletes cfg C token queue [] none).run.answeredBy answer s).1 =
        .ok (failures queue (deleteResults cfg C token answer queue s),
          (deleteResults cfg C token answer queue s).findSome? errorOf) ∧
      ((processDeleteQueue cfg C token queue none).run.answeredBy answer s).1 =
        ((deleteResults cfg C token answer queue s).findSome? errorOf).elim (.ok ()) .error) ∧
    ∀ (visits : List Pl) (user : ℕ) (path : Text),
      List.IsChain (Step (machine cfg C) (Admits C False False)) (p₀ :: visits) →
      ((p₀ :: visits).getLast (List.cons_ne_nil _ _)).world.state.ledger.deleteEvents user path =
        p₀.world.state.ledger.deleteEvents user path + deletions user path (p₀ :: visits) := by
  refine ⟨fun token queue σ answer s => ⟨length_deleteResults answer queue s, ?_, ?_⟩,
    fun visits user path hchain => ?_⟩
  · simpa using tryDeletes_answered answer queue [] none s
  · simpa using processDeleteQueue_answered answer queue none s
  · exact deleteEvents_of_chain (h₀.poolSafe hC False.elim) h₀.consistent.ledger hchain

open Sample in
/-- The row of `/pub/a` is removed but its blob is not, and the deleter is closed again. -/
def closedTwice : List (Conc.Action Choice Env Call) :=
  .call 0 (write "/pub/a" (utf8 "a".toList)) :: proceed 0 19 ++
    .call 1 (.operate .app (.delete [keyOf alice "/pub/a"] 1)) :: proceed 1 14 ++
    .run 1 (.failed .unexpected) :: proceed 1 13

open Sample in
/-- The blob goes with the second close, and the file has one event of its deletion. -/
theorem batch_keeps_failures_sample :
    ∃ visits : List Pl,
      List.IsChain (Step (machine onFileSystem crates) (Admits crates False False))
        (start :: visits) ∧
      ((start :: visits).getLast (List.cons_ne_nil _ _)).world.state.blobs = [] ∧
      ((start :: visits).getLast (List.cons_ne_nil _ _)).world.state.events.rows.map EventRow.type =
        ["PUT".toList, "DEL".toList] ∧
      ((start :: visits).getLast (List.cons_ne_nil _ _)).world.state.ledger.deleteEvents 0
          "/pub/a".toList =
        start.world.state.ledger.deleteEvents 0 "/pub/a".toList +
          deletions 0 "/pub/a".toList (start :: visits) := by
  have hrun : (start.run (machine onFileSystem crates) (Admits crates False False)
      closedTwice).any fun p => p.world.state.blobs = [] &&
        p.world.state.events.rows.map EventRow.type = ["PUT".toList, "DEL".toList] := by
    decide +kernel
  obtain ⟨p, hsteps, hp⟩ := Pool.exists_steps_of_run _ _ hrun
  simp only [Bool.and_eq_true, decide_eq_true_eq] at hp
  obtain ⟨visits, hchain, rfl⟩ := List.exists_isChain_cons_of_relationReflTransGen hsteps
  exact ⟨visits, hchain, hp.1, hp.2,
    (batch_keeps_failures crates_lawful start_initial).2 visits 0 _ hchain⟩

end Pubky.Homeserver.Storage

import Pubky.Homeserver.Storage.Bookkeeping
import Pubky.Lib.Transitions

/-!
# The event log

The table `events` with the statements of the transactions that insert into it through
`EventRepository::create` (`persistence/sql/entities/events/repository.rs`). An id is drawn
from a sequence when the row is inserted, and the row becomes visible when the transaction
commits, at any later time. The advisory lock that `create` takes before it draws the id, and
that the transaction keeps until it ends, makes the two orders agree: `EventLog.Ok.next` says
that a commit appends rows with larger ids.
-/

namespace Pubky.Homeserver.Events

open Sql Storage

/-- The table with the sequence behind its ids and the advisory lock on inserting. -/
structure EventLog where
  events : Table EventRow ℕ
  insertLock : Option ℕ
  nextId : ℕ

/-- A statement of a transaction. -/
inductive Statement where
  /-- `pg_advisory_xact_lock`, the first statement of `create` -/
  | lock (tx : ℕ)
  /-- the `INSERT` of `create` -/
  | insert (tx user : ℕ) (type : EventType) (path : Text)
  /-- an `INSERT` that fails after it has drawn an id -/
  | failInsert (tx : ℕ)
  | commit (tx : ℕ)
  | rollback (tx : ℕ)
  deriving DecidableEq

namespace EventLog

/-- The rows a reader sees. -/
def rows (l : EventLog) : List EventRow := l.events.rows

/-- The end of a transaction releases its advisory locks. -/
def finish (l : EventLog) (tx : ℕ) (events : Table EventRow ℕ) : EventLog :=
  { l with events := events, insertLock := l.insertLock.filter (· ≠ tx) }

/-- The effect of a statement; `none` while it waits. `create` inserts only after it has got the
lock. -/
def next (l : EventLog) : Statement → Option EventLog
  | .lock tx => if l.insertLock.any (· ≠ tx) then none else some { l with insertLock := some tx }
  | .insert tx user type path =>
    if l.insertLock = some tx then
      some { l with
        events := l.events.write tx (.put (type.toRow l.nextId user path))
        nextId := l.nextId + 1 }
    else none
  | .failInsert tx =>
    if l.insertLock = some tx then some { l with nextId := l.nextId + 1 } else none
  | .commit tx => some (l.finish tx (l.events.commit tx))
  | .rollback tx => some (l.finish tx (l.events.rollback tx))

/-! ## Commits append -/

/-- Rows in the order of their ids. -/
def Ascending (rows : List EventRow) : Prop :=
  rows.Pairwise fun a b => a.id < b.id

/-- What a transaction has inserted comes after the visible rows. -/
structure Pending (rows : List EventRow) (nextId : ℕ) (evs : List EventRow) : Prop where
  ascending : Ascending (rows ++ evs)
  range : ∀ ev ∈ evs, 0 < ev.id ∧ ev.id < nextId

structure Ok (l : EventLog) : Prop where
  pos : 0 < l.nextId
  ascending : Ascending l.rows
  range : ∀ ev ∈ l.rows, 0 < ev.id ∧ ev.id < l.nextId
  holder : ∀ tx, l.events.writesOf tx ≠ [] → l.insertLock = some tx
  pending : ∀ tx, ∃ evs : List EventRow, l.events.writesOf tx = evs.map Write.put ∧
    Pending l.rows l.nextId evs

/-- Inserted rows that come after the visible ones are appended to them. -/
theorem foldl_put {rows evs : List EventRow} (h : Ascending (rows ++ evs)) :
    (evs.map Write.put).foldl Write.apply rows = rows ++ evs := by
  induction evs generalizing rows with
  | nil => simp
  | cons ev evs ih =>
    have hlast : ∀ old ∈ rows, old.id < ev.id := fun old hold =>
      (List.pairwise_append.1 h).2.2 old hold ev (List.mem_cons_self ..)
    rw [List.map_cons, List.foldl_cons, apply_put_event hlast, ih, List.append_assoc]
    · rfl
    · rwa [List.append_assoc]

variable {l l' : EventLog}

/-- The empty log with an unused sequence. -/
def empty : EventLog := ⟨⟨[], [], []⟩, none, 1⟩

theorem empty_ok : empty.Ok where
  pos := Nat.one_pos
  ascending := List.Pairwise.nil
  range := fun _ h => nomatch h
  holder := fun _ h => absurd rfl h
  pending := fun _ => ⟨[], rfl, List.Pairwise.nil, fun _ h => nomatch h⟩

/-- The holder of the lock inserts the next id. -/
theorem Ok.insert (h : l.Ok) {tx user : ℕ} {type : EventType} {path : Text}
    (hlock : l.insertLock = some tx) :
    ({ l with
        events := l.events.write tx (.put (type.toRow l.nextId user path))
        nextId := l.nextId + 1 } : EventLog).Ok where
  pos := Nat.succ_pos _
  ascending := h.ascending
  range := fun ev hev => ⟨(h.range ev hev).1, Nat.lt_succ_of_lt (h.range ev hev).2⟩
  holder := fun j hj => by
    by_cases hji : j = tx
    · rw [hji]
      exact hlock
    · rw [Table.writesOf_write_of_ne hji] at hj
      exact h.holder j hj
  pending := fun j => by
    obtain ⟨evs, hevs, hp⟩ := h.pending j
    by_cases hji : j = tx
    · subst hji
      have hlt : ∀ ev ∈ l.rows ++ evs, ev.id < l.nextId := fun ev hev =>
        (List.mem_append.1 hev).elim (fun hev => (h.range ev hev).2) fun hev => (hp.range ev hev).2
      refine ⟨evs ++ [type.toRow l.nextId user path], ?_, ?_, ?_⟩
      · rw [Table.writesOf_write_self, hevs, List.map_append]
        rfl
      · have happend : Ascending ((l.rows ++ evs) ++ [type.toRow l.nextId user path]) :=
          List.pairwise_append.2 ⟨hp.ascending, List.pairwise_singleton _ _, fun a ha b hb => by
            rw [List.mem_singleton.1 hb]
            exact hlt a ha⟩
        rwa [List.append_assoc] at happend
      · intro ev hev
        rcases List.mem_append.1 hev with hev | hev
        · exact ⟨(hp.range ev hev).1, Nat.lt_succ_of_lt (hp.range ev hev).2⟩
        · rw [List.mem_singleton.1 hev]
          exact ⟨h.pos, Nat.lt_succ_self _⟩
    · exact ⟨evs, by rw [Table.writesOf_write_of_ne hji, hevs], hp.ascending, fun ev hev =>
        ⟨(hp.range ev hev).1, Nat.lt_succ_of_lt (hp.range ev hev).2⟩⟩

/-- Only the holder of the lock has inserted anything, so nothing is pending after its end. -/
theorem Ok.finish (h : l.Ok) {tx : ℕ} {rows : List EventRow} (hasc : Ascending rows)
    (hrange : ∀ ev ∈ rows, 0 < ev.id ∧ ev.id < l.nextId)
    (hrows : rows = l.rows ∨ l.insertLock = some tx) :
    (l.finish tx (l.events.finish tx rows)).Ok := by
  have hother : ∀ j, (l.events.finish tx rows).writesOf j ≠ [] →
      j ≠ tx ∧ l.insertLock = some j := by
    intro j hj
    have hne : j ≠ tx := by
      rintro rfl
      exact hj Table.writesOf_finish_self
    rw [Table.writesOf_finish_of_ne hne] at hj
    exact ⟨hne, h.holder j hj⟩
  refine ⟨h.pos, hasc, hrange, fun j hj => ?_, fun j => ?_⟩
  · obtain ⟨hne, hlock⟩ := hother j hj
    simp [EventLog.finish, hlock, hne]
  · by_cases hj : (l.events.finish tx rows).writesOf j = []
    · exact ⟨[], hj, by rw [List.append_nil]; exact hasc, fun _ h => nomatch h⟩
    · obtain ⟨hne, hlock⟩ := hother j hj
      obtain ⟨evs, hevs, hp⟩ := h.pending j
      have hsame : rows = l.rows := hrows.resolve_right fun h' =>
        hne (Option.some.inj (hlock.symm.trans h'))
      exact ⟨evs, by rw [← hevs]; exact Table.writesOf_finish_of_ne hne,
        hsame ▸ hp.ascending, hp.range⟩

/-- What a transaction sees is the visible rows and what it has inserted. -/
theorem Ok.view (h : l.Ok) (tx : ℕ) : ∃ evs, l.events.view tx = l.rows ++ evs ∧
    Pending l.rows l.nextId evs ∧ (evs ≠ [] → l.insertLock = some tx) := by
  obtain ⟨evs, hevs, hp⟩ := h.pending tx
  refine ⟨evs, ?_, hp, fun hne => h.holder tx ?_⟩
  · rw [Table.view, hevs]
    exact foldl_put hp.ascending
  · rw [hevs]
    exact fun hnil => hne (List.map_eq_nil_iff.1 hnil)

/-- Every statement keeps the order, and it changes the visible rows only by appending rows with
larger ids. -/
theorem Ok.next (h : l.Ok) {st : Statement} (hst : l.next st = some l') :
    l'.Ok ∧ ∃ news, l'.rows = l.rows ++ news := by
  cases st with
  | lock tx =>
    simp only [EventLog.next] at hst
    split at hst
    · cases hst
    · rename_i hfree
      cases hst
      refine ⟨{ h with holder := fun j hj => ?_ }, [], (List.append_nil _).symm⟩
      have hlock := h.holder j hj
      rw [hlock] at hfree
      have heq : j = tx := by simpa using hfree
      rw [heq]
  | insert tx user type path =>
    simp only [EventLog.next] at hst
    split at hst
    · rename_i hlock
      cases hst
      exact ⟨h.insert hlock, [], (List.append_nil _).symm⟩
    · cases hst
  | failInsert tx =>
    simp only [EventLog.next] at hst
    split at hst
    · cases hst
      refine ⟨{ h with pos := Nat.succ_pos _, range := ?_, pending := ?_ }, [],
        (List.append_nil _).symm⟩
      · exact fun ev hev => ⟨(h.range ev hev).1, Nat.lt_succ_of_lt (h.range ev hev).2⟩
      · intro tx
        obtain ⟨evs, hevs, hp⟩ := h.pending tx
        exact ⟨evs, hevs, hp.ascending, fun ev hev =>
          ⟨(hp.range ev hev).1, Nat.lt_succ_of_lt (hp.range ev hev).2⟩⟩
    · cases hst
  | commit tx =>
    cases hst
    obtain ⟨evs, hview, hp, hholder⟩ := h.view tx
    refine ⟨h.finish ?_ ?_ ?_, evs, hview⟩
    · rw [hview]
      exact hp.ascending
    · intro ev hev
      rw [hview] at hev
      exact (List.mem_append.1 hev).elim (h.range ev) (hp.range ev)
    · rw [hview]
      by_cases hne : evs = []
      · exact .inl (by rw [hne, List.append_nil])
      · exact .inr (hholder hne)
  | rollback tx =>
    cases hst
    exact ⟨h.finish h.ascending h.range (.inl rfl), [], (List.append_nil _).symm⟩

end EventLog

end Pubky.Homeserver.Events

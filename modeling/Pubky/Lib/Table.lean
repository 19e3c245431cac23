import Mathlib.Algebra.BigOperators.Group.List.Basic
import Mathlib.Algebra.Order.Ring.Int
import Mathlib.Data.Fintype.Basic
import Mathlib.Data.List.Nodup

/-!
# Tables under READ COMMITTED

A table of a relational database as the transactions of isolation level READ COMMITTED
see it: the committed rows, the writes of the open transactions, and the row locks they
hold. A statement sees the committed rows with the writes of its own transaction on top;
a write locks its row, and a statement that needs a row locked by another transaction has
to wait. Commit applies the writes of the transaction, rollback forgets them, and both
release its locks.

An `UPDATE` or `DELETE` finds its rows in a snapshot taken when it starts and looks at the
latest version of each of them when it has the lock, so it is issued in two steps:
`Table.scan` and then `Table.deleteScanned`.
-/

set_option linter.unusedSectionVars false

namespace Sql

/-- Rows with a primary key. -/
class Keyed (V : Type) (K : outParam Type) where
  key : V → K

export Keyed (key)

/-- An uncommitted change of one row. -/
inductive Write (V K : Type) where
  | put (v : V)
  | del (k : K)
  deriving Repr, DecidableEq

/-- Committed rows, writes of the open transactions (oldest first) and row locks.
Transactions are numbered. -/
structure Table (V K : Type) where
  rows : List V
  writes : List (ℕ × Write V K)
  locks : List (ℕ × K)

variable {V K : Type} [Keyed V K] [DecidableEq K]

/-- The row with a given key. -/
def lookup (rows : List V) (k : K) : Option V :=
  rows.find? fun r => key r = k

/-- The key a write is about. -/
def Write.key : Write V K → K
  | .put v => Keyed.key v
  | .del k => k

/-- Make a write effective. -/
def Write.apply (rows : List V) : Write V K → List V
  | .put v => rows.filter (fun r => Keyed.key r ≠ Keyed.key v) ++ [v]
  | .del k => rows.filter fun r => Keyed.key r ≠ k

namespace Table

variable (t : Table V K) (i : ℕ)

/-- The writes of transaction `i`. -/
def writesOf : List (Write V K) :=
  (t.writes.filter fun e => e.1 = i).map Prod.snd

/-- The rows that transaction `i` sees. -/
def view : List V :=
  (t.writesOf i).foldl Write.apply t.rows

/-- Another transaction has locked the row with key `k`. -/
def blocked (k : K) : Bool :=
  t.locks.any fun l => l.2 = k ∧ l.1 ≠ i

/-- Record a write of transaction `i` and lock its row. -/
def write (w : Write V K) : Table V K :=
  { t with writes := t.writes ++ [(i, w)], locks := (i, w.key) :: t.locks }

/-- Record the deletion of several rows by transaction `i` and lock them. -/
def deleteAll (ks : List K) : Table V K :=
  ks.foldl (fun t k => t.write i (.del k)) t

/-- Lock a row for transaction `i`. -/
def lock (k : K) : Table V K :=
  { t with locks := (i, k) :: t.locks }

/-- End transaction `i` with the given committed rows. -/
def finish (rows : List V) : Table V K :=
  { rows := rows
    writes := t.writes.filter fun e => e.1 ≠ i
    locks := t.locks.filter fun l => l.1 ≠ i }

def commit : Table V K := t.finish i (t.view i)

def rollback : Table V K := t.finish i t.rows

/-- `SELECT … WHERE key = k FOR UPDATE`; blocked while another transaction has the row. -/
def selectForUpdate (k : K) : Option (Option V × Table V K) :=
  match lookup (t.view i) k with
  | none => some (none, t)
  | some r => if t.blocked i k then none else some (some r, t.lock i k)

/-- `UPDATE … WHERE key = k`, for a change that keeps the key; the answer is the new row. -/
def update (k : K) (f : V → V) : Option (Option V × Table V K) :=
  match lookup (t.view i) k with
  | none => some (none, t)
  | some r => if t.blocked i k then none else some (some (f r), t.write i (.put (f r)))

/-- `INSERT`; the answer says whether the key was free. -/
def insert (v : V) : Option (Bool × Table V K) :=
  if t.blocked i (key v) then none
  else if (lookup (t.view i) (key v)).isSome then some (false, t)
  else some (true, t.write i (.put v))

/-- The snapshot of a `DELETE … WHERE p`: the keys of the rows it finds. -/
def scan (p : V → Bool) : List K :=
  ((t.view i).filter p).map key

/-- The effect of a `DELETE … WHERE p` on the rows it found: those that still satisfy `p`
go, blocked while another transaction has one of them. -/
def deleteScanned (ks : List K) (p : V → Bool) : Option (Table V K) :=
  let doomed := ((t.view i).filter fun r => p r && ks.contains (key r)).map key
  if doomed.any (t.blocked i) then none
  else some (t.deleteAll i doomed)

end Table

/-! ## Rows -/

theorem lookup_eq_some {rows : List V} {k : K} {v : V} (h : lookup rows k = some v) :
    v ∈ rows ∧ key v = k :=
  ⟨List.mem_of_find?_eq_some h, by simpa using List.find?_some h⟩

theorem lookup_eq_none {rows : List V} {k : K} :
    lookup rows k = none ↔ ∀ v ∈ rows, key v ≠ k := by
  simp [lookup]

/-- No two rows share a key. -/
def UniqueKeys (rows : List V) : Prop :=
  (rows.map key).Nodup

theorem UniqueKeys.eq_of_key_eq {rows : List V} (h : UniqueKeys rows) {v w : V} (hv : v ∈ rows)
    (hw : w ∈ rows) (hk : key v = key w) : v = w :=
  List.inj_on_of_nodup_map h hv hw hk

theorem UniqueKeys.lookup {rows : List V} (h : UniqueKeys rows) {v : V} (hv : v ∈ rows) :
    lookup rows (key v) = some v := by
  cases hl : Sql.lookup rows (key v) with
  | none => exact absurd rfl (lookup_eq_none.1 hl v hv)
  | some w =>
    obtain ⟨hw, hk⟩ := lookup_eq_some hl
    rw [h.eq_of_key_eq hw hv hk]

@[simp] theorem Write.mem_apply_put {rows : List V} {v u : V} :
    u ∈ Write.apply rows (.put v) ↔ (u ∈ rows ∧ Keyed.key u ≠ Keyed.key v) ∨ u = v := by
  simp [Write.apply]

@[simp] theorem Write.mem_apply_del {rows : List V} {k : K} {u : V} :
    u ∈ Write.apply rows (.del k : Write V K) ↔ u ∈ rows ∧ Keyed.key u ≠ k := by
  simp [Write.apply]

/-- A row with a new key. -/
theorem UniqueKeys.concat {rows : List V} (h : UniqueKeys rows) {v : V}
    (hnew : ∀ r ∈ rows, key r ≠ key v) : UniqueKeys (rows ++ [v]) := by
  rw [UniqueKeys, List.map_append, List.map_singleton]
  refine List.Nodup.append h (List.nodup_singleton _) fun k hk hk' => ?_
  obtain ⟨r, hr, rfl⟩ := List.mem_map.1 hk
  exact hnew r hr (List.mem_singleton.1 hk')

theorem UniqueKeys.apply {rows : List V} (h : UniqueKeys rows) (w : Write V K) :
    UniqueKeys (w.apply rows) := by
  cases w with
  | put v =>
    have hf : UniqueKeys (rows.filter fun r => key r ≠ key v) :=
      h.sublist (List.filter_sublist.map key)
    exact hf.concat fun r hr => by simpa using (List.mem_filter.1 hr).2
  | del k => exact h.sublist (List.filter_sublist.map key)

theorem UniqueKeys.foldl {rows : List V} (h : UniqueKeys rows) (ws : List (Write V K)) :
    UniqueKeys (ws.foldl Write.apply rows) := by
  induction ws generalizing rows with
  | nil => exact h
  | cons w ws ih => exact ih (h.apply w)

/-- The row of a key, taken out of a sum over all rows. -/
theorem UniqueKeys.sum_filter {rows : List V} (h : UniqueKeys rows) (f : V → ℕ) (k : K) :
    ((rows.filter fun r => key r ≠ k).map f).sum + ((Sql.lookup rows k).map f).getD 0 =
      (rows.map f).sum := by
  induction rows with
  | nil => rfl
  | cons r rows ih =>
    obtain ⟨hr, hrows⟩ := List.nodup_cons.1 h
    have ih := ih hrows
    by_cases hk : key r = k
    · -- no other row has this key
      have hnone : Sql.lookup rows k = none :=
        lookup_eq_none.2 fun v hv hkv => hr (List.mem_map.2 ⟨v, hv, hkv.trans hk.symm⟩)
      have hfind : Sql.lookup (r :: rows) k = some r := by simp [Sql.lookup, hk]
      rw [hnone] at ih
      rw [hfind, List.filter_cons_of_neg (by simp [hk]), List.map_cons, List.sum_cons, ← ih]
      simp only [Option.map_some, Option.map_none, Option.getD_some, Option.getD_none]
      omega
    · have hfind : Sql.lookup (r :: rows) k = Sql.lookup rows k := by simp [Sql.lookup, hk]
      rw [hfind, List.filter_cons_of_pos (by simp [hk]), List.map_cons, List.map_cons,
        List.sum_cons, List.sum_cons, ← ih]
      omega

/-- A row that none of the writes is about stays, and no other row of its key comes. -/
theorem mem_foldl_of_untouched {rows : List V} {ws : List (Write V K)} {v : V}
    (h : ∀ w ∈ ws, w.key ≠ key v) : v ∈ ws.foldl Write.apply rows ↔ v ∈ rows := by
  induction ws generalizing rows with
  | nil => rfl
  | cons w ws ih =>
    rw [List.foldl_cons, ih fun w' hw' => h w' (by simp [hw'])]
    have hw : w.key ≠ key v := h w (by simp)
    cases w with
    | put u =>
      rw [Write.mem_apply_put]
      constructor
      · rintro (⟨hv, -⟩ | rfl)
        · exact hv
        · exact absurd rfl hw
      · exact fun hv => .inl ⟨hv, Ne.symm hw⟩
    | del k =>
      rw [Write.mem_apply_del]
      exact ⟨fun hv => hv.1, fun hv => ⟨hv, Ne.symm hw⟩⟩

theorem mem_foldl_del {rows : List V} {ks : List K} {v : V} :
    v ∈ (ks.map .del : List (Write V K)).foldl Write.apply rows ↔ v ∈ rows ∧ key v ∉ ks := by
  induction ks generalizing rows with
  | nil => simp
  | cons k ks ih =>
    rw [List.map_cons, List.foldl_cons, ih, Write.mem_apply_del, List.mem_cons, not_or, and_assoc]

theorem mem_or_put_of_mem_foldl {rows : List V} {ws : List (Write V K)} {v : V}
    (h : v ∈ ws.foldl Write.apply rows) : v ∈ rows ∨ .put v ∈ ws := by
  induction ws generalizing rows with
  | nil => exact .inl h
  | cons w ws ih =>
    rcases ih h with h | h
    · cases w with
      | put u =>
        rcases Write.mem_apply_put.1 h with ⟨hv, -⟩ | rfl
        · exact .inl hv
        · exact .inr (by simp)
      | del k => exact .inl (Write.mem_apply_del.1 h).1
    · exact .inr (List.mem_cons_of_mem _ h)

/-- Without deletions every key stays. -/
theorem exists_key_of_mem_foldl {rows : List V} {ws : List (Write V K)}
    (hws : ∀ k, .del k ∉ ws) {v : V} (hv : v ∈ rows) :
    ∃ v' ∈ ws.foldl Write.apply rows, key v' = key v := by
  induction ws generalizing rows v with
  | nil => exact ⟨v, hv, rfl⟩
  | cons w ws ih =>
    have hws' : ∀ k, .del k ∉ ws := fun k hk => hws k (List.mem_cons_of_mem _ hk)
    cases w with
    | del k => exact absurd (by simp) (hws k)
    | put u =>
      by_cases hk : key v = key u
      · obtain ⟨v', hv', hk'⟩ := ih hws'
          (show u ∈ Write.apply rows (.put u : Write V K) by simp)
        exact ⟨v', hv', hk'.trans hk.symm⟩
      · exact ih hws' (by simp [hv, hk])

/-! ## Locks and pending writes -/

namespace Table

variable {t : Table V K} {i j : ℕ} {k : K} {w : Write V K} {rows : List V}

theorem blocked_eq_false : t.blocked i k = false ↔ ∀ j, (j, k) ∈ t.locks → j = i := by
  simp only [blocked, List.any_eq_false, decide_eq_true_eq, not_and, not_not, Prod.forall]
  exact ⟨fun h j hj => h j k hj rfl, fun h j k' hj hk => h j (hk ▸ hj)⟩

@[simp] theorem write_rows : (t.write i w).rows = t.rows := rfl
@[simp] theorem lock_rows : (t.lock i k).rows = t.rows := rfl
@[simp] theorem lock_writes : (t.lock i k).writes = t.writes := rfl
@[simp] theorem finish_rows : (t.finish i rows).rows = rows := rfl
@[simp] theorem commit_rows : (t.commit i).rows = t.view i := rfl
@[simp] theorem rollback_rows : (t.rollback i).rows = t.rows := rfl
@[simp] theorem mem_locks_write {l : ℕ × K} :
    l ∈ (t.write i w).locks ↔ l = (i, w.key) ∨ l ∈ t.locks := List.mem_cons
@[simp] theorem mem_locks_lock {l : ℕ × K} :
    l ∈ (t.lock i k).locks ↔ l = (i, k) ∨ l ∈ t.locks := List.mem_cons
@[simp] theorem mem_locks_finish {l : ℕ × K} :
    l ∈ (t.finish i rows).locks ↔ l ∈ t.locks ∧ l.1 ≠ i := by
  simp [finish]

@[simp] theorem writesOf_lock : (t.lock i k).writesOf j = t.writesOf j := rfl

@[simp] theorem writesOf_write_self : (t.write i w).writesOf i = t.writesOf i ++ [w] := by
  simp [writesOf, write]

theorem writesOf_write_of_ne (h : j ≠ i) : (t.write i w).writesOf j = t.writesOf j := by
  simp [writesOf, write, Ne.symm h]

@[simp] theorem writesOf_finish_self : (t.finish i rows).writesOf i = [] := by
  simp [writesOf, finish]

theorem writesOf_finish_of_ne (h : j ≠ i) : (t.finish i rows).writesOf j = t.writesOf j := by
  simp only [writesOf, finish, List.filter_filter]
  congr 2
  funext e
  by_cases he : e.1 = j <;> simp [he, h]

@[simp] theorem deleteAll_nil : t.deleteAll i [] = t := rfl

theorem deleteAll_cons {ks : List K} :
    t.deleteAll i (k :: ks) = (t.write i (.del k)).deleteAll i ks := rfl

@[simp] theorem deleteAll_rows {ks : List K} : (t.deleteAll i ks).rows = t.rows := by
  induction ks generalizing t with
  | nil => rfl
  | cons k ks ih => exact ih

@[simp] theorem writesOf_deleteAll_self {ks : List K} :
    (t.deleteAll i ks).writesOf i = t.writesOf i ++ ks.map .del := by
  induction ks generalizing t with
  | nil => simp
  | cons k ks ih => simp [deleteAll_cons, ih]

theorem writesOf_deleteAll_of_ne {ks : List K} (h : j ≠ i) :
    (t.deleteAll i ks).writesOf j = t.writesOf j := by
  induction ks generalizing t with
  | nil => rfl
  | cons k ks ih => rw [deleteAll_cons, ih, writesOf_write_of_ne h]

theorem mem_writesOf_of_finish (h : w ∈ (t.finish i rows).writesOf j) : w ∈ t.writesOf j := by
  by_cases hj : j = i
  · subst hj
    simp at h
  · rwa [writesOf_finish_of_ne hj] at h

theorem mem_writesOf_write {w' : Write V K} (h : w' ∈ (t.write i w).writesOf j) :
    w' ∈ t.writesOf j ∨ w' = w := by
  by_cases hj : j = i
  · subst hj
    simpa using h
  · exact .inl (by rwa [writesOf_write_of_ne hj] at h)

theorem put_mem_writesOf_of_deleteAll {ks : List K} {v : V}
    (h : .put v ∈ (t.deleteAll i ks).writesOf j) : .put v ∈ t.writesOf j := by
  by_cases hj : j = i
  · subst hj
    simpa using h
  · rwa [writesOf_deleteAll_of_ne hj] at h

theorem view_of_writesOf_eq_nil (h : t.writesOf i = []) : t.view i = t.rows := by
  rw [view, h, List.foldl_nil]

/-- A row is locked by at most one transaction, and a written row is locked by its writer. -/
structure Locked (t : Table V K) : Prop where
  excl : ∀ {i j k}, (i, k) ∈ t.locks → (j, k) ∈ t.locks → i = j
  writes : ∀ {i w}, w ∈ t.writesOf i → (i, w.key) ∈ t.locks

theorem Locked.lock (h : t.Locked) (hb : t.blocked i k = false) : (t.lock i k).Locked where
  excl := by
    intro a b k' ha hb'
    rw [blocked_eq_false] at hb
    simp only [mem_locks_lock, Prod.mk.injEq] at ha hb'
    rcases ha with ⟨rfl, rfl⟩ | ha <;> rcases hb' with ⟨rfl, h2⟩ | hb'
    · rfl
    · exact (hb b hb').symm
    · exact hb a (h2 ▸ ha)
    · exact h.excl ha hb'
  writes := fun hw => mem_locks_lock.2 (.inr (h.writes hw))

theorem Locked.write (h : t.Locked) (hb : t.blocked i w.key = false) : (t.write i w).Locked where
  excl := (h.lock hb).excl
  writes := by
    intro j w' hw'
    by_cases hj : j = i
    · subst hj
      rw [writesOf_write_self, List.mem_append, List.mem_singleton] at hw'
      rcases hw' with hw' | rfl
      · exact mem_locks_write.2 (.inr (h.writes hw'))
      · exact mem_locks_write.2 (.inl rfl)
    · rw [writesOf_write_of_ne hj] at hw'
      exact mem_locks_write.2 (.inr (h.writes hw'))

theorem Locked.deleteAll (h : t.Locked) {ks : List K}
    (hb : ∀ k ∈ ks, t.blocked i k = false) : (t.deleteAll i ks).Locked := by
  induction ks generalizing t with
  | nil => exact h
  | cons k ks ih =>
    have hk : t.blocked i k = false := hb k (by simp)
    refine ih (h.write hk) fun k' hk' => ?_
    have hk'' := blocked_eq_false.1 (hb k' (by simp [hk']))
    refine blocked_eq_false.2 fun j hj => ?_
    rcases mem_locks_write.1 hj with heq | hj
    · exact (Prod.mk.inj heq).1
    · exact hk'' j hj

theorem Locked.finish (h : t.Locked) : (t.finish i rows).Locked where
  excl := fun ha hb => h.excl (mem_locks_finish.1 ha).1 (mem_locks_finish.1 hb).1
  writes := by
    intro j w hw
    by_cases hj : j = i
    · subst hj
      simp at hw
    · rw [writesOf_finish_of_ne hj] at hw
      exact mem_locks_finish.2 ⟨h.writes hw, hj⟩

end Table

end Sql

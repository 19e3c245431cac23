import Pubky.Homeserver.Grant.Effects

/-!
# What an operation leaves alone

* `State.tx` is the part of the state that belongs to a call: the uncommitted writes and the
  recorded statements of its transaction. Other calls never change it (`Effect.tx_eq`).
* A call is `Idle` when it has no open transaction. Operations outside of a transaction keep
  it so (`Effect.idle`).
-/

namespace Pubky.Homeserver.Grant

open Sql

variable {τ : Type} [Field τ] [LinearOrder τ] {C : Crates} {i j : ℕ} {s s' : State τ} {o : Op τ}

/-! ## Recorded statements -/

namespace State

variable {stmt : Stmt τ}

@[simp] theorem pendingOf_issue_self : (s.issue i stmt).pendingOf i = s.pendingOf i ++ [stmt] := by
  simp [pendingOf, issue]

theorem pendingOf_issue_of_ne (h : j ≠ i) : (s.issue i stmt).pendingOf j = s.pendingOf j := by
  simp [pendingOf, issue, Ne.symm h]

theorem mem_pendingOf_issue {st : Stmt τ} :
    st ∈ (s.issue i stmt).pendingOf j ↔ st ∈ s.pendingOf j ∨ j = i ∧ st = stmt := by
  by_cases h : j = i
  · subst h
    simp
  · simp [pendingOf_issue_of_ne h, h]

/-- The statements of the other transactions when that of call `i` ends. -/
theorem filter_pending_of_ne (h : j ≠ i) :
    ((s.pending.filter fun e => e.1 ≠ i).filter fun e => e.1 = j) =
      s.pending.filter fun e => e.1 = j := by
  rw [List.filter_filter]
  refine List.filter_congr fun e _ => ?_
  by_cases he : e.1 = j <;> simp [he, h]

theorem pendingOf_commit_of_ne (h : j ≠ i) : (s.commit i).pendingOf j = s.pendingOf j := by
  simp only [pendingOf, commit, filter_pending_of_ne h]

theorem pendingOf_rollback_of_ne (h : j ≠ i) : (s.rollback i).pendingOf j = s.pendingOf j := by
  simp only [pendingOf, rollback, filter_pending_of_ne h]

@[simp] theorem pendingOf_commit_self : (s.commit i).pendingOf i = [] := by
  simp [pendingOf, commit]

@[simp] theorem pendingOf_rollback_self : (s.rollback i).pendingOf i = [] := by
  simp [pendingOf, rollback]

end State

/-! ## Transactions -/

/-- The open transaction of a call. -/
@[ext]
structure Tx (τ : Type) where
  users : List (Write UserRow Text)
  quotas : List (Write QuotaRow ℕ)
  signupCodes : List (Write SignupCodeRow Text)
  grants : List (Write (GrantRow τ) Text)
  sessions : List (Write GrantSessionRow Bytes)
  stmts : List (Stmt τ)

/-- What call `i` has written and not committed yet. -/
def State.tx (s : State τ) (i : ℕ) : Tx τ where
  users := s.users.writesOf i
  quotas := s.quotas.writesOf i
  signupCodes := s.signupCodes.writesOf i
  grants := s.grants.writesOf i
  sessions := s.sessions.writesOf i
  stmts := s.pendingOf i

/-- Call `i` has no open transaction, or has not written in it. -/
structure Idle (s : State τ) (i : ℕ) : Prop where
  users : s.users.writesOf i = []
  quotas : s.quotas.writesOf i = []
  signupCodes : s.signupCodes.writesOf i = []
  grants : s.grants.writesOf i = []
  sessions : s.sessions.writesOf i = []
  pending : s.pendingOf i = []

theorem Idle.congr (h : Idle s i) (htx : s'.tx i = s.tx i) : Idle s' i where
  users := (congrArg Tx.users htx).trans h.users
  quotas := (congrArg Tx.quotas htx).trans h.quotas
  signupCodes := (congrArg Tx.signupCodes htx).trans h.signupCodes
  grants := (congrArg Tx.grants htx).trans h.grants
  sessions := (congrArg Tx.sessions htx).trans h.sessions
  pending := (congrArg Tx.stmts htx).trans h.pending

theorem idle_commit : Idle (s.commit i) i where
  users := Table.writesOf_finish_self
  quotas := Table.writesOf_finish_self
  signupCodes := Table.writesOf_finish_self
  grants := Table.writesOf_finish_self
  sessions := Table.writesOf_finish_self
  pending := State.pendingOf_commit_self

theorem idle_rollback : Idle (s.rollback i) i where
  users := Table.writesOf_finish_self
  quotas := Table.writesOf_finish_self
  signupCodes := Table.writesOf_finish_self
  grants := Table.writesOf_finish_self
  sessions := Table.writesOf_finish_self
  pending := State.pendingOf_rollback_self

theorem tx_issue_of_ne {stmt : Stmt τ} (h : j ≠ i) : (s.issue i stmt).tx j = s.tx j := by
  ext1 <;> first | rfl | exact State.pendingOf_issue_of_ne h

theorem tx_commit_of_ne (h : j ≠ i) : (s.commit i).tx j = s.tx j := by
  ext1 <;> first
    | exact Table.writesOf_finish_of_ne h
    | exact State.pendingOf_commit_of_ne h

theorem tx_rollback_of_ne (h : j ≠ i) : (s.rollback i).tx j = s.tx j := by
  ext1 <;> first
    | exact Table.writesOf_finish_of_ne h
    | exact State.pendingOf_rollback_of_ne h

/-- Nobody touches another call's transaction. -/
theorem Effect.tx_eq (h : Effect C i s o s') (hj : j ≠ i) : s'.tx j = s.tx j := by
  cases h with
  | same | now | mint | userConflict | garbageCollect | createGrant | trackNonce | lockGrant => rfl
  | commit => exact tx_commit_of_ne hj
  | rollback => exact tx_rollback_of_ne hj
  | revokeNone | notifyGrant => exact tx_issue_of_ne hj
  | createUser | setQuota | markAsUsed | revoke | insertSession =>
    rw [tx_issue_of_ne hj]
    ext1 <;> first | rfl | exact Table.writesOf_write_of_ne hj
  | deleteSessions =>
    rw [tx_issue_of_ne hj]
    ext1 <;> first | rfl | exact Table.writesOf_deleteAll_of_ne hj

/-- Nor does the environment. -/
theorem env_tx_eq {e : Env τ} (h : env e s = some s') : s'.tx j = s.tx j := by
  rcases env_cases h with ⟨t, -, rfl⟩ | ⟨row, -, -, rfl⟩ <;> rfl

/-- Only the environment lets time pass. -/
theorem Effect.clock_eq (h : Effect C i s o s') : s'.clock = s.clock := by
  cases h <;> rfl

/-- The operations that a call issues outside of its transactions. -/
def Op.Pooled : Op τ → Prop
  | .createUser _ | .setQuota _ _ | .markAsUsed _ _ | .revoke _ _ | .lockGrant _ | .deleteSessions _ _
  | .insertSession _ | .notifyGrant _ => False
  | _ => True

theorem Effect.idle (h : Effect C i s o s') (ho : o.Pooled) (hi : Idle s i) : Idle s' i := by
  cases h with
  | same | now | mint | garbageCollect | createGrant | trackNonce => exact hi.congr rfl
  | commit => exact idle_commit
  | rollback => exact idle_rollback
  | userConflict | createUser | setQuota | markAsUsed | revokeNone | revoke | lockGrant | deleteSessions
  | insertSession | notifyGrant => exact ho.elim

end Pubky.Homeserver.Grant

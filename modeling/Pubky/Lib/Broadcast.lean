import Mathlib.Algebra.BigOperators.Group.List.Basic
import Mathlib.Algebra.Order.Ring.Int
import Mathlib.Data.Fintype.Basic

/-!
# Bounded broadcast channels

A channel with many receivers that keeps the last `capacity` values in a ring. Sending never
waits: a receiver that is too slow loses the oldest values and is told so when it next
receives, whereupon it continues with the oldest value that is left. After the last sender is
gone a receiver still gets what is in the ring.

A channel is represented by everything ever sent on it, a receiver by its position in that.
-/

namespace Broadcast

structure Channel (α : Type) where
  sent : List α
  capacity : ℕ
  /-- Every sender is gone. -/
  closed : Bool
  deriving DecidableEq

/-- What a receiver is told. -/
inductive Received (α : Type) where
  | value (a : α)
  | empty
  | lagged
  | closed
  deriving DecidableEq

namespace Channel

variable {α : Type} (c : Channel α)

/-- The position of a new receiver. -/
def subscribe : ℕ := c.sent.length

def send (a : α) : Channel α :=
  { c with sent := c.sent ++ [a] }

/-- The position of the oldest value in the ring. -/
def oldest : ℕ := c.sent.length - c.capacity

/-- Receive at position `next`; also gives the position after it. -/
def tryRecv (next : ℕ) : Received α × ℕ :=
  if next < c.oldest then (.lagged, c.oldest)
  else
    match c.sent[next]? with
    | some a => (.value a, next + 1)
    | none => (if c.closed then .closed else .empty, next)

variable {c} {a : α} {next next' : ℕ}

theorem tryRecv_value (h : c.tryRecv next = (.value a, next')) :
    c.sent[next]? = some a ∧ next' = next + 1 := by
  unfold tryRecv at h
  split at h
  · cases h
  · split at h
    · rename_i b hb
      cases h
      exact ⟨hb, rfl⟩
    · split at h <;> cases h

end Channel

end Broadcast

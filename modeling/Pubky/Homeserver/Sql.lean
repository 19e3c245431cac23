import Mathlib.Algebra.BigOperators.Group.List.Basic
import Mathlib.Algebra.Order.Ring.Int
import Mathlib.Data.Fintype.Basic

/-!
# Answers of the database

What the services tell apart of `sqlx::Error`, and how a query turns into a result: a row is
missing, a column does not decode, or the database fails.
-/

namespace Pubky.Homeserver

/-- What the services tell apart of `sqlx::Error`. -/
inductive SqlError where
  | rowNotFound
  | decode
  | database
  deriving DecidableEq, Repr

variable {ε α : Type}

def decoded : Except ε α → Except SqlError α
  | .ok a => .ok a
  | .error _ => .error .decode

def decodedOption : Option α → Except SqlError α
  | some a => .ok a
  | none => .error .decode

/-- `fetch_one` -/
def found : Option α → Except SqlError α
  | some a => .ok a
  | none => .error .rowNotFound

@[simp] theorem decoded_eq_ok {x : Except ε α} {a : α} : decoded x = .ok a ↔ x = .ok a := by
  cases x <;> simp [decoded]

@[simp] theorem decodedOption_eq_ok {x : Option α} {a : α} :
    decodedOption x = .ok a ↔ x = some a := by
  cases x <;> simp [decodedOption]

@[simp] theorem found_eq_ok {x : Option α} {a : α} : found x = .ok a ↔ x = some a := by
  cases x <;> simp [found]

end Pubky.Homeserver

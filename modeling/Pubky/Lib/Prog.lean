import Mathlib.Algebra.BigOperators.Group.List.Basic
import Mathlib.Algebra.Order.Ring.Int
import Mathlib.Data.Fintype.Basic

/-!
# Programs of atomic operations

A concurrent procedure is written as a tree of atomic operations: it issues an
operation, receives an answer and goes on with the rest of the tree. Between two
operations any other thread may run, so the tree fixes exactly the points at
which an interleaving can occur.

* `Prog` is the monad of such trees, `Prog.perform` issues one operation.
* `Prog.Uses P p` says that every operation `p` can issue satisfies `P`, `Prog.Gives Q p` that
  every result it can have satisfies `Q`.
* `Prog.runWith answers p` is the result of `p` if every operation gets the answer that `answers`
  has for it.
* `Prog.answeredBy answer p` runs `p` against an environment with a state of its own.
-/

namespace Conc

/-- A program whose operations `o : Op` are answered with values of type `Res o`. -/
inductive Prog (Op : Type) (Res : Op → Type) (α : Type) where
  | ret (a : α)
  | op (o : Op) (k : Res o → Prog Op Res α)

namespace Prog

variable {Op : Type} {Res : Op → Type} {α β γ : Type}

/-- Sequencing: run `p`, then go on with `f` applied to its result. -/
def bind : Prog Op Res α → (α → Prog Op Res β) → Prog Op Res β
  | ret a, f => f a
  | op o k, f => op o fun r => (k r).bind f

/-- Issue one operation and return its answer. -/
def perform (o : Op) : Prog Op Res (Res o) :=
  op o ret

instance : Monad (Prog Op Res) where
  pure := ret
  bind := bind

@[simp] theorem pure_eq (a : α) : (pure a : Prog Op Res α) = ret a := rfl

@[simp] theorem ret_bind (a : α) (f : α → Prog Op Res β) : (ret a >>= f) = f a := rfl

@[simp] theorem op_bind (o : Op) (k : Res o → Prog Op Res α) (f : α → Prog Op Res β) :
    (op o k >>= f) = op o fun r => k r >>= f := rfl

@[simp] theorem perform_bind (o : Op) (f : Res o → Prog Op Res β) :
    (perform o >>= f) = op o f := rfl

/-- The result of a program, given the answer to every operation. -/
def runWith (answers : (o : Op) → Res o) : Prog Op Res α → α
  | ret a => a
  | op o k => (k (answers o)).runWith answers

/-- The result of a program whose operations an environment answers from a state of its own. -/
def answeredBy {σ : Type} (answer : (o : Op) → σ → Res o × σ) : Prog Op Res α → σ → α × σ
  | ret a, s => (a, s)
  | op o k, s => (k (answer o s).1).answeredBy answer (answer o s).2

theorem answeredBy_bind {σ : Type} (answer : (o : Op) → σ → Res o × σ) (p : Prog Op Res α)
    (f : α → Prog Op Res β) (s : σ) : (p >>= f).answeredBy answer s =
      (f (p.answeredBy answer s).1).answeredBy answer (p.answeredBy answer s).2 := by
  induction p generalizing s with
  | ret a => rfl
  | op o k ih => exact ih _ _

/-- Every operation the program can issue, whatever the answers, satisfies `P`. -/
def Uses (P : Op → Prop) : Prog Op Res α → Prop
  | ret _ => True
  | op o k => P o ∧ ∀ r, (k r).Uses P

variable {P : Op → Prop}

@[simp] theorem uses_ret (a : α) : (ret a : Prog Op Res α).Uses P := trivial

@[simp] theorem uses_perform {o : Op} : (perform o : Prog Op Res _).Uses P ↔ P o := by
  simp [perform, Uses]

theorem Uses.bind {p : Prog Op Res α} {f : α → Prog Op Res β} (hp : p.Uses P)
    (hf : ∀ a, (f a).Uses P) : (p >>= f).Uses P := by
  induction p with
  | ret a => exact hf a
  | op o k ih => exact ⟨hp.1, fun r => ih r (hp.2 r)⟩

theorem Uses.of_bind {p : Prog Op Res α} {f : α → Prog Op Res β} (h : (p >>= f).Uses P) :
    p.Uses P := by
  induction p with
  | ret a => trivial
  | op o k ih => exact ⟨h.1, fun r => ih r (h.2 r)⟩

theorem Uses.mono {P' : Op → Prop} {p : Prog Op Res α} (hp : p.Uses P)
    (h : ∀ o, P o → P' o) : p.Uses P' := by
  induction p with
  | ret a => trivial
  | op o k ih => exact ⟨h o hp.1, fun r => ih r (hp.2 r)⟩

/-- Every result the program can have, whatever the answers, satisfies `Q`. -/
def Gives (Q : α → Prop) : Prog Op Res α → Prop
  | ret a => Q a
  | op _ k => ∀ r, (k r).Gives Q

theorem Gives.bind {Q : α → Prop} {Q' : β → Prop} {p : Prog Op Res α} {f : α → Prog Op Res β}
    (hp : p.Gives Q) (hf : ∀ a, Q a → (f a).Gives Q') : (p >>= f).Gives Q' := by
  induction p with
  | ret a => exact hf a hp
  | op o k ih => exact fun r => ih r (hp r)

theorem gives_of_forall {Q : α → Prop} {p : Prog Op Res α} (h : ∀ a, Q a) : p.Gives Q := by
  induction p with
  | ret a => exact h a
  | op o k ih => exact ih

/-- What follows only has to do with results that there can be. -/
theorem Uses.bind_of_gives {Q : α → Prop} {p : Prog Op Res α} {f : α → Prog Op Res β}
    (hp : p.Uses P) (hQ : p.Gives Q) (hf : ∀ a, Q a → (f a).Uses P) : (p >>= f).Uses P := by
  induction p with
  | ret a => exact hf a hQ
  | op o k ih => exact ⟨hp.1, fun r => ih r (hp.2 r) (hQ r)⟩

end Prog

end Conc

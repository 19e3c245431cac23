import Mathlib.Algebra.BigOperators.Group.List.Basic
import Mathlib.Algebra.Order.Ring.Int
import Mathlib.Data.Fintype.Basic
import Mathlib.Logic.Relation

/-!
# Transition systems given by a step function

A system is a partial function from a state and an action to the next state. `Reaches` is the
relation of its runs under an assumption on the actions, `exec` executes a schedule.
-/

namespace Transitions

variable {σ α : Type} (next : σ → α → Option σ) (allow : σ → α → Prop)

/-- A transition by an action that `allow` admits. -/
def Step (s s' : σ) : Prop :=
  ∃ a, allow s a ∧ next s a = some s'

/-- Runs of any number of admitted transitions. -/
def Reaches : σ → σ → Prop :=
  Relation.ReflTransGen (Step next allow)

/-- Execute a schedule, checking every action. -/
def exec (check : σ → α → Bool) (s : σ) : List α → Option σ
  | [] => some s
  | a :: as => if check s a then (next s a).bind fun s' => exec check s' as else none

variable {next allow} {s s' : σ}

theorem Reaches.of_exec {check : σ → α → Bool} {as : List α}
    (h : exec next check s as = some s') (hcheck : ∀ s a, check s a = true → allow s a) :
    Reaches next allow s s' := by
  induction as generalizing s with
  | nil =>
    cases h
    exact .refl
  | cons a as ih =>
    simp only [exec] at h
    split at h
    · rename_i hc
      obtain ⟨t, hstep, hrest⟩ := Option.bind_eq_some_iff.1 h
      exact .head ⟨a, hcheck s a hc, hstep⟩ (ih hrest)
    · cases h

/-- What holds at the start and is kept by every admitted transition holds along the run. -/
theorem Reaches.invariant {I : σ → Prop} (h : Reaches next allow s s') (hs : I s)
    (hstep : ∀ t a t', I t → allow t a → next t a = some t' → I t') : I s' := by
  induction h with
  | refl => exact hs
  | tail _ hlast ih =>
    obtain ⟨a, ha, hnext⟩ := hlast
    exact hstep _ a _ ih ha hnext

theorem Reaches.mono {allow' : σ → α → Prop} (h : Reaches next allow s s')
    (hle : ∀ t a, allow t a → allow' t a) : Reaches next allow' s s' :=
  Relation.ReflTransGen.mono (fun _ _ ⟨a, ha, ht⟩ => ⟨a, hle _ a ha, ht⟩) _ _ h

/-- A goal is reached if, short of it, some admitted transition reaches it or decreases a
well-founded variant. -/
theorem Reaches.of_variant {β : Type} [LT β] [WellFoundedLT β] {I Q : σ → Prop} (μ : σ → β)
    (hstep : ∀ t, I t → ¬ Q t →
      ∃ a t', allow t a ∧ next t a = some t' ∧ I t' ∧ (Q t' ∨ μ t' < μ t))
    (hs : I s) : ∃ s', Reaches next allow s s' ∧ I s' ∧ Q s' := by
  induction hμ : μ s using WellFoundedLT.induction generalizing s with
  | ind m ih =>
    by_cases hQ : Q s
    · exact ⟨s, .refl, hs, hQ⟩
    obtain ⟨a, t, ha, ht, hI, hgoal⟩ := hstep s hs hQ
    rcases hgoal with hgoal | hlt
    · exact ⟨t, .single ⟨a, ha, ht⟩, hI, hgoal⟩
    · obtain ⟨s', hreach, hI', hQ'⟩ := ih (μ t) (hμ ▸ hlt) hI rfl
      exact ⟨s', hreach.head ⟨a, ha, ht⟩, hI', hQ'⟩

end Transitions

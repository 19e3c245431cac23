import Mathlib.Data.List.Forall2
import Mathlib.Data.List.Infix
import Mathlib.Data.List.Lex
import Mathlib.Order.Cover
import Pubky.Lib.Text

/-!
# Related lists, prefixes and orders

Members of lists that are related element by element; fallible maps and folds; the prefixes of a
strictly ascending list, where a prefix is extended by the least element that it lacks; and the
lists that sort between two neighbours in the lexicographic order (`between_concat_iff`).
-/

namespace List

variable {α β : Type}

theorem Forall₂.exists_of_mem_left {R : α → β → Prop} {l : List α} {m : List β}
    (h : Forall₂ R l m) {a : α} (ha : a ∈ l) : ∃ b ∈ m, R a b := by
  induction h with
  | nil => exact absurd ha not_mem_nil
  | cons hab _ ih =>
    rcases mem_cons.1 ha with rfl | ha
    · exact ⟨_, mem_cons_self .., hab⟩
    · obtain ⟨b, hb, hR⟩ := ih ha
      exact ⟨b, mem_cons_of_mem _ hb, hR⟩

theorem Forall₂.exists_of_mem_right {R : α → β → Prop} {l : List α} {m : List β}
    (h : Forall₂ R l m) {b : β} (hb : b ∈ m) : ∃ a ∈ l, R a b :=
  h.flip.exists_of_mem_left hb

/-- A fallible function gives a list exactly if it gives each of its elements. -/
theorem mapM_eq_ok {ε : Type} {f : α → Except ε β} {l : List α} {m : List β} :
    l.mapM f = .ok m ↔ Forall₂ (fun a b => f a = .ok b) l m := by
  induction l generalizing m with
  | nil =>
    rw [mapM_nil, forall₂_nil_left_iff]
    exact ⟨fun h => (Except.ok.inj h).symm, fun h => congrArg Except.ok h.symm⟩
  | cons a l ih =>
    simp only [mapM_cons, Except.bind_ok_iff, ih, forall₂_cons_left_iff]
    constructor
    · rintro ⟨b, hb, m', hm', h⟩
      exact ⟨b, m', hb, hm', (Except.ok.inj h).symm⟩
    · rintro ⟨b, m', hb, hm', rfl⟩
      exact ⟨b, hb, m', hm', rfl⟩

/-- It fails with the error of an element. -/
theorem exists_of_mapM_eq_error {ε : Type} {f : α → Except ε β} {l : List α} {e : ε}
    (h : l.mapM f = .error e) : ∃ a ∈ l, f a = .error e := by
  induction l with
  | nil => cases h
  | cons a l ih =>
    rw [mapM_cons] at h
    cases ha : f a with
    | error e' =>
      rw [ha] at h
      obtain rfl := Except.error.inj h
      exact ⟨a, mem_cons_self .., ha⟩
    | ok b =>
      rw [ha] at h
      cases hl : l.mapM f with
      | error e' =>
        obtain ⟨a', ha', he⟩ := ih (hl.trans (by
          rw [hl] at h
          exact h))
        exact ⟨a', mem_cons_of_mem _ ha', he⟩
      | ok bs =>
        rw [hl] at h
        cases h

/-- What each step of a fallible fold keeps true of its state holds after all of them. -/
theorem foldlM_invariant {ε σ : Type} {f : σ → α → Except ε σ} {I : σ → Prop}
    (hstep : ∀ s a s', I s → f s a = .ok s' → I s') {l : List α} {s s' : σ} (hs : I s)
    (h : l.foldlM f s = .ok s') : I s' := by
  induction l generalizing s with
  | nil =>
    cases h
    exact hs
  | cons a l ih =>
    rw [foldlM_cons] at h
    obtain ⟨t, ht, h⟩ := Except.bind_ok_iff.1 h
    exact ih (hstep s a t hs ht) h

variable [LinearOrder α] {ds l : List α} {x y : α}

/-- What sorts between two lists that differ in neighbouring last elements starts with the
first of them. -/
theorem between_concat_iff {x y : α} (h : x ⋖ y) (a l : List α) :
    a ++ [x] < l ∧ l < a ++ [y] ↔ a ++ [x] <+: l ∧ l ≠ a ++ [x] := by
  induction a generalizing l with
  | nil =>
    cases l with
    | nil => simp
    | cons z l =>
      simp only [List.nil_append, List.cons_lt_cons_iff, List.not_lt_nil, and_false, or_false,
        List.cons_prefix_cons, List.nil_prefix, and_true, ne_eq, List.cons.injEq]
      constructor
      · rintro ⟨h₁ | ⟨rfl, h₁⟩, h₂⟩
        · exact absurd h₂ (h.2 h₁)
        · exact ⟨rfl, fun h => by simp [h.2] at h₁⟩
      · rintro ⟨rfl, hne⟩
        refine ⟨.inr ⟨rfl, ?_⟩, h.1⟩
        cases l with
        | nil => exact absurd ⟨rfl, rfl⟩ hne
        | cons => exact List.nil_lt_cons _ _
  | cons b a ih =>
    cases l with
    | nil => simp
    | cons z l =>
      simp only [List.cons_append, List.cons_lt_cons_iff, List.cons_prefix_cons, ne_eq,
        List.cons.injEq]
      constructor
      · rintro ⟨h₁ | ⟨rfl, h₁⟩, h₂ | ⟨heq, h₂⟩⟩
        · exact absurd h₂ (lt_asymm h₁)
        · exact absurd h₁ (heq ▸ lt_irrefl _)
        · exact absurd h₂ (lt_irrefl _)
        · obtain ⟨hbelow, hne⟩ := (ih l).1 ⟨h₁, h₂⟩
          exact ⟨⟨rfl, hbelow⟩, fun h => hne h.2⟩
      · rintro ⟨⟨rfl, hbelow⟩, hne⟩
        obtain ⟨h₁, h₂⟩ := (ih l).2 ⟨hbelow, fun h => hne ⟨rfl, h⟩⟩
        exact ⟨.inr ⟨rfl, h₁⟩, .inr ⟨rfl, h₂⟩⟩

end List

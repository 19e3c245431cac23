import Mathlib.Algebra.BigOperators.Group.List.Basic
import Mathlib.Algebra.Order.Ring.Int
import Mathlib.Data.Fintype.Basic
import Mathlib.Data.List.Pairwise

/-!
# Lists up to what some element of them has

Two ways to shorten a list of grants, rules or patterns that keep what the list as a whole admits:
`upsert` joins an element with the first one of its kind, `maximal` drops the elements that another
one covers. For a property `P` of elements, `∃ a ∈ l, P a` is what the list admits.
-/

namespace List

variable {α : Type} {l : List α} {P : α → Prop} {Q : α → Prop} {x c : α}

/-! ## Joining elements of a kind -/

/-- Change the first element that satisfies `same`, or append `x` if there is none. -/
def upsert (same : α → Bool) (f : α → α) (x : α) : List α → List α
  | [] => [x]
  | a :: l => if same a then f a :: l else a :: upsert same f x l

variable {same : α → Bool} {f : α → α}

theorem forall_upsert (hl : ∀ a ∈ l, Q a) (hf : ∀ a, same a → Q a → Q (f a)) (hx : Q x) :
    ∀ a ∈ upsert same f x l, Q a := by
  induction l with
  | nil => simpa [upsert] using hx
  | cons b l ih =>
    obtain ⟨hb, hl⟩ := forall_mem_cons.1 hl
    rw [upsert]
    split
    · rename_i hsame
      exact forall_mem_cons.2 ⟨hf b hsame hb, hl⟩
    · exact forall_mem_cons.2 ⟨hb, ih hl⟩

/-- If changing an element of the kind adds to it what `x` has, then `upsert` adds that to the
list. -/
theorem exists_upsert (hf : ∀ a, same a → (P (f a) ↔ P a ∨ P x)) :
    (∃ a ∈ upsert same f x l, P a) ↔ (∃ a ∈ l, P a) ∨ P x := by
  induction l with
  | nil => simp [upsert]
  | cons b l ih =>
    rw [upsert]
    split
    · rename_i hsame
      rw [exists_mem_cons_iff, exists_mem_cons_iff, hf b hsame, or_right_comm]
    · rw [exists_mem_cons_iff, exists_mem_cons_iff, ih, or_assoc]

theorem upsert_eq_append (h : ∀ a ∈ l, ¬same a) : upsert same f x l = l ++ [x] := by
  induction l with
  | nil => rfl
  | cons b l ih =>
    obtain ⟨hb, hl⟩ := forall_mem_cons.1 h
    rw [upsert, if_neg hb, ih hl, cons_append]

/-- A list with one element of each kind keeps that. -/
theorem nodup_map_upsert {β : Type} {kind : α → β} (hl : (l.map kind).Nodup)
    (hsame : ∀ a, same a ↔ kind a = kind x) (hf : ∀ a, kind (f a) = kind a) :
    ((upsert same f x l).map kind).Nodup := by
  induction l with
  | nil => simp [upsert]
  | cons b l ih =>
    rw [map_cons, nodup_cons] at hl
    rw [upsert]
    split
    · rwa [map_cons, hf, nodup_cons]
    · rename_i hb
      have hkinds : ∀ a ∈ upsert same f x l, kind a ∈ l.map kind ∨ kind a = kind x :=
        forall_upsert (fun a ha => .inl (mem_map_of_mem ha)) (fun a _ h => by rwa [hf]) (.inr rfl)
      rw [map_cons, nodup_cons]
      refine ⟨fun hmem => ?_, ih hl.2⟩
      obtain ⟨a, ha, hab⟩ := mem_map.1 hmem
      rcases hkinds a ha with h | h
      · exact hl.1 (hab ▸ h)
      · exact hb ((hsame b).2 (hab ▸ h))

/-! ## Dropping covered elements -/

/-- Append an element that no other one covers, and drop those that it covers. -/
def addMaximal (covers : α → α → Bool) (l : List α) (c : α) : List α :=
  if l.any fun a => covers a c then l
  else (l.filter fun a => !covers c a) ++ [c]

/-- The elements that no other one covers, of equivalent ones the first. -/
def maximal (covers : α → α → Bool) (l : List α) : List α :=
  l.foldl (addMaximal covers) []

variable {covers : α → α → Bool}

theorem mem_of_mem_addMaximal {a : α} (h : a ∈ addMaximal covers l c) : a ∈ l ∨ a = c := by
  rw [addMaximal] at h
  split at h
  · exact .inl h
  · rcases mem_append.1 h with h | h
    · exact .inl (mem_of_mem_filter h)
    · exact .inr (mem_singleton.1 h)

theorem exists_addMaximal (hcovers : ∀ a b, covers a b → P b → P a) :
    (∃ a ∈ addMaximal covers l c, P a) ↔ (∃ a ∈ l, P a) ∨ P c := by
  rw [addMaximal]
  split
  · rename_i hany
    obtain ⟨a, ha, hac⟩ := any_eq_true.1 hany
    exact ⟨.inl, fun h => h.elim id fun hc => ⟨a, ha, hcovers a c hac hc⟩⟩
  · constructor
    · rintro ⟨a, ha, hP⟩
      rcases mem_append.1 ha with ha | ha
      · exact .inl ⟨a, mem_of_mem_filter ha, hP⟩
      · exact .inr (mem_singleton.1 ha ▸ hP)
    · rintro (⟨a, ha, hP⟩ | hP)
      · -- what `c` covers may go: `c` itself has everything that it has
        cases hca : covers c a with
        | true => exact ⟨c, by simp, hcovers c a hca hP⟩
        | false => exact ⟨a, mem_append_left _ (mem_filter.2 ⟨ha, by simp [hca]⟩), hP⟩
      · exact ⟨c, by simp, hP⟩

theorem mem_of_mem_maximal {a : α} (h : a ∈ maximal covers l) : a ∈ l := by
  suffices ∀ m : List α, a ∈ l.foldl (addMaximal covers) m → a ∈ m ∨ a ∈ l from
    (this [] h).resolve_left not_mem_nil
  clear h
  induction l with
  | nil => exact fun m h => .inl h
  | cons c l ih =>
    intro m h
    rcases ih (addMaximal covers m c) h with h | h
    · rcases mem_of_mem_addMaximal h with h | rfl
      · exact .inl h
      · exact .inr mem_cons_self
    · exact .inr (mem_cons_of_mem c h)

theorem exists_maximal (hcovers : ∀ a b, covers a b → P b → P a) :
    (∃ a ∈ maximal covers l, P a) ↔ ∃ a ∈ l, P a := by
  suffices ∀ m : List α,
      (∃ a ∈ l.foldl (addMaximal covers) m, P a) ↔ (∃ a ∈ m, P a) ∨ ∃ a ∈ l, P a by
    simpa [maximal] using this []
  induction l with
  | nil => simp
  | cons c l ih =>
    intro m
    rw [foldl_cons, ih, exists_addMaximal hcovers, exists_mem_cons_iff, or_assoc]

/-- Neither of two elements covers the other. -/
def Incomparable (covers : α → α → Bool) (a b : α) : Prop := ¬covers a b ∧ ¬covers b a

instance : Std.Symm (Incomparable covers) := ⟨fun _ _ h => h.symm⟩

theorem pairwise_addMaximal (h : l.Pairwise (Incomparable covers)) :
    (addMaximal covers l c).Pairwise (Incomparable covers) := by
  rw [addMaximal]
  split
  · exact h
  · rename_i hany
    refine pairwise_append.2 ⟨h.sublist filter_sublist, pairwise_singleton _ _, ?_⟩
    intro a ha b hb
    obtain rfl := mem_singleton.1 hb
    obtain ⟨ha, hba⟩ := mem_filter.1 ha
    exact ⟨fun hab => hany (any_eq_true.2 ⟨a, ha, hab⟩), by simpa using hba⟩

theorem pairwise_maximal : (maximal covers l).Pairwise (Incomparable covers) := by
  suffices ∀ m : List α, m.Pairwise (Incomparable covers) →
      (l.foldl (addMaximal covers) m).Pairwise (Incomparable covers) from this [] .nil
  induction l with
  | nil => exact fun m hm => hm
  | cons c l ih => exact fun m hm => ih _ (pairwise_addMaximal hm)

/-- Nothing is dropped from a list of incomparable elements. -/
theorem maximal_eq_self (h : l.Pairwise (Incomparable covers)) : maximal covers l = l := by
  suffices ∀ m : List α, (m ++ l).Pairwise (Incomparable covers) →
      l.foldl (addMaximal covers) m = m ++ l from this [] h
  clear h
  induction l with
  | nil => exact fun m _ => (append_nil m).symm
  | cons c l ih =>
    intro m hm
    have hc : ∀ a ∈ m, Incomparable covers a c := fun a ha =>
      (pairwise_append.1 hm).2.2 a ha c mem_cons_self
    have hadd : addMaximal covers m c = m ++ [c] := by
      rw [addMaximal, if_neg fun hany => ?_, filter_eq_self.2 fun a ha => ?_]
      · simpa using (hc a ha).2
      · obtain ⟨a, ha, hac⟩ := any_eq_true.1 hany
        exact (hc a ha).1 hac
    rw [foldl_cons, hadd, ih _ (by rwa [append_assoc]), append_assoc, singleton_append]

/-- For an order, the elements kept are the maximal ones: which they are does not depend on the
order of the list. -/
theorem mem_maximal {a : α} (hrefl : ∀ a, covers a a)
    (htrans : ∀ a b c, covers a b → covers b c → covers a c)
    (hantisymm : ∀ a ∈ l, ∀ b ∈ l, covers a b → covers b a → a = b) :
    a ∈ maximal covers l ↔ a ∈ l ∧ ∀ b ∈ l, covers b a → b = a := by
  have hcovered : ∀ b ∈ l, ∃ k ∈ maximal covers l, covers k b := fun b hb =>
    (exists_maximal (P := (covers · b)) fun x y => htrans x y b).2 ⟨b, hb, hrefl b⟩
  constructor
  · intro ha
    have hal := mem_of_mem_maximal ha
    refine ⟨hal, fun b hb hba => hantisymm b hb a hal hba ?_⟩
    -- an element kept covers `b` and with it `a`, and no other element kept does
    obtain ⟨k, hk, hkb⟩ := hcovered b hb
    have hka : k = a := Classical.byContradiction fun hne =>
      (pairwise_maximal.forall hk ha hne).1 (htrans k b a hkb hba)
    rwa [← hka]
  · rintro ⟨ha, hmax⟩
    obtain ⟨k, hk, hka⟩ := hcovered a ha
    rwa [hmax k (mem_of_mem_maximal hk) hka] at hk

end List

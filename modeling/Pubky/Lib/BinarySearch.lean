import Mathlib.Algebra.BigOperators.Group.List.Basic
import Mathlib.Algebra.Order.Ring.Int
import Mathlib.Data.Fintype.Basic

/-!
# Binary search in a sorted list

`binarySearchBy` and `partitionPoint` are the loops of the Rust standard library's
functions of these names on slices. On a list that is sorted for the search they
find the position that splits the list (`binarySearchBy_error`), and inserting there
keeps a list strictly sorted (`pairwise_insertAt`).
-/

namespace Sorted

variable {α : Type} {l : List α} {f : α → Ordering}

/-- The loop of `binary_search_by`: narrow the window of `size` elements from `base` on. -/
def searchLoop (f : α → Ordering) (l : List α) : ℕ → ℕ → ℕ → ℕ
  | 0, base, _ => base
  | fuel + 1, base, size =>
    if 1 < size then
      let mid := base + size / 2
      searchLoop f l fuel (if l[mid]?.map f = some .gt then base else mid) (size - size / 2)
    else base

/-- `Ok i` for a match at index `i`, `Err i` for the index where a match could be inserted. -/
def binarySearchBy (f : α → Ordering) (l : List α) : Except ℕ ℕ :=
  let base := searchLoop f l l.length 0 l.length
  match l[base]?.map f with
  | none => .error 0
  | some .eq => .ok base
  | some .lt => .error (base + 1)
  | some .gt => .error base

/-- Index of the first element that does not satisfy `p`. -/
def partitionPoint (p : α → Bool) (l : List α) : ℕ :=
  match binarySearchBy (fun x => if p x then .lt else .gt) l with
  | .ok i => i
  | .error i => i

/-- Insert at an index, as `Vec::insert`. -/
def insertAt (l : List α) (i : ℕ) (x : α) : List α :=
  l.take i ++ x :: l.drop i

/-- The elements are ordered the way a search with `f` needs it. -/
def SortedFor (f : α → Ordering) (l : List α) : Prop :=
  l.Pairwise fun a b => (f b = .lt → f a = .lt) ∧ (f a = .gt → f b = .gt)

theorem SortedFor.getElem (h : SortedFor f l) {i j : ℕ} (hij : i < j) {a b : α}
    (ha : l[i]? = some a) (hb : l[j]? = some b) :
    (f b = .lt → f a = .lt) ∧ (f a = .gt → f b = .gt) := by
  obtain ⟨hi, rfl⟩ := List.getElem?_eq_some_iff.1 ha
  obtain ⟨hj, rfl⟩ := List.getElem?_eq_some_iff.1 hb
  exact List.pairwise_iff_getElem.1 h i j hi hj hij

/-- Loop invariant: everything from the window's end on compares greater, and the window
starts at the front of the list or at an element that does not compare greater. -/
theorem searchLoop_spec (h : SortedFor f l) {fuel base size : ℕ} (hfuel : size ≤ fuel)
    (hsize : 0 < size) (hlen : base + size ≤ l.length)
    (hbase : base = 0 ∨ ∀ a, l[base]? = some a → f a ≠ .gt)
    (hend : ∀ j a, base + size ≤ j → l[j]? = some a → f a = .gt) :
    let b := searchLoop f l fuel base size
    b < l.length ∧ (b = 0 ∨ ∀ a, l[b]? = some a → f a ≠ .gt) ∧
      ∀ j a, b < j → l[j]? = some a → f a = .gt := by
  induction fuel generalizing base size with
  | zero => omega
  | succ fuel ih =>
    simp only [searchLoop]
    split
    · rename_i hs
      have hmid : base + size / 2 < l.length := by omega
      split
      · rename_i hgt
        refine ih (by omega) (by omega) (by omega) hbase fun j a hj ha => ?_
        -- the window now ends at the middle element or behind it
        obtain ⟨m, hm, hfm⟩ := Option.map_eq_some_iff.1 hgt
        have hge : base + size / 2 ≤ j := by omega
        rcases Nat.lt_or_eq_of_le hge with hlt | heq
        · exact (h.getElem hlt hm ha).2 hfm
        · obtain rfl := Option.some.inj ((heq ▸ hm).symm.trans ha)
          exact hfm
      · rename_i hgt
        refine ih (by omega) (by omega) (by omega) (.inr fun a ha hfa => ?_) fun j a hj ha => ?_
        · exact hgt (by simp [ha, hfa])
        · exact hend j a (by omega) ha
    · refine ⟨by omega, hbase, fun j a hj ha => hend j a (by omega) ha⟩

/-- A match that is found is one; this needs no order. -/
theorem binarySearchBy_ok {i : ℕ} (h : binarySearchBy f l = .ok i) :
    ∃ a ∈ l, f a = .eq := by
  simp only [binarySearchBy] at h
  split at h
  · cases h
  · rename_i heq
    obtain ⟨a, ha, hfa⟩ := Option.map_eq_some_iff.1 heq
    exact ⟨a, List.mem_of_getElem? ha, hfa⟩
  · cases h
  · cases h

/-- If nothing is found, the index splits the list into the smaller and the greater
elements. -/
theorem binarySearchBy_error (hl : SortedFor f l) {i : ℕ} (h : binarySearchBy f l = .error i) :
    (∀ a ∈ l.take i, f a = .lt) ∧ ∀ a ∈ l.drop i, f a = .gt := by
  by_cases hne : l = []
  · subst hne
    simp
  have hpos : 0 < l.length := List.length_pos_of_ne_nil hne
  obtain ⟨hb, hlow, hhigh⟩ := searchLoop_spec hl (Nat.le_refl l.length) hpos (by omega)
    (.inl rfl) (fun j a hj ha => by
      have := (List.getElem?_eq_some_iff.1 ha).1
      omega)
  generalize hbe : searchLoop f l l.length 0 l.length = b at hb hlow hhigh
  have hget : l[b]? = some l[b] := List.getElem?_eq_getElem hb
  simp only [binarySearchBy, hbe, hget, Option.map_some] at h
  have hdrop : ∀ k, b < k → ∀ a ∈ l.drop k, f a = .gt := by
    intro k hk a ha
    obtain ⟨j, hj⟩ := List.mem_iff_getElem?.1 ha
    rw [List.getElem?_drop] at hj
    exact hhigh (k + j) a (by omega) hj
  cases hfb : f l[b] with
  | eq =>
    rw [hfb] at h
    cases h
  | lt =>
    rw [hfb] at h
    obtain rfl := Except.error.inj h
    refine ⟨fun a ha => ?_, hdrop _ (by omega)⟩
    obtain ⟨j, hj⟩ := List.mem_iff_getElem?.1 ha
    rw [List.getElem?_take] at hj
    split at hj
    · rcases Nat.lt_or_ge j b with hlt | hge
      · exact (hl.getElem hlt hj hget).1 hfb
      · obtain rfl : j = b := by omega
        obtain rfl := Option.some.inj (hget.symm.trans hj)
        exact hfb
    · cases hj
  | gt =>
    rw [hfb] at h
    obtain rfl := Except.error.inj h
    -- an element that compares greater can only be the loop's result at the front
    obtain rfl : b = 0 := hlow.resolve_right fun h' => h' _ hget hfb
    refine ⟨by simp, fun a ha => ?_⟩
    obtain ⟨j, hj⟩ := List.mem_iff_getElem?.1 ha
    rw [List.drop_zero] at hj
    rcases Nat.eq_zero_or_pos j with rfl | hpos
    · obtain rfl := Option.some.inj (hget.symm.trans hj)
      exact hfb
    · exact hhigh j a hpos hj

/-- A partition point separates the elements that satisfy `p` from the others. -/
theorem partitionPoint_spec {p : α → Bool}
    (h : l.Pairwise fun a b => p b = true → p a = true) :
    (∀ a ∈ l.take (partitionPoint p l), p a = true) ∧
      ∀ a ∈ l.drop (partitionPoint p l), p a = false := by
  have hs : SortedFor (fun x => if p x then .lt else .gt) l := by
    refine h.imp fun {a b} hab => ?_
    cases ha : p a <;> cases hb : p b <;> simp_all
  simp only [partitionPoint]
  split
  · rename_i i hi
    obtain ⟨a, -, ha⟩ := binarySearchBy_ok hi
    split at ha <;> cases ha
  · rename_i i hi
    obtain ⟨htake, hdrop⟩ := binarySearchBy_error hs hi
    refine ⟨fun a ha => ?_, fun a ha => ?_⟩
    · simpa using htake a ha
    · simpa using hdrop a ha

theorem mem_insertAt {i : ℕ} {x y : α} : y ∈ insertAt l i x ↔ y = x ∨ y ∈ l := by
  have : y ∈ l ↔ y ∈ l.take i ∨ y ∈ l.drop i := by
    rw [← List.mem_append, List.take_append_drop]
  simp only [insertAt, List.mem_append, List.mem_cons, this]
  tauto

/-- Inserting between the smaller and the greater elements keeps a list sorted. -/
theorem pairwise_insertAt {R : α → α → Prop} (h : l.Pairwise R) {i : ℕ} {x : α}
    (hlow : ∀ a ∈ l.take i, R a x) (hhigh : ∀ a ∈ l.drop i, R x a) :
    (insertAt l i x).Pairwise R := by
  have hsplit := h
  rw [← List.take_append_drop i l, List.pairwise_append] at hsplit
  obtain ⟨htake, hdrop, hcross⟩ := hsplit
  refine List.pairwise_append.2 ⟨htake, List.pairwise_cons.2 ⟨hhigh, hdrop⟩, ?_⟩
  intro a ha b hb
  rcases List.mem_cons.1 hb with rfl | hb
  · exact hlow a ha
  · exact hcross a ha b hb

end Sorted

import Mathlib.Algebra.BigOperators.Group.List.Basic
import Mathlib.Algebra.Order.Ring.Int
import Mathlib.Data.Fintype.Basic

/-!
# Text

Strings as lists of characters, with the splitting functions and character
classes that text formats are defined by. A separator never occurs in a piece it
separates, and joining pieces is undone by splitting at the separator.
-/

/-- A string, as the list of its characters. -/
abbrev Text := List Char

namespace Text

/-- Length of the UTF-8 encoding in bytes. -/
def byteLen (t : Text) : ℕ :=
  (t.map Char.utf8Size).sum

/-- Split at the first occurrence of `c`, dropping it. -/
def splitOnce (c : Char) : Text → Option (Text × Text)
  | [] => none
  | x :: xs =>
    if x = c then some ([], xs)
    else (splitOnce c xs).map fun (a, b) => (x :: a, b)

/-- Split at the last occurrence of `c`, dropping it. -/
def rsplitOnce (c : Char) (t : Text) : Option (Text × Text) :=
  (splitOnce c t.reverse).map fun (a, b) => (b.reverse, a.reverse)

/-- Split after every occurrence of `c`, keeping it at the end of its piece. -/
def splitInclusive (c : Char) : Text → List Text
  | [] => []
  | x :: xs =>
    if x = c then [x] :: splitInclusive c xs
    else
      match splitInclusive c xs with
      | [] => [[x]]
      | piece :: pieces => (x :: piece) :: pieces

/-- Split into at most `n` pieces; the last piece keeps the remaining separators. -/
def splitn (c : Char) : ℕ → Text → List Text
  | 0, _ => []
  | 1, t => [t]
  | n + 2, t =>
    match splitOnce c t with
    | none => [t]
    | some (a, b) => a :: splitn c (n + 1) b

/-- Join pieces with a separator. -/
def join (c : Char) (ts : List Text) : Text :=
  [c].intercalate ts

/-- The text ends with `c`. -/
def endsWith (c : Char) (t : Text) : Bool :=
  t.getLast? == some c

/-- Unicode general category Cc. -/
def isControl (c : Char) : Bool :=
  c.toNat < 0x20 || (0x7f ≤ c.toNat && c.toNat < 0xa0)

/-- Unicode property White_Space. -/
def isWhitespace (c : Char) : Bool :=
  (0x9 ≤ c.toNat && c.toNat ≤ 0xd) || c.toNat == 0x20 || c.toNat == 0x85 || c.toNat == 0xa0
    || c.toNat == 0x1680 || (0x2000 ≤ c.toNat && c.toNat ≤ 0x200a) || c.toNat == 0x2028
    || c.toNat == 0x2029 || c.toNat == 0x202f || c.toNat == 0x205f || c.toNat == 0x3000

/-- What follows a leading `p`. -/
def stripStart : Text → Text → Option Text
  | [], t => some t
  | _ :: _, [] => none
  | p :: ps, x :: xs => if p = x then stripStart ps xs else none

/-- Remove whitespace at both ends. -/
def trim (t : Text) : Text :=
  ((t.dropWhile isWhitespace).reverse.dropWhile isWhitespace).reverse

/-- Equality up to the case of ASCII letters. -/
def eqIgnoreAsciiCase (t u : Text) : Bool :=
  t.map Char.toLower = u.map Char.toLower

/-- The number written in decimal digits. -/
def digits (t : Text) : Option ℕ :=
  if t ≠ [] ∧ t.all Char.isDigit then
    some (t.foldl (fun n c => 10 * n + (c.toNat - '0'.toNat)) 0)
  else none

/-- Parse an unsigned integer of `width` bits; a leading `+` is allowed. -/
def parseUnsigned (width : ℕ) (t : Text) : Option ℕ :=
  (digits ((stripStart ['+'] t).getD t)).filter fun n => n < 2 ^ width

/-- Parse a signed integer of `width` bits; a leading sign is allowed. -/
def parseSigned (width : ℕ) (t : Text) : Option ℤ :=
  match stripStart ['-'] t with
  | some rest => ((digits rest).filter fun n => n ≤ 2 ^ (width - 1)).map fun n => -(n : ℤ)
  | none =>
    ((digits ((stripStart ['+'] t).getD t)).filter fun n => n < 2 ^ (width - 1)).map Int.ofNat

variable {c : Char} {t u : Text} {ts : List Text}

theorem digits_toDigits (n : ℕ) : digits (Nat.toDigits 10 n) = some n := by
  have hall : (Nat.toDigits 10 n).all Char.isDigit := by
    rw [List.all_eq_true]
    exact fun c hc => Nat.isDigit_of_mem_toDigits (by decide) (by decide) hc
  rw [digits, if_pos ⟨Nat.toDigits_ne_nil, hall⟩, Option.some.injEq]
  exact Nat.ofDigitChars_toDigits (by decide) (by decide)

theorem parseUnsigned_toDigits {n width : ℕ} (h : n < 2 ^ width) :
    parseUnsigned width (Nat.toDigits 10 n) = some n := by
  have hsign : stripStart ['+'] (Nat.toDigits 10 n) = none := by
    cases hd : Nat.toDigits 10 n with
    | nil => rfl
    | cons c rest =>
      have hc : c.isDigit :=
        Nat.isDigit_of_mem_toDigits (b := 10) (n := n) (by decide) (by decide) (by simp [hd])
      have hne : '+' ≠ c := by
        rintro rfl
        exact absurd hc (by decide)
      simp [stripStart, hne]
  rw [parseUnsigned, hsign, Option.getD_none, digits_toDigits]
  simp [h]

theorem lt_of_parseUnsigned {n width : ℕ} (h : parseUnsigned width t = some n) :
    n < 2 ^ width := by
  rw [parseUnsigned, Option.filter_eq_some_iff] at h
  exact of_decide_eq_true h.2

/-- What holds of every character of a literal is checked character by character. -/
theorem forall_mem_of_all {p : Char → Prop} [DecidablePred p] (h : t.all fun c => decide (p c)) :
    ∀ c ∈ t, p c := by
  simpa using h

/-! ## Removing what a text starts or ends with -/

theorem trim_eq {t : Text} (hhead : ∀ c, t.head? = some c → isWhitespace c = false)
    (hlast : ∀ c, t.getLast? = some c → isWhitespace c = false) : trim t = t := by
  have hdrop : ∀ u : Text, (∀ c, u.head? = some c → isWhitespace c = false) →
      u.dropWhile isWhitespace = u := by
    intro u hu
    cases u with
    | nil => rfl
    | cons x xs => rw [List.dropWhile_cons_of_neg (by simp [hu x rfl])]
  rw [trim, hdrop t hhead, hdrop t.reverse (by simpa using hlast), List.reverse_reverse]

theorem stripStart_eq_some {p : Text} : stripStart p t = some u ↔ t = p ++ u := by
  induction p generalizing t with
  | nil => simp [stripStart]
  | cons x xs ih =>
    cases t with
    | nil => simp [stripStart]
    | cons y ys =>
      by_cases hxy : x = y
      · simp [stripStart, hxy, ih]
      · simp [stripStart, hxy, Ne.symm hxy]

theorem stripStart_append (t u : Text) : stripStart t (t ++ u) = some u :=
  stripStart_eq_some.2 rfl

/-! ## Splitting once -/

theorem splitOnce_append (h : c ∉ t) : splitOnce c (t ++ c :: u) = some (t, u) := by
  induction t with
  | nil => simp [splitOnce]
  | cons x xs ih =>
    have hx : x ≠ c := fun h' => h (by simp [h'])
    simp [splitOnce, hx, ih fun h' => h (List.mem_cons_of_mem _ h')]

theorem splitOnce_eq_none (h : c ∉ t) : splitOnce c t = none := by
  induction t with
  | nil => rfl
  | cons x xs ih =>
    have hx : x ≠ c := fun h' => h (by simp [h'])
    simp [splitOnce, hx, ih fun h' => h (List.mem_cons_of_mem _ h')]

theorem splitOnce_eq_some {a b : Text} (h : splitOnce c t = some (a, b)) :
    t = a ++ c :: b ∧ c ∉ a := by
  induction t generalizing a b with
  | nil => cases h
  | cons x xs ih =>
    simp only [splitOnce] at h
    split at h
    · rename_i hx
      cases h
      exact ⟨by simp [hx], by simp⟩
    · rename_i hx
      obtain ⟨⟨a', b'⟩, hab, heq⟩ := Option.map_eq_some_iff.1 h
      obtain ⟨rfl, rfl⟩ := Prod.mk.inj heq
      obtain ⟨rfl, hc⟩ := ih hab
      exact ⟨rfl, by simp [hc, Ne.symm hx]⟩

/-! ## Splitting and joining -/

/-- The pieces of a text have no separators and no new characters. -/
theorem mem_of_mem_splitOnP {p : Char → Bool} {d : Char} (hu : u ∈ t.splitOnP p) (hd : d ∈ u) :
    d ∈ t ∧ p d = false := by
  induction t generalizing u with
  | nil =>
    obtain rfl : u = [] := by simpa using hu
    exact absurd hd List.not_mem_nil
  | cons x xs ih =>
    have hrest : ∀ {v : Text}, v ∈ xs.splitOnP p → d ∈ v → d ∈ x :: xs ∧ p d = false := by
      intro v hv hdv
      obtain ⟨hmem, hsep⟩ := ih hv hdv
      exact ⟨List.mem_cons_of_mem x hmem, hsep⟩
    rw [List.splitOnP_cons_eq_if_modifyHead] at hu
    split at hu
    · rcases List.mem_cons.1 hu with rfl | hu
      · exact absurd hd List.not_mem_nil
      · exact hrest hu hd
    · rename_i hx
      cases hs : xs.splitOnP p with
      | nil => exact absurd hs (List.splitOnP_ne_nil p xs)
      | cons v vs =>
        rw [hs, List.modifyHead_cons] at hu
        rcases List.mem_cons.1 hu with rfl | hu
        · rcases List.mem_cons.1 hd with rfl | hd
          · exact ⟨List.mem_cons_self, Bool.not_eq_true _ ▸ hx⟩
          · exact hrest (by simp [hs]) hd
        · exact hrest (by simp [hs, hu]) hd

theorem not_mem_of_mem_splitOn (h : u ∈ t.splitOn c) : c ∉ u := by
  intro hc
  simpa using (mem_of_mem_splitOnP h hc).2

theorem splitOn_join (h : ∀ s ∈ ts, c ∉ s) (hne : ts ≠ []) : (join c ts).splitOn c = ts :=
  List.splitOn_intercalate c h hne

theorem join_splitOn : join c (t.splitOn c) = t :=
  List.intercalate_splitOn c

/-- A separator ends the pieces before it. -/
theorem splitOn_append_cons (c : Char) (t u : Text) :
    (t ++ c :: u).splitOn c = t.splitOn c ++ u.splitOn c := by
  induction t with
  | nil => simp [List.splitOn_cons_eq_if_modifyHead]
  | cons x xs ih =>
    rw [List.cons_append, List.splitOn_cons_eq_if_modifyHead, List.splitOn_cons_eq_if_modifyHead,
      ih]
    split
    · rfl
    · cases hs : xs.splitOn c with
      | nil => exact absurd hs (List.splitOnP_ne_nil _ xs)
      | cons v vs => rfl

theorem splitOn_of_not_mem (h : c ∉ t) : t.splitOn c = [t] := by
  have hjoin : join c [t] = t := by simp [join, List.intercalate]
  have hsplit := splitOn_join (fun s hs => (List.mem_singleton.1 hs) ▸ h) (List.cons_ne_nil t [])
  rwa [hjoin] at hsplit

/-- The first separator ends the first piece. -/
theorem splitOn_append (h : c ∉ t) : (t ++ c :: u).splitOn c = t :: u.splitOn c := by
  rw [splitOn_append_cons, splitOn_of_not_mem h, List.singleton_append]

theorem join_cons_cons : join c (t :: u :: ts) = t ++ c :: join c (u :: ts) := by
  simp [join, List.intercalate, List.intersperse]

theorem length_le_join (c : Char) (ts : List Text) : ts.length ≤ (join c ts).length + 1 := by
  induction ts with
  | nil => simp
  | cons t ts ih =>
    cases ts with
    | nil => simp
    | cons u us =>
      simp only [join_cons_cons, List.length_append, List.length_cons] at ih ⊢
      omega

theorem join_concat (hne : ts ≠ []) : join c (ts ++ [u]) = join c ts ++ c :: u := by
  induction ts with
  | nil => exact absurd rfl hne
  | cons t ts ih =>
    cases ts with
    | nil => simp [join, List.intercalate]
    | cons t' ts =>
      have ih' := ih (List.cons_ne_nil t' ts)
      rw [List.cons_append] at ih'
      rw [List.cons_append, List.cons_append, join_cons_cons, join_cons_cons, ih', List.append_assoc,
        List.cons_append]

theorem join_append_empty (hne : ts ≠ []) : join c (ts ++ [[]]) = join c ts ++ [c] :=
  join_concat hne

theorem mem_join {d : Char} (h : d ∈ join c ts) : d = c ∨ ∃ t ∈ ts, d ∈ t := by
  induction ts with
  | nil => exact absurd h (by simp [join])
  | cons t ts ih =>
    cases ts with
    | nil => exact .inr ⟨t, by simp, by simpa [join] using h⟩
    | cons u us =>
      rw [join_cons_cons, List.mem_append, List.mem_cons] at h
      rcases h with h | h | h
      · exact .inr ⟨t, by simp, h⟩
      · exact .inl h
      · rcases ih h with h | ⟨v, hv, h⟩
        · exact .inl h
        · exact .inr ⟨v, List.mem_cons_of_mem t hv, h⟩

theorem mem_join_of_mem {d : Char} (ht : t ∈ ts) (hd : d ∈ t) : d ∈ join c ts := by
  induction ts with
  | nil => exact absurd ht List.not_mem_nil
  | cons u us ih =>
    cases us with
    | nil =>
      obtain rfl := List.mem_singleton.1 ht
      simpa [join] using hd
    | cons v vs =>
      rw [join_cons_cons, List.mem_append, List.mem_cons]
      rcases List.mem_cons.1 ht with rfl | ht
      · exact .inl hd
      · exact .inr (.inr (ih ht))

/-- The last piece is empty if the text ends with the separator. -/
theorem endsWith_iff : endsWith c t ↔ ∃ front, t = front ++ [c] := by
  rw [endsWith, beq_iff_eq, List.getLast?_eq_some_iff]

theorem endsWith_iff_getLast?_splitOn (hne : t ≠ []) :
    endsWith c t ↔ (t.splitOn c).getLast? = some [] := by
  constructor
  · intro h
    obtain ⟨front, last, rfl⟩ := (List.eq_nil_or_concat' t).resolve_left hne
    obtain rfl : last = c := by simpa [endsWith] using h
    rw [List.splitOn, List.splitOnP_append_cons (p := (· == last)) front [] (beq_self_eq_true last)]
    simp
  · intro h
    obtain ⟨init, hinit⟩ := List.getLast?_eq_some_iff.1 h
    have hjoin := join_splitOn (c := c) (t := t)
    rw [hinit] at hjoin
    by_cases hnil : init = []
    · exact absurd (by simpa [hnil, join] using hjoin.symm) hne
    · rw [← hjoin, join_append_empty hnil]
      simp [endsWith]

theorem splitn_append {n : ℕ} (h : c ∉ t) :
    splitn c (n + 2) (t ++ c :: u) = t :: splitn c (n + 1) u := by
  simp [splitn, splitOnce_append h]

theorem splitn_of_not_mem {n : ℕ} (h : c ∉ t) : splitn c (n + 1) t = [t] := by
  cases n <;> simp [splitn, splitOnce_eq_none h]

/-- A limit that is not reached does not matter. -/
theorem splitn_eq_of_length_le {n : ℕ} (hn : 0 < n) (h : (splitn c (n + 1) t).length ≤ n) :
    splitn c n t = splitn c (n + 1) t := by
  induction n generalizing t with
  | zero => exact absurd hn (Nat.lt_irrefl 0)
  | succ n ih =>
    cases hs : splitOnce c t with
    | none => cases n <;> simp [splitn, hs]
    | some ab =>
      obtain ⟨a, b⟩ := ab
      cases n with
      | zero => simp [splitn, hs] at h
      | succ n =>
        have hb : (splitn c (n + 2) b).length ≤ n + 1 := by
          simpa [splitn, hs] using h
        simp only [splitn, hs]
        rw [ih (Nat.succ_pos n) hb]
        rfl

theorem rsplitOnce_append (h : c ∉ u) : rsplitOnce c (t ++ c :: u) = some (t, u) := by
  have hrev : (t ++ c :: u).reverse = u.reverse ++ c :: t.reverse := by simp
  rw [rsplitOnce, hrev, splitOnce_append (by simpa using h)]
  simp

theorem rsplitOnce_eq_some {a b : Text} (h : rsplitOnce c t = some (a, b)) :
    t = a ++ c :: b ∧ c ∉ b := by
  obtain ⟨⟨x, y⟩, hsplit, hab⟩ := Option.map_eq_some_iff.1 h
  obtain ⟨rfl, rfl⟩ := Prod.mk.inj hab
  obtain ⟨hrev, hx⟩ := splitOnce_eq_some hsplit
  refine ⟨?_, by simpa using hx⟩
  rw [← List.reverse_reverse t, hrev]
  simp

theorem rsplitOnce_eq_none (h : c ∉ t) : rsplitOnce c t = none := by
  rw [rsplitOnce, splitOnce_eq_none (by simpa using h)]
  rfl

/-- The last occurrence of a character. -/
theorem exists_last (h : c ∈ t) : ∃ a b, t = a ++ c :: b ∧ c ∉ b := by
  obtain ⟨b, a, hrev, hb⟩ := List.eq_append_cons_of_mem (List.mem_reverse.2 h)
  refine ⟨a.reverse, b.reverse, ?_, by simpa using hb⟩
  simpa using congrArg List.reverse hrev

/-- What ends in the character and starts a text that has it last before `u`. -/
theorem concat_isPrefix_append {v : Text} (h : c ∉ u) :
    v ++ [c] <+: t ++ c :: u ↔ v = t ∨ v ++ [c] <+: t := by
  constructor
  · intro hpre
    rcases List.prefix_or_prefix_of_prefix hpre (List.prefix_append t (c :: u)) with hle | hle
    · exact .inr hle
    · rcases List.prefix_concat_iff.1 hle with heq | ⟨rest, rfl⟩
      · exact .inr (heq ▸ List.prefix_rfl)
      · rw [List.append_assoc, List.prefix_append_right_inj] at hpre
        cases rest with
        | nil => exact .inl (List.append_nil t)
        | cons x rest =>
          have hrest : rest ++ [c] <+: u := (List.cons_prefix_cons.1 hpre).2
          exact absurd (hrest.subset (by simp)) h
  · rintro (rfl | hle)
    · exact ⟨u, by simp⟩
    · exact hle.trans (List.prefix_append t _)

/-! ## Splitting after a separator -/

theorem splitInclusive_ne_nil (h : t ≠ []) : splitInclusive c t ≠ [] := by
  cases t with
  | nil => exact absurd rfl h
  | cons x xs =>
    rw [splitInclusive]
    split
    · simp
    · split <;> simp

theorem flatten_splitInclusive (c : Char) (t : Text) : (splitInclusive c t).flatten = t := by
  induction t with
  | nil => rfl
  | cons x xs ih =>
    rw [splitInclusive]
    split
    · rw [List.flatten_cons, ih, List.singleton_append]
    · split
      · rename_i hnil
        rw [hnil] at ih
        rw [← ih]
        rfl
      · rename_i piece pieces hpieces
        rw [hpieces] at ih
        rw [List.flatten_cons, List.cons_append, ← List.flatten_cons, ih]

/-- A text is split piece by piece where a piece ends. -/
theorem splitInclusive_append (h : endsWith c t) :
    splitInclusive c (t ++ u) = splitInclusive c t ++ splitInclusive c u := by
  induction t with
  | nil => simp [endsWith] at h
  | cons x xs ih =>
    cases xs with
    | nil =>
      have hx : x = c := by simpa [endsWith] using h
      simp [splitInclusive, hx]
    | cons y ys =>
      have ih' := ih (by simpa [endsWith] using h)
      rw [List.cons_append, splitInclusive, splitInclusive, ih']
      -- the first piece of the rest is not empty, so it stays the first piece
      cases hrest : splitInclusive c (y :: ys) with
      | nil => exact absurd hrest (splitInclusive_ne_nil (by simp))
      | cons piece pieces => split <;> simp

theorem splitInclusive_of_not_mem (hne : t ≠ []) (h : c ∉ t) : splitInclusive c t = [t] := by
  induction t with
  | nil => exact absurd rfl hne
  | cons x xs ih =>
    have hx : x ≠ c := fun h' => h (by simp [h'])
    rw [splitInclusive, if_neg hx]
    by_cases hxs : xs = []
    · rw [hxs, splitInclusive]
    · rw [ih hxs fun h' => h (List.mem_cons_of_mem x h')]

theorem splitInclusive_concat (h : c ∉ t) : splitInclusive c (t ++ [c]) = [t ++ [c]] := by
  induction t with
  | nil => simp [splitInclusive]
  | cons x xs ih =>
    have hx : x ≠ c := fun h' => h (by simp [h'])
    rw [List.cons_append, splitInclusive, if_neg hx, ih fun h' => h (List.mem_cons_of_mem x h')]

end Text

/-! ## Fallible computations -/

/-- A chain of fallible steps succeeds exactly if each of them does. -/
theorem Except.bind_ok_iff {ε α β : Type} {x : Except ε α} {f : α → Except ε β} {b : β} :
    (x >>= f) = .ok b ↔ ∃ a, x = .ok a ∧ f a = .ok b := by
  constructor
  · intro h
    cases x with
    | error e => cases h
    | ok a => exact ⟨a, rfl, h⟩
  · rintro ⟨a, rfl, h⟩
    exact h

/-- The value of an option, or an error. -/
def Option.okOr {ε α : Type} (e : ε) : Option α → Except ε α
  | some a => .ok a
  | none => .error e

@[simp] theorem Option.okOr_eq_ok {ε α : Type} {e : ε} {x : Option α} {a : α} :
    x.okOr e = .ok a ↔ x = some a := by
  cases x <;> simp [Option.okOr]

/-- A loop of checks passes exactly if each of them does. -/
theorem Except.forM_ok_iff {ε α : Type} {l : List α} {f : α → Except ε Unit} :
    forM l f = .ok () ↔ ∀ a ∈ l, f a = .ok () := by
  induction l with
  | nil => simp [pure, Except.pure]
  | cons a l ih =>
    rw [List.forM_cons, Except.bind_ok_iff, List.forall_mem_cons]
    constructor
    · rintro ⟨⟨⟩, ha, hl⟩
      exact ⟨ha, ih.1 hl⟩
    · rintro ⟨ha, hl⟩
      exact ⟨(), ha, ih.2 hl⟩

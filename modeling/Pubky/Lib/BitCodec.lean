import Mathlib.Data.List.Induction
import Mathlib.Data.List.Nodup
import Mathlib.Data.Nat.Notation
import Pubky.Lib.Text

/-!
# Texts that spell bits

Encodings of byte strings with `2 ^ k` characters, in the manner of base32 and base64 without
padding: the bits of the bytes, filled up with zeros to a multiple of `k`, are cut into groups of
`k`, and every group selects a character. Decoding refuses other characters, superfluous groups
and fill bits that are not zero.

* `Alphabet.decode_encode`: decoding inverts encoding, for `0 < k ≤ 8`.
* `Alphabet.mem_of_mem_encode`: an encoded text uses only characters of the alphabet.
-/

namespace BitCodec

/-- The `k` low bits of a number, most significant bit first. -/
def toBits : ℕ → ℕ → List Bool
  | 0, _ => []
  | k + 1, n => toBits k (n / 2) ++ [n % 2 == 1]

/-- The number with the given bits, most significant bit first. -/
def ofBits (bits : List Bool) : ℕ :=
  bits.foldl (fun n b => 2 * n + b.toNat) 0

/-- The first `n` groups of `k` elements. -/
def chunks {α : Type} (k : ℕ) : ℕ → List α → List (List α)
  | 0, _ => []
  | n + 1, l => l.take k :: chunks k n (l.drop k)

/-- The bits of the bytes. -/
def bitsOf (bytes : List UInt8) : List Bool :=
  bytes.flatMap fun b => toBits 8 b.toNat

/-- The number of groups of `k` that hold `m` bits. -/
def groups (k m : ℕ) : ℕ :=
  (m + k - 1) / k

/-- Fill up the last group. -/
def fill (k : ℕ) (bits : List Bool) : List Bool :=
  bits ++ List.replicate (groups k bits.length * k - bits.length) false

/-- The bytes whose filled up bits are given. -/
def unfill (k : ℕ) (bits : List Bool) : Option (List UInt8) :=
  let n := bits.length / 8
  let rest := bits.drop (8 * n)
  if rest.length < k ∧ rest.all (· = false) then
    some ((chunks 8 n bits).map fun group => UInt8.ofNat (ofBits group))
  else none

/-- `2 ^ k` different characters. -/
structure Alphabet (k : ℕ) where
  chars : List Char
  length_eq : chars.length = 2 ^ k
  nodup : chars.Nodup

namespace Alphabet

variable {k : ℕ} (A : Alphabet k)

/-- The character of a group of `k` bits. -/
def char (group : List Bool) : Char :=
  (A.chars[ofBits group]?).getD 'A'

/-- The bits of a character of the alphabet. -/
def bitsOfChar (c : Char) : Option (List Bool) :=
  if c ∈ A.chars then some (toBits k (A.chars.idxOf c)) else none

/-- Encode the bytes after the bits `carry`, which are fewer than a group. -/
def encodeFrom (carry : List Bool) : List UInt8 → Text
  | [] => if carry = [] then [] else [A.char (carry ++ List.replicate (k - carry.length) false)]
  | b :: bytes =>
    let bits := carry ++ toBits 8 b.toNat
    let n := bits.length / k
    (chunks k n bits).map A.char ++ encodeFrom (bits.drop (n * k)) bytes

def encode (bytes : List UInt8) : Text :=
  A.encodeFrom [] bytes

def decode (text : Text) : Option (List UInt8) := do
  let groups ← text.mapM A.bitsOfChar
  unfill k groups.flatten

end Alphabet

/-! ## Bits -/

@[simp] theorem length_toBits (k n : ℕ) : (toBits k n).length = k := by
  induction k generalizing n with
  | zero => rfl
  | succ k ih => simp [toBits, ih]

@[simp] theorem ofBits_append_singleton (bits : List Bool) (b : Bool) :
    ofBits (bits ++ [b]) = 2 * ofBits bits + b.toNat := by
  simp [ofBits]

theorem ofBits_toBits {k n : ℕ} (h : n < 2 ^ k) : ofBits (toBits k n) = n := by
  induction k generalizing n with
  | zero =>
    have : n = 0 := by omega
    simp [toBits, ofBits, this]
  | succ k ih =>
    have hlt : n / 2 < 2 ^ k := by
      rw [Nat.pow_succ] at h
      omega
    rw [toBits, ofBits_append_singleton, ih hlt]
    rcases Nat.mod_two_eq_zero_or_one n with h2 | h2 <;> simp [h2] <;> omega

theorem toBits_ofBits (bits : List Bool) : toBits bits.length (ofBits bits) = bits := by
  induction bits using List.reverseRecOn with
  | nil => rfl
  | append_singleton bits b ih =>
    have hdiv : (2 * ofBits bits + b.toNat) / 2 = ofBits bits := by
      have := Bool.toNat_le b
      omega
    have hmod : ((2 * ofBits bits + b.toNat) % 2 == 1) = b := by cases b <;> simp
    rw [List.length_append, List.length_singleton, ofBits_append_singleton, toBits, hdiv, hmod, ih]

theorem ofBits_lt (bits : List Bool) : ofBits bits < 2 ^ bits.length := by
  induction bits using List.reverseRecOn with
  | nil => simp [ofBits]
  | append_singleton bits b ih =>
    rw [List.length_append, List.length_singleton, ofBits_append_singleton, Nat.pow_succ]
    cases b <;> simp <;> omega

/-! ## Groups -/

section Chunks

variable {α β : Type} {k n : ℕ} {l : List α}

theorem flatten_chunks (h : l.length = n * k) : (chunks k n l).flatten = l := by
  induction n generalizing l with
  | zero => simpa [chunks, eq_comm] using h
  | succ n ih =>
    have hdrop : (l.drop k).length = n * k := by
      rw [List.length_drop, h, Nat.succ_mul]
      omega
    rw [chunks, List.flatten_cons, ih hdrop, List.take_append_drop]

@[simp] theorem length_chunks : (chunks k n l).length = n := by
  induction n generalizing l with
  | zero => rfl
  | succ n ih => rw [chunks, List.length_cons, ih]

theorem length_of_mem_chunks (h : l.length = n * k) {c : List α} (hc : c ∈ chunks k n l) :
    c.length = k := by
  induction n generalizing l with
  | zero => simp [chunks] at hc
  | succ n ih =>
    rw [Nat.succ_mul] at h
    rcases List.mem_cons.1 hc with rfl | hc
    · rw [List.length_take]
      omega
    · exact ih (by rw [List.length_drop]; omega) hc

theorem chunks_append {m : ℕ} {l' : List α} (h : l.length = m * k) :
    chunks k (m + n) (l ++ l') = chunks k m l ++ chunks k n l' := by
  induction m generalizing l with
  | zero =>
    obtain rfl : l = [] := by simpa using h
    simp [chunks]
  | succ m ih =>
    rw [Nat.succ_mul] at h
    have hk : k ≤ l.length := by omega
    rw [Nat.succ_add, chunks, chunks, List.take_append_of_le_length hk,
      List.drop_append_of_le_length hk, ih (by rw [List.length_drop]; omega), List.cons_append]

/-- Only the groups themselves are cut. -/
theorem chunks_take : chunks k n (l.take (n * k)) = chunks k n l := by
  induction n generalizing l with
  | zero => rfl
  | succ n ih =>
    rw [chunks, chunks, List.take_take, List.drop_take, Nat.succ_mul, Nat.add_sub_cancel, ih,
      Nat.min_eq_left (Nat.le_add_left _ _)]

/-- Cutting a sequence of blocks of length `k` gives the blocks. -/
theorem chunks_flatMap {f : β → List α} (hf : ∀ b, (f b).length = k) (bs : List β) (rest : List α) :
    chunks k bs.length (bs.flatMap f ++ rest) = bs.map f := by
  induction bs with
  | nil => rfl
  | cons b bs ih =>
    rw [List.length_cons, chunks, List.flatMap_cons, List.append_assoc, List.map_cons,
      List.take_left' (hf b), List.drop_left' (hf b), ih]

end Chunks

/-! ## Filling -/

section Fill

variable {k : ℕ}

theorem length_bitsOf (bytes : List UInt8) : (bitsOf bytes).length = 8 * bytes.length := by
  simp [bitsOf, List.length_flatMap, Nat.mul_comm]

theorem groups_bounds (m : ℕ) (hk : 0 < k) : m ≤ groups k m * k ∧ groups k m * k < m + k := by
  have hdiv := Nat.div_add_mod (m + k - 1) k
  have hmod := Nat.mod_lt (m + k - 1) hk
  rw [groups, Nat.mul_comm]
  omega

theorem length_fill (hk : 0 < k) (bits : List Bool) :
    (fill k bits).length = groups k bits.length * k := by
  have := (groups_bounds bits.length hk).1
  rw [fill, List.length_append, List.length_replicate]
  omega

theorem groups_add (hk : 0 < k) (n m : ℕ) : groups k (n * k + m) = n + groups k m := by
  rw [groups, groups, Nat.add_assoc, Nat.add_sub_assoc (by omega), Nat.add_comm (n * k),
    Nat.add_mul_div_right _ _ hk, Nat.add_comm]

/-- Complete groups in front are not filled. -/
theorem fill_append {l : List Bool} (hk : 0 < k) {n : ℕ} (h : l.length = n * k) (bits : List Bool) :
    fill k (l ++ bits) = l ++ fill k bits := by
  rw [fill, fill, List.length_append, h, groups_add hk, List.append_assoc, Nat.add_mul,
    Nat.add_sub_add_left]

theorem unfill_fill (hk : 0 < k) (hk8 : k ≤ 8) (bytes : List UInt8) :
    unfill k (fill k (bitsOf bytes)) = some bytes := by
  have hbounds := groups_bounds (bitsOf bytes).length hk
  have hlen := length_fill hk (bitsOf bytes)
  have hbits := length_bitsOf bytes
  -- fewer than eight fill bits
  have hn : (fill k (bitsOf bytes)).length / 8 = bytes.length := by omega
  have hdrop : (fill k (bitsOf bytes)).drop (8 * bytes.length) =
      List.replicate (groups k (bitsOf bytes).length * k - (bitsOf bytes).length) false :=
    List.drop_left' hbits
  have hrest : ((fill k (bitsOf bytes)).drop (8 * bytes.length)).length < k ∧
      ((fill k (bitsOf bytes)).drop (8 * bytes.length)).all (· = false) := by
    rw [hdrop, List.length_replicate]
    exact ⟨by omega, by simp⟩
  have hchunks : chunks 8 bytes.length (fill k (bitsOf bytes)) =
      bytes.map fun b => toBits 8 b.toNat := by
    rw [fill, bitsOf]
    exact chunks_flatMap (f := fun b : UInt8 => toBits 8 b.toNat) (fun b => length_toBits 8 _) _ _
  rw [unfill]
  simp only [hn]
  rw [if_pos hrest, hchunks, List.map_map]
  have hbyte : ∀ b : UInt8, UInt8.ofNat (ofBits (toBits 8 b.toNat)) = b := by
    intro b
    rw [ofBits_toBits b.toNat_lt]
    exact UInt8.ofNat_toNat
  exact congrArg some (List.map_congr_left (fun b _ => hbyte b) |>.trans (List.map_id _))

end Fill

/-! ## Round trip -/

namespace Alphabet

variable {k : ℕ} {A : Alphabet k}

theorem char_eq {group : List Bool} (h : group.length = k) :
    ∃ hlt : ofBits group < A.chars.length, A.char group = A.chars[ofBits group] := by
  have hlt : ofBits group < A.chars.length := by
    rw [A.length_eq, ← h]
    exact ofBits_lt group
  exact ⟨hlt, by simp [char, hlt]⟩

theorem bitsOfChar_char {group : List Bool} (h : group.length = k) :
    A.bitsOfChar (A.char group) = some group := by
  obtain ⟨hlt, hchar⟩ := A.char_eq h
  have hmem : A.chars[ofBits group] ∈ A.chars := List.getElem_mem hlt
  rw [hchar, bitsOfChar, if_pos hmem, A.nodup.idxOf_getElem _ hlt]
  subst h
  rw [toBits_ofBits]

theorem mapM_bitsOfChar {gs : List (List Bool)} (h : ∀ g ∈ gs, g.length = k) :
    (gs.map A.char).mapM A.bitsOfChar = some gs := by
  induction gs with
  | nil => rfl
  | cons g gs ih =>
    rw [List.map_cons, List.mapM_cons, bitsOfChar_char (h g (by simp)),
      ih fun g' hg' => h g' (by simp [hg'])]
    rfl

/-- Encoding byte by byte is cutting the filled up bits into groups. -/
theorem encodeFrom_eq (hk : 0 < k) {carry : List Bool} (hcarry : carry.length < k)
    (bytes : List UInt8) :
    A.encodeFrom carry bytes = (chunks k (groups k (carry ++ bitsOf bytes).length)
      (fill k (carry ++ bitsOf bytes))).map A.char := by
  induction bytes generalizing carry with
  | nil =>
    by_cases hnil : carry = []
    · simp [hnil, encodeFrom, bitsOf, groups, chunks, Nat.div_eq_of_lt (Nat.sub_one_lt_of_lt hk)]
    · have hpos : 0 < carry.length := List.length_pos_of_ne_nil hnil
      have hone : groups k carry.length = 1 :=
        Nat.div_eq_of_lt_le (by omega) (by omega)
      have hlen : (carry ++ List.replicate (k - carry.length) false).length = k := by
        rw [List.length_append, List.length_replicate]
        omega
      simp only [encodeFrom, if_neg hnil, bitsOf, List.flatMap_nil, List.append_nil, fill, hone,
        Nat.one_mul, chunks, List.map_cons, List.map_nil,
        List.take_of_length_le (Nat.le_of_eq hlen)]
  | cons b bytes ih =>
    have hsplit : carry ++ bitsOf (b :: bytes) = (carry ++ toBits 8 b.toNat) ++ bitsOf bytes := by
      rw [bitsOf, List.flatMap_cons, List.append_assoc]
      rfl
    rw [encodeFrom, hsplit]
    generalize carry ++ toBits 8 b.toNat = bits
    -- the complete groups go out, the rest is carried on
    have hdiv := Nat.div_mul_le_self bits.length k
    have hmod : bits.length - bits.length / k * k < k := by
      have h₁ := Nat.div_add_mod bits.length k
      have h₂ := Nat.mod_lt bits.length hk
      rw [Nat.mul_comm] at h₁
      omega
    have htake : (bits.take (bits.length / k * k)).length = bits.length / k * k := by
      rw [List.length_take]
      omega
    have hbits : bits ++ bitsOf bytes = bits.take (bits.length / k * k) ++
        (bits.drop (bits.length / k * k) ++ bitsOf bytes) := by
      rw [← List.append_assoc, List.take_append_drop]
    have hlen : (bits ++ bitsOf bytes).length = bits.length / k * k +
        (bits.drop (bits.length / k * k) ++ bitsOf bytes).length := by
      rw [hbits, List.length_append, htake]
    rw [ih (by rwa [List.length_drop]), hlen, groups_add hk, hbits, fill_append hk htake,
      chunks_append htake, chunks_take, List.map_append]

theorem encode_eq (hk : 0 < k) (bytes : List UInt8) :
    A.encode bytes =
      (chunks k (groups k (bitsOf bytes).length) (fill k (bitsOf bytes))).map A.char := by
  rw [encode, encodeFrom_eq hk (by exact hk), List.nil_append]

theorem length_encode (hk : 0 < k) (bytes : List UInt8) :
    (A.encode bytes).length = groups k (8 * bytes.length) := by
  rw [encode_eq hk, List.length_map, length_chunks, length_bitsOf]

theorem decode_encode (hk : 0 < k) (hk8 : k ≤ 8) (bytes : List UInt8) :
    A.decode (A.encode bytes) = some bytes := by
  have hlen := length_fill hk (bitsOf bytes)
  rw [decode, encode_eq hk, mapM_bitsOfChar fun g hg => length_of_mem_chunks hlen hg]
  exact (congrArg (unfill k) (flatten_chunks hlen)).trans (unfill_fill hk hk8 bytes)

theorem mem_of_mem_encode (hk : 0 < k) {bytes : List UInt8} {c : Char} (h : c ∈ A.encode bytes) :
    c ∈ A.chars := by
  rw [encode_eq hk] at h
  obtain ⟨group, hgroup, rfl⟩ := List.mem_map.1 h
  obtain ⟨hlt, hchar⟩ := A.char_eq (length_of_mem_chunks (length_fill hk _) hgroup)
  exact hchar ▸ List.getElem_mem hlt

end Alphabet

end BitCodec

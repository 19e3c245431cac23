import Pubky.Lib.Text

/-!
# Percent-encoding

The characters that an encoder does not keep become the escapes `%XX` of their UTF-8 bytes; the
decoder replaces every escape by its byte and leaves all other bytes alone, as the crate
`percent_encoding` does. Decoding undoes every encoder that keeps ASCII characters other than `%`
(`decodeBytes_encode`).
-/

namespace Percent

/-- The bytes of a text. -/
def bytes (t : Text) : List UInt8 := t.flatMap String.utf8EncodeChar

/-- An upper case hexadecimal digit. -/
def hexDigit (n : ℕ) : Char :=
  Char.ofNat (if n < 10 then 0x30 + n else 0x37 + n)

/-- The value of a hexadecimal digit in either case. -/
def hexValue (b : UInt8) : Option ℕ :=
  let n := b.toNat
  if 0x30 ≤ n ∧ n ≤ 0x39 then some (n - 0x30)
  else if 0x41 ≤ n ∧ n ≤ 0x46 then some (n - 0x37)
  else if 0x61 ≤ n ∧ n ≤ 0x66 then some (n - 0x57)
  else none

/-- The escape of a byte. -/
def escape (b : UInt8) : Text :=
  ['%', hexDigit (b.toNat / 16), hexDigit (b.toNat % 16)]

def encodeChar (keep : Char → Bool) (c : Char) : Text :=
  if keep c then [c] else (String.utf8EncodeChar c).flatMap escape

/-- Escape all characters but those that the encoder keeps. -/
def encode (keep : Char → Bool) (t : Text) : Text :=
  t.flatMap (encodeChar keep)

/-- The byte that three bytes are the escape of. -/
def unescape (b hi lo : UInt8) : Option UInt8 :=
  if b = 37 then do
    let h ← hexValue hi
    let l ← hexValue lo
    return UInt8.ofNat (16 * h + l)
  else none

/-- Replace the escapes by their bytes. -/
def decodeBytes : List UInt8 → List UInt8
  | b :: hi :: lo :: rest =>
    match unescape b hi lo with
    | some x => x :: decodeBytes rest
    | none => b :: decodeBytes (hi :: lo :: rest)
  | rest => rest

/-! ## Encoding -/

variable {keep : Char → Bool} {c : Char} {t u : Text}

theorem encode_cons (keep : Char → Bool) (c : Char) (t : Text) :
    encode keep (c :: t) = encodeChar keep c ++ encode keep t :=
  List.flatMap_cons

theorem bytes_append (t u : Text) : bytes (t ++ u) = bytes t ++ bytes u :=
  List.flatMap_append

theorem bytes_injective : Function.Injective bytes := by
  intro t u h
  have hbytes : (String.ofList t).toByteArray = (String.ofList u).toByteArray :=
    congrArg List.toByteArray h
  simpa using congrArg String.toList (String.toByteArray_inj.1 hbytes)

/-- The digits of escapes. -/
def isUpperHex (c : Char) : Bool := c ∈ "0123456789ABCDEF".toList

theorem hexDigit_isUpperHex {n : ℕ} (h : n < 16) : isUpperHex (hexDigit n) := by
  have hall : ∀ n : Fin 16, isUpperHex (hexDigit n) := by decide
  exact hall ⟨n, h⟩

theorem mem_escape {b : UInt8} (h : c ∈ escape b) : c = '%' ∨ isUpperHex c := by
  have hb := b.toNat_lt
  simp only [escape, List.mem_cons, List.not_mem_nil, or_false] at h
  rcases h with rfl | rfl | rfl
  · exact .inl rfl
  · exact .inr (hexDigit_isUpperHex (by omega))
  · exact .inr (hexDigit_isUpperHex (by omega))

/-- An encoded text has only kept characters, `%` and digits. -/
theorem mem_encode (h : c ∈ encode keep t) :
    (keep c ∧ c ∈ t) ∨ c = '%' ∨ isUpperHex c := by
  obtain ⟨d, hd, hc⟩ := List.mem_flatMap.1 h
  rw [encodeChar] at hc
  split at hc
  · rename_i hkeep
    obtain rfl := List.mem_singleton.1 hc
    exact .inl ⟨hkeep, hd⟩
  · obtain ⟨b, -, hb⟩ := List.mem_flatMap.1 hc
    exact .inr (mem_escape hb)

/-- Kept characters stay. -/
theorem encode_eq_self (h : ∀ c ∈ t, keep c) : encode keep t = t := by
  induction t with
  | nil => rfl
  | cons c t ih =>
    obtain ⟨hc, ht⟩ := List.forall_mem_cons.1 h
    rw [encode_cons, encodeChar, if_pos hc, ih ht, List.singleton_append]

theorem percent_mem_encodeChar (hc : ¬ keep c) : '%' ∈ encodeChar keep c := by
  rw [encodeChar, if_neg hc]
  obtain ⟨b, rest, hb⟩ := List.exists_cons_of_ne_nil (String.utf8EncodeChar_ne_nil (c := c))
  rw [hb, List.flatMap_cons, escape]
  simp

theorem encode_ne_nil (h : t ≠ []) : encode keep t ≠ [] := by
  obtain ⟨c, t, rfl⟩ := List.exists_cons_of_ne_nil h
  rw [encode_cons]
  by_cases hc : keep c
  · simp [encodeChar, hc]
  · exact List.append_ne_nil_of_left_ne_nil (List.ne_nil_of_mem (percent_mem_encodeChar hc)) _

theorem utf8EncodeChar_ascii (h : c.toNat < 128) :
    String.utf8EncodeChar c = [UInt8.ofNat c.toNat] := by
  have hc : c.val.toNat ≤ 127 := Nat.le_of_lt_succ h
  rw [String.utf8EncodeChar, if_pos hc]
  rfl

theorem decodeBytes_cons_of_ne {b : UInt8} (hb : b ≠ 37) (rest : List UInt8) :
    decodeBytes (b :: rest) = b :: decodeBytes rest := by
  match rest with
  | [] => rfl
  | [_] => rfl
  | hi :: lo :: rest => simp [decodeBytes, unescape, hb]

theorem decodeBytes_escape (b : UInt8) (rest : List UInt8) :
    decodeBytes (bytes (escape b) ++ rest) = b :: decodeBytes rest := by
  have hall : ∀ n : Fin 256, bytes (escape (UInt8.ofNat n)) =
      [37, UInt8.ofNat (hexDigit (n / 16)).toNat, UInt8.ofNat (hexDigit (n % 16)).toNat] ∧
      unescape 37 (UInt8.ofNat (hexDigit (n / 16)).toNat) (UInt8.ofNat (hexDigit (n % 16)).toNat) =
        some (UInt8.ofNat n) := by
    decide +kernel
  obtain ⟨hbytes, hvalue⟩ := hall ⟨b.toNat, b.toNat_lt⟩
  simp only [UInt8.ofNat_toNat] at hbytes hvalue
  rw [hbytes]
  simp [decodeBytes, hvalue]

theorem decodeBytes_escapes (bs rest : List UInt8) :
    decodeBytes (bytes (bs.flatMap escape) ++ rest) = bs ++ decodeBytes rest := by
  induction bs with
  | nil => rfl
  | cons b bs ih =>
    rw [List.flatMap_cons, bytes_append, List.append_assoc, decodeBytes_escape, ih,
      List.cons_append]

/-- The encoder keeps only ASCII characters and escapes `%`. -/
structure Lawful (keep : Char → Bool) : Prop where
  ascii : ∀ c, keep c → c.toNat < 128
  percent : keep '%' = false

theorem decodeBytes_encodeChar (hkeep : Lawful keep) (c : Char) (rest : List UInt8) :
    decodeBytes (bytes (encodeChar keep c) ++ rest) =
      String.utf8EncodeChar c ++ decodeBytes rest := by
  rw [encodeChar]
  split
  · rename_i hc
    have hbytes : bytes [c] = [UInt8.ofNat c.toNat] := by
      rw [bytes, List.flatMap_singleton, utf8EncodeChar_ascii (hkeep.ascii c hc)]
    have hne : UInt8.ofNat c.toNat ≠ 37 := by
      intro h
      have hnat : c.toNat = 37 := by
        have := congrArg UInt8.toNat h
        rw [UInt8.toNat_ofNat_of_lt' (Nat.lt_trans (hkeep.ascii c hc) (by decide))] at this
        exact this
      have hpercent : c = '%' := Char.toNat_inj.1 hnat
      rw [hpercent, hkeep.percent] at hc
      cases hc
    rw [hbytes, List.singleton_append, decodeBytes_cons_of_ne hne,
      utf8EncodeChar_ascii (hkeep.ascii c hc), List.singleton_append]
  · exact decodeBytes_escapes _ rest

/-- Decoding undoes the encoding, also in front of other bytes. -/
theorem decodeBytes_encode_append (hkeep : Lawful keep) (t : Text) (rest : List UInt8) :
    decodeBytes (bytes (encode keep t) ++ rest) = bytes t ++ decodeBytes rest := by
  induction t with
  | nil => rfl
  | cons c t ih =>
    rw [encode_cons, bytes_append, List.append_assoc, decodeBytes_encodeChar hkeep, ih,
      ← List.append_assoc]
    rfl

theorem decodeBytes_encode (hkeep : Lawful keep) (t : Text) :
    decodeBytes (bytes (encode keep t)) = bytes t := by
  have h := decodeBytes_encode_append hkeep t []
  rwa [List.append_nil, show decodeBytes [] = [] from rfl, List.append_nil] at h

theorem encode_injective (hkeep : Lawful keep) : Function.Injective (encode keep) := by
  intro t u h
  have hbytes : bytes t = bytes u := by
    rw [← decodeBytes_encode hkeep t, h, decodeBytes_encode hkeep u]
  exact bytes_injective hbytes

/-! ## Splitting -/

private theorem splitOnP_append_of_not_sep {p : Char → Bool} (h : ∀ c ∈ t, p c = false)
    (u : Text) : (t ++ u).splitOnP p = (u.splitOnP p).modifyHead (t ++ ·) := by
  induction t with
  | nil =>
    rw [List.nil_append]
    cases u.splitOnP p <;> rfl
  | cons c t ih =>
    obtain ⟨hc, ht⟩ := List.forall_mem_cons.1 h
    rw [List.cons_append, List.splitOnP_cons_eq_if_modifyHead, hc, if_neg Bool.false_ne_true, ih ht]
    cases u.splitOnP p <;> rfl

/-- Encoding the pieces of a text, if the encoder keeps the separators in it. -/
theorem splitOnP_encode {p : Char → Bool} (hsep : ∀ c ∈ t, p c → keep c)
    (hescape : ∀ c, c = '%' ∨ isUpperHex c → p c = false) :
    (encode keep t).splitOnP p = (t.splitOnP p).map (encode keep) := by
  induction t with
  | nil => rfl
  | cons c t ih =>
    obtain ⟨hc, ht⟩ := List.forall_mem_cons.1 hsep
    rw [encode_cons, List.splitOnP_cons_eq_if_modifyHead]
    by_cases hp : p c
    · rw [if_pos hp, encodeChar, if_pos (hc hp), List.singleton_append,
        List.splitOnP_cons_eq_if_modifyHead, if_pos hp, ih ht]
      rfl
    · have hchars : ∀ d ∈ encodeChar keep c, p d = false := by
        intro d hd
        have hmem : d ∈ encode keep [c] := by simpa [encode] using hd
        rcases mem_encode hmem with ⟨-, hdc⟩ | hd
        · obtain rfl := List.mem_singleton.1 hdc
          exact Bool.not_eq_true _ ▸ hp
        · exact hescape d hd
      rw [if_neg hp, splitOnP_append_of_not_sep hchars, ih ht]
      cases t.splitOnP p with
      | nil => rfl
      | cons u us =>
        rw [List.map_cons, List.modifyHead_cons, List.modifyHead_cons, List.map_cons, encode_cons]

end Percent

import Pubky.Homeserver.Grant.Database

/-!
# Signup codes

`persistence/sql/entities/signup_code.rs`: what a signup code looks like, and how one is drawn. A
code is documented as three groups of four characters of Crockford's base32 with hyphens between
them. The codes that are drawn are of this form; the codes that are accepted are all texts of
fourteen bytes that consist of such characters and of hyphens, wherever the hyphens stand.
-/

namespace Pubky.Homeserver.Grant

open BitCodec

/-- Crockford's base32. -/
def crockford : Alphabet 5 where
  chars :=
    ['0', '1', '2', '3', '4', '5', '6', '7', '8', '9', 'A', 'B', 'C', 'D', 'E', 'F',
    'G', 'H', 'J', 'K', 'M', 'N', 'P', 'Q', 'R', 'S', 'T', 'V', 'W', 'X', 'Y', 'Z']
  length_eq := by decide
  nodup := by decide

/-- A character of Crockford's base32, in either case. -/
def isCrockford (c : Char) : Bool :=
  c.toUpper ∈ crockford.chars

/-- The crate `base32` with `Alphabet::Crockford`. -/
structure Base32 where
  encode : Bytes → Text
  decode : Text → Option Bytes

/-- What is assumed of the crate: the decoder accepts exactly the texts over the alphabet, and
the encoder writes five bits a character in upper case, to be read back. -/
structure Base32.Lawful (B : Base32) : Prop where
  decode_isSome (text : Text) : (B.decode text).isSome ↔ ∀ c ∈ text, isCrockford c
  decode_encode (bytes : Bytes) : B.decode (B.encode bytes) = some bytes
  mem_encode {bytes : Bytes} {c : Char} (h : c ∈ B.encode bytes) : c ∈ crockford.chars
  length_encode (bytes : Bytes) : (B.encode bytes).length = groups 5 (8 * bytes.length)

theorem map_toUpper {t : Text} (h : ∀ c ∈ t, c ∈ crockford.chars) : t.map Char.toUpper = t := by
  have hupper : ∀ d ∈ crockford.chars, d.toUpper = d := Text.forall_mem_of_all (by decide)
  exact (List.map_congr_left fun c hc => hupper c (h c hc)).trans (List.map_id _)

theorem isSome_mapM_bitsOfChar (t : Text) :
    (t.mapM crockford.bitsOfChar).isSome ↔ ∀ c ∈ t, c ∈ crockford.chars := by
  induction t with
  | nil => simp
  | cons c t ih =>
    rw [List.mapM_cons, List.forall_mem_cons, ← ih]
    by_cases hc : c ∈ crockford.chars
    · cases t.mapM crockford.bitsOfChar <;> simp [Alphabet.bitsOfChar, hc]
    · simp [Alphabet.bitsOfChar, hc]

namespace SignupCode

/-- Check if a signup code id is in a valid format. -/
def isValid (B : Base32) (value : Text) : Bool :=
  if Text.byteLen value ≠ 14 then false
  else (B.decode (value.filter (· ≠ '-'))).isSome

/-- Create a new signup code id. -/
def new (B : Base32) (id : Text) : Option SignupCode :=
  if isValid B id then some ⟨id⟩ else none

/-- The loop of `random` from the character with this index on. -/
def withHyphens : ℕ → Text → Text
  | _, [] => []
  | i, ch :: rest =>
    if i > 0 ∧ i % 4 = 0 then '-' :: ch :: withHyphens (i + 1) rest
    else ch :: withHyphens (i + 1) rest

/-- The signup code of the bytes that were drawn. -/
def random (B : Base32) (bytes : Bytes) : SignupCode :=
  ⟨withHyphens 0 ((B.encode bytes).map Char.toUpper)⟩

/-- The documented format: three groups of four characters with hyphens between them. -/
def hasFormat (value : Text) : Bool :=
  (value.splitOn '-').length = 3 &&
    (value.splitOn '-').all fun group => group.length = 4 && group.all isCrockford

/-- The fifth and the tenth character are the hyphens. -/
def HyphensInPlace (value : Text) : Prop :=
  ∀ p ∈ value.zipIdx, p.1 = '-' ↔ p.2 = 4 ∨ p.2 = 9

instance (value : Text) : Decidable (HyphensInPlace value) :=
  inferInstanceAs (Decidable (∀ p ∈ value.zipIdx, p.1 = '-' ↔ p.2 = 4 ∨ p.2 = 9))

/-! ## Characters -/

theorem hyphen_not_crockford : isCrockford '-' = false := by decide

theorem utf8Size_of_isCrockford {c : Char} (h : isCrockford c) : c.utf8Size = 1 := by
  have hle : ∀ d ∈ crockford.chars, d.val ≤ 127 := Text.forall_mem_of_all (by decide)
  have hupper : c.toUpper.val ≤ 127 := hle _ (by simpa [isCrockford] using h)
  refine Char.utf8Size_eq_one_iff.2 ?_
  unfold Char.toUpper at hupper
  split at hupper
  · rename_i hlower
    exact UInt32.le_trans hlower.2 (by decide)
  · exact hupper

theorem byteLen_eq_length {value : Text} (h : ∀ c ∈ value, isCrockford c ∨ c = '-') :
    Text.byteLen value = value.length := by
  have hsize : ∀ c ∈ value, c.utf8Size = 1 := fun c hc =>
    (h c hc).elim utf8Size_of_isCrockford fun hc => hc ▸ by decide
  rw [Text.byteLen, List.map_congr_left hsize]
  simp

variable {B : Base32}

/-- The codes that are accepted. -/
theorem isValid_iff (hB : B.Lawful) {value : Text} :
    isValid B value ↔ value.length = 14 ∧ ∀ c ∈ value, isCrockford c ∨ c = '-' := by
  have hchars : (B.decode (value.filter (· ≠ '-'))).isSome ↔
      ∀ c ∈ value, isCrockford c ∨ c = '-' := by
    rw [hB.decode_isSome]
    simp only [List.mem_filter, decide_eq_true_eq, and_imp, or_iff_not_imp_right, ne_eq]
  have hvalid : isValid B value ↔
      Text.byteLen value = 14 ∧ (B.decode (value.filter (· ≠ '-'))).isSome := by
    unfold isValid
    split
    case isTrue hlen => exact ⟨nofun, fun h => absurd h.1 hlen⟩
    case isFalse hlen => exact ⟨fun h => ⟨not_not.1 hlen, h⟩, And.right⟩
  rw [hvalid, hchars]
  exact and_congr_left fun hall => by rw [byteLen_eq_length hall]

/-! ## The documented format -/

theorem hasFormat_iff {value : Text} :
    hasFormat value ↔ ∃ a b c : Text, value = a ++ '-' :: (b ++ '-' :: c) ∧
      ∀ group ∈ [a, b, c], group.length = 4 ∧ ∀ x ∈ group, isCrockford x := by
  simp only [hasFormat, Bool.and_eq_true, decide_eq_true_eq, List.all_eq_true]
  constructor
  · rintro ⟨hthree, hgroups⟩
    obtain ⟨a, b, c, habc⟩ := List.length_eq_three.1 hthree
    rw [habc] at hgroups
    refine ⟨a, b, c, ?_, hgroups⟩
    have hjoin := Text.join_splitOn (c := '-') (t := value)
    rw [habc, Text.join_cons_cons, Text.join_cons_cons] at hjoin
    rw [← hjoin]
    simp [Text.join]
  · rintro ⟨a, b, c, rfl, hgroups⟩
    have hhyphen : ∀ group ∈ [a, b, c], '-' ∉ group := fun group hgroup h => by
      have := (hgroups group hgroup).2 _ h
      rw [hyphen_not_crockford] at this
      cases this
    rw [Text.splitOn_append (hhyphen a (by simp)), Text.splitOn_append (hhyphen b (by simp)),
      Text.splitOn_of_not_mem (hhyphen c (by simp))]
    exact ⟨rfl, hgroups⟩

/-- Of the codes that are accepted, those with the hyphens in their places have the format. -/
theorem hasFormat_iff_hyphensInPlace {value : Text} :
    hasFormat value ↔ (value.length = 14 ∧ ∀ c ∈ value, isCrockford c ∨ c = '-') ∧
      HyphensInPlace value := by
  have hne : ∀ {c : Char}, isCrockford c → c ≠ '-' := by
    rintro _ h rfl
    rw [hyphen_not_crockford] at h
    cases h
  rw [hasFormat_iff]
  constructor
  · rintro ⟨a, b, c, rfl, hgroups⟩
    have hlen : ∀ group ∈ [a, b, c], group.length = 4 := fun group h => (hgroups group h).1
    have hchars : ∀ group ∈ [a, b, c], ∀ x ∈ group, isCrockford x := fun group h =>
      (hgroups group h).2
    clear hgroups
    match a, b, c, hlen a (by simp), hlen b (by simp), hlen c (by simp) with
    | [_, _, _, _], [_, _, _, _], [_, _, _, _], _, _, _ =>
      simp only [List.forall_mem_cons] at hchars
      simp_all [HyphensInPlace]
  · rintro ⟨⟨hlen, hchars⟩, hplace⟩
    match value, hlen with
    | [a₁, a₂, a₃, a₄, h₁, b₁, b₂, b₃, b₄, h₂, c₁, c₂, c₃, c₄], _ =>
      simp [HyphensInPlace] at hplace hchars
      refine ⟨[a₁, a₂, a₃, a₄], [b₁, b₂, b₃, b₄], [c₁, c₂, c₃, c₄], ?_, ?_⟩
      · simp [hplace]
      · simp_all

/-! ## Drawing a code -/

theorem map_toUpper_encode (hB : B.Lawful) (bytes : Bytes) :
    (B.encode bytes).map Char.toUpper = B.encode bytes :=
  map_toUpper fun _ => hB.mem_encode

theorem filter_withHyphens {t : Text} (h : '-' ∉ t) (i : ℕ) :
    (withHyphens i t).filter (· ≠ '-') = t := by
  induction t generalizing i with
  | nil => rfl
  | cons ch rest ih =>
    rw [List.mem_cons, not_or] at h
    rw [withHyphens]
    split
    · simpa [Ne.symm h.1] using ih h.2 (i + 1)
    · simpa [Ne.symm h.1] using ih h.2 (i + 1)

theorem hyphen_not_mem_encode (hB : B.Lawful) (bytes : Bytes) : '-' ∉ B.encode bytes := fun h =>
  absurd (hB.mem_encode h) (by decide)

/-- A code that is drawn has the documented format. -/
theorem hasFormat_random (hB : B.Lawful) {bytes : Bytes} (hlen : bytes.length = 7) :
    hasFormat (random B bytes).asStr := by
  have hchars : ∀ c ∈ B.encode bytes, isCrockford c := by
    have hmem : ∀ d ∈ crockford.chars, isCrockford d := Text.forall_mem_of_all (by decide)
    exact fun c hc => hmem c (hB.mem_encode hc)
  have htwelve : (B.encode bytes).length = 12 := by
    rw [hB.length_encode, hlen]
    rfl
  rw [random, map_toUpper_encode hB, hasFormat_iff]
  match B.encode bytes, htwelve, hchars with
  | [a₁, a₂, a₃, a₄, b₁, b₂, b₃, b₄, c₁, c₂, c₃, c₄], _, hchars =>
    refine ⟨[a₁, a₂, a₃, a₄], [b₁, b₂, b₃, b₄], [c₁, c₂, c₃, c₄], rfl, ?_⟩
    simpa [and_assoc] using hchars

theorem random_injective (hB : B.Lawful) {bytes bytes' : Bytes}
    (h : random B bytes = random B bytes') : bytes = bytes' := by
  simp only [random, map_toUpper_encode hB, SignupCode.mk.injEq] at h
  have hencode := congrArg (List.filter (· ≠ '-')) h
  rw [filter_withHyphens (hyphen_not_mem_encode hB _),
    filter_withHyphens (hyphen_not_mem_encode hB _)] at hencode
  have hdecode := congrArg B.decode hencode
  rw [hB.decode_encode, hB.decode_encode] at hdecode
  exact Option.some.inj hdecode

/-- A text is judged by the documented format exactly if it is not accepted for its characters
alone: if fourteen characters of the alphabet and hyphens have the hyphens in their places. The
codes that are drawn have the format, and different bytes give different codes. -/
theorem signupCode_format_iff (hB : B.Lawful) :
    (∀ value : Text, (isValid B value ↔ hasFormat value) ↔
      (value.length = 14 → (∀ c ∈ value, isCrockford c ∨ c = '-') → HyphensInPlace value)) ∧
    (∀ bytes : Bytes, bytes.length = 7 → hasFormat (random B bytes).asStr) ∧
    ∀ bytes bytes' : Bytes, bytes.length = 7 → bytes'.length = 7 → bytes ≠ bytes' →
      random B bytes ≠ random B bytes' := by
  refine ⟨fun value => ?_, fun bytes => hasFormat_random hB, fun bytes bytes' _ _ hne h =>
    hne (random_injective hB h)⟩
  rw [isValid_iff hB, hasFormat_iff_hyphensInPlace]
  constructor
  · intro h hlen hchars
    exact (h.1 ⟨hlen, hchars⟩).2
  · intro h
    exact ⟨fun hvalid => ⟨hvalid, h hvalid.1 hvalid.2⟩, And.left⟩

end SignupCode

/-! ## The crate -/

/-- Decoding ignores the case of letters and drops the bits after the last byte. -/
def crockfordDecode (text : Text) : Option Bytes := do
  let groups ← (text.map Char.toUpper).mapM crockford.bitsOfChar
  return (chunks 8 (groups.flatten.length / 8) groups.flatten).map fun group =>
    UInt8.ofNat (ofBits group)

def crockfordBase32 : Base32 := ⟨crockford.encode, crockfordDecode⟩

theorem crockfordBase32_lawful : crockfordBase32.Lawful where
  decode_isSome text := by
    have hsome : (crockfordDecode text).isSome =
        ((text.map Char.toUpper).mapM crockford.bitsOfChar).isSome := by
      unfold crockfordDecode
      cases (text.map Char.toUpper).mapM crockford.bitsOfChar <;> rfl
    change (crockfordDecode text).isSome ↔ _
    rw [hsome, isSome_mapM_bitsOfChar]
    simp [isCrockford]
  decode_encode bytes := by
    have hupper : (crockford.encode bytes).map Char.toUpper = crockford.encode bytes :=
      map_toUpper fun c hc => Alphabet.mem_of_mem_encode (by decide) hc
    have hdecode := Alphabet.decode_encode (A := crockford) (by decide) (by decide) bytes
    obtain ⟨groups, hgroups, hunfill⟩ := Option.bind_eq_some_iff.1 hdecode
    rw [unfill] at hunfill
    split at hunfill
    · simpa [crockfordBase32, crockfordDecode, hupper, hgroups] using hunfill
    · cases hunfill
  mem_encode h := Alphabet.mem_of_mem_encode (by decide) h
  length_encode := Alphabet.length_encode (by decide)

namespace SignupCode

theorem signupCode_format_crockford :
    (isValid crockfordBase32 "JZY0-D6MY-ZFNG".toList ↔ hasFormat "JZY0-D6MY-ZFNG".toList) ∧
      hasFormat (random crockfordBase32 [0x97, 0xFC, 0x06, 0x9A, 0x9E, 0xFB, 0xEB]).asStr ∧
      random crockfordBase32 [0x97, 0xFC, 0x06, 0x9A, 0x9E, 0xFB, 0xEB] ≠
        random crockfordBase32 [0, 0, 0, 0, 0, 0, 0] :=
  have h := signupCode_format_iff crockfordBase32_lawful
  ⟨(h.1 _).2 fun _ _ => by decide, h.2.1 _ rfl, h.2.2 _ _ rfl rfl (by decide)⟩

/-- Nothing but hyphens is accepted, and so is a code without any. -/
theorem hyphens_accepted :
    isValid crockfordBase32 "--------------".toList = true ∧
      hasFormat "--------------".toList = false ∧
      isValid crockfordBase32 "JZY0D6MYZFNG00".toList = true ∧
      hasFormat "JZY0D6MYZFNG00".toList = false := by
  decide +kernel

end SignupCode

end Pubky.Homeserver.Grant

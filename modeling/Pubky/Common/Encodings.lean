import Pubky.Common.Jws
import Pubky.Lib.BitCodec

/-!
# The encodings of keys and tokens

base64url without padding, as JWS uses it, z-base-32, in which public keys are written, and the
JSON texts of headers and claims. `Crates.ofTokens` is the instance of `Crates` that they give for
a set of signed tokens, with the laws that are assumed of `Crates` elsewhere.
-/

namespace Pubky

open BitCodec

/-- base64url, RFC 4648 section 5. -/
def base64Url : Alphabet 6 where
  chars :=
    ['A', 'B', 'C', 'D', 'E', 'F', 'G', 'H', 'I', 'J', 'K', 'L', 'M', 'N', 'O', 'P',
    'Q', 'R', 'S', 'T', 'U', 'V', 'W', 'X', 'Y', 'Z', 'a', 'b', 'c', 'd', 'e', 'f',
    'g', 'h', 'i', 'j', 'k', 'l', 'm', 'n', 'o', 'p', 'q', 'r', 's', 't', 'u', 'v',
    'w', 'x', 'y', 'z', '0', '1', '2', '3', '4', '5', '6', '7', '8', '9', '-', '_']
  length_eq := by decide
  nodup := by decide

/-- z-base-32. -/
def zBase32 : Alphabet 5 where
  chars :=
    ['y', 'b', 'n', 'd', 'r', 'f', 'g', '8', 'e', 'j', 'k', 'm', 'c', 'p', 'q', 'x',
    'o', 't', '1', 'u', 'w', 'i', 's', 'z', 'a', '3', '4', '5', 'h', '7', '6', '9']
  length_eq := by decide
  nodup := by decide

theorem base64Url_decode_encode (bytes : Bytes) :
    base64Url.decode (base64Url.encode bytes) = some bytes :=
  Alphabet.decode_encode (by decide) (by decide) bytes

/-- Segments of a JWS contain no separator. -/
theorem dot_not_mem_base64Url (bytes : Bytes) : '.' ∉ base64Url.encode bytes := fun h =>
  absurd (Alphabet.mem_of_mem_encode (by decide) h) (by decide)

/-- `pkarr::PublicKey::to_z32` -/
def PublicKey.z32 (key : PublicKey) : Text :=
  zBase32.encode key.bytes

theorem PublicKey.z32_injective : Function.Injective PublicKey.z32 := by
  intro a b h
  have hdec := congrArg zBase32.decode h
  simp only [PublicKey.z32, Alphabet.decode_encode (A := zBase32) (by decide) (by decide),
    Option.some.injEq] at hdec
  cases a
  cases b
  simpa using hdec

/-- Read a public key from its z-base-32 text. -/
def PublicKey.ofZ32 (text : Text) : Option PublicKey := do
  let bytes ← zBase32.decode text
  if h : bytes.length = 32 then some ⟨bytes, h⟩ else none

theorem PublicKey.ofZ32_z32 (key : PublicKey) : PublicKey.ofZ32 key.z32 = some key := by
  rw [PublicKey.ofZ32, PublicKey.z32, Alphabet.decode_encode (by decide) (by decide)]
  simp [key.length_eq]

theorem PublicKey.length_z32 (key : PublicKey) : key.z32.length = 52 := by
  rw [PublicKey.z32, Alphabet.length_encode (by decide), key.length_eq]
  rfl

/-- The text of a key is too short to carry a prefix. -/
theorem PublicKey.not_prefixed_of_length {text : Text} (hlength : text.length = 52)
    (hchars : ∀ c ∈ text, c ∈ zBase32.chars) : PublicKey.isPubkyPrefixed text = false := by
  have hascii : ∀ t : Text, (∀ c ∈ t, c ∈ zBase32.chars) → t.byteLen = t.length := by
    intro t ht
    have hone : ∀ c ∈ zBase32.chars, c.utf8Size = 1 := Text.forall_mem_of_all (by decide)
    have hmap : t.map Char.utf8Size = t.map fun _ => 1 :=
      List.map_congr_left fun c hc => hone c (ht c hc)
    rw [Text.byteLen, hmap]
    simp
  have hlen : Text.byteLen (text.drop 5) = 47 := by
    rw [hascii _ fun c hc => hchars c (List.mem_of_mem_drop hc), List.length_drop, hlength]
  simp [PublicKey.isPubkyPrefixed, hlen]

/-- The big endian bytes of a number. -/
def bytesOfNat (length n : ℕ) : Bytes :=
  (List.range length).reverse.map fun j => UInt8.ofNat (n / 256 ^ j)

theorem length_bytesOfNat (length n : ℕ) : (bytesOfNat length n).length = length := by
  simp [bytesOfNat]

/-- The public key with the given big endian value. -/
def PublicKey.ofNat (n : ℕ) : PublicKey where
  bytes := bytesOfNat 32 n
  length_eq := length_bytesOfNat 32 n

/-! ## JSON -/

def jsonString (t : Text) : Text :=
  '"' :: t ++ ['"']

def jsonNumber (n : UInt64) : Text :=
  Nat.toDigits 10 n.toNat

def jsonMember (name : String) (value : Text) : Text :=
  jsonString name.toList ++ ':' :: value

def jsonObject (members : List Text) : Bytes :=
  utf8 ('\x7b' :: Text.join ',' members ++ ['\x7d'])

def headerJson (typ : Text) : Bytes :=
  jsonObject [jsonMember "alg" (jsonString "EdDSA".toList), jsonMember "typ" (jsonString typ)]

def GrantClaims.toJson (c : GrantClaims) : Bytes :=
  jsonObject
    [jsonMember "iss" (jsonString c.iss.z32),
      jsonMember "client_id" (jsonString c.clientId.asStr),
      jsonMember "caps" ('[' :: Text.join ',' (c.caps.map (jsonString ·.toText)) ++ [']']),
      jsonMember "cnf" (jsonString c.cnf.z32),
      jsonMember "jti" (jsonString c.jti.asStr),
      jsonMember "iat" (jsonNumber c.iat),
      jsonMember "exp" (jsonNumber c.exp)]

def PopProofClaims.toJson (c : PopProofClaims) : Bytes :=
  jsonObject
    [jsonMember "aud" (jsonString c.aud.z32),
      jsonMember "gid" (jsonString c.gid.asStr),
      jsonMember "nonce" (jsonString c.nonce.asStr),
      jsonMember "iat" (jsonNumber c.iat)]

/-- Quotes and backslashes are escaped. -/
def jsonEscape : Text → Text
  | [] => []
  | c :: t => if c = '"' ∨ c = '\\' then '\\' :: c :: jsonEscape t else c :: jsonEscape t

/-- A list of texts without control characters. -/
def jsonTexts (ts : List Text) : Text :=
  '[' :: Text.join ',' (ts.map fun t => jsonString (jsonEscape t)) ++ [']']

/-- Read a text up to its closing quote. -/
def readJsonString (acc : Text) : Text → Option (Text × Text)
  | '"' :: rest => some (acc.reverse, rest)
  | '\\' :: c :: rest => readJsonString (c :: acc) rest
  | c :: rest => readJsonString (c :: acc) rest
  | [] => none

/-- Read at most `fuel` texts up to the closing bracket. -/
def readJsonTexts : ℕ → Text → Option (List Text)
  | fuel + 1, '"' :: rest =>
    match readJsonString [] rest with
    | some (t, [']']) => some [t]
    | some (t, ',' :: rest) => (readJsonTexts fuel rest).map (t :: ·)
    | _ => none
  | _, _ => none

/-- Read what `jsonTexts` writes. -/
def readTexts : Text → Option (List Text)
  | ['[', ']'] => some []
  | '[' :: rest => readJsonTexts rest.length rest
  | _ => none

theorem readJsonString_escape (t acc rest : Text) :
    readJsonString acc (jsonEscape t ++ '"' :: rest) = some (acc.reverse ++ t, rest) := by
  induction t generalizing acc with
  | nil => simp [jsonEscape, readJsonString]
  | cons c t ih =>
    simp only [jsonEscape]
    split
    · simp [readJsonString, ih]
    · next hc =>
      rw [not_or] at hc
      simp [readJsonString, ih, hc.1, hc.2]

theorem readJsonTexts_join {fuel : ℕ} {ts : List Text} (hne : ts ≠ []) (hfuel : ts.length ≤ fuel) :
    readJsonTexts fuel (Text.join ',' (ts.map fun t => jsonString (jsonEscape t)) ++ [']']) =
      some ts := by
  induction ts generalizing fuel with
  | nil => exact absurd rfl hne
  | cons t ts ih =>
    obtain ⟨fuel, rfl⟩ : ∃ n, fuel = n + 1 := ⟨fuel - 1, by simp at hfuel; omega⟩
    cases ts with
    | nil => simp [Text.join, jsonString, readJsonTexts, readJsonString_escape]
    | cons u us =>
      have hrest := @ih fuel (by simp) (by simpa using hfuel)
      rw [List.map_cons] at hrest
      rw [List.map_cons, List.map_cons, Text.join_cons_cons]
      generalize Text.join ',' _ = joined at hrest ⊢
      simp [jsonString, readJsonTexts, readJsonString_escape, hrest]

theorem readTexts_jsonTexts (ts : List Text) : readTexts (jsonTexts ts) = some ts := by
  cases ts with
  | nil => rfl
  | cons t ts =>
    have hlength := Text.length_le_join ',' ((t :: ts).map fun t => jsonString (jsonEscape t))
    rw [List.length_map] at hlength
    have hread := readJsonTexts_join (List.cons_ne_nil t ts) hlength
    rw [jsonTexts, List.cons_append]
    unfold readTexts
    split
    · next h =>
      -- a text is at least its two quotes
      cases ts <;> simp [Text.join, jsonString, List.intercalate] at h
    · next h =>
      cases h
      rwa [List.length_append]
    · next h => exact absurd rfl (h _)

/-! ## Signed tokens -/

/-- A token and the key whose signature it carries. -/
structure SignedToken where
  key : PublicKey
  typ : Text
  payload : Bytes
  signature : Bytes

namespace SignedToken

/-- The compact serialization. -/
def compact (t : SignedToken) : Text :=
  base64Url.encode (headerJson t.typ) ++ '.' ::
    (base64Url.encode t.payload ++ '.' :: base64Url.encode t.signature)

theorem splitn_compact (t : SignedToken) :
    Text.splitn '.' 4 t.compact =
      [base64Url.encode (headerJson t.typ), base64Url.encode t.payload,
        base64Url.encode t.signature] := by
  rw [compact, Text.splitn_append (dot_not_mem_base64Url _),
    Text.splitn_append (dot_not_mem_base64Url _), Text.splitn_of_not_mem (dot_not_mem_base64Url _)]

end SignedToken

/-- `base64Url.decode`, which looks for the encodings of `known` first. -/
def decodeSegment (known : List Bytes) (t : Text) : Option Bytes :=
  (known.find? (base64Url.encode · = t)).orElse fun _ => base64Url.decode t

theorem decodeSegment_encode (known : List Bytes) (bytes : Bytes) :
    decodeSegment known (base64Url.encode bytes) = some bytes := by
  rw [decodeSegment]
  cases h : known.find? (base64Url.encode · = base64Url.encode bytes) with
  | none => simp [base64Url_decode_encode]
  | some found =>
    have heq : base64Url.encode found = base64Url.encode bytes := by
      simpa using List.find?_some h
    have := congrArg base64Url.decode heq
    rw [base64Url_decode_encode, base64Url_decode_encode] at this
    simpa using this

/-- Read the JSON text of one of the given values. -/
def fromJson {α : Type} (toJson : α → Bytes) (known : List α) (bytes : Bytes) : Except Text α :=
  match known.find? (toJson · = bytes) with
  | some a => .ok a
  | none => .error "unknown".toList

/-- The functions of other crates, where exactly the given tokens have been signed and the given
digests are known. -/
def Crates.ofTokens (grants : List GrantClaims) (pops : List PopProofClaims)
    (tokens : List SignedToken) (digests : List (Bytes × Bytes)) : Crates where
  z32 := PublicKey.z32
  fromZ32 := PublicKey.ofZ32
  b64Encode := base64Url.encode
  b64Decode := decodeSegment (grants.map GrantClaims.toJson)
  headerToJson := headerJson
  grantFromJson := fromJson GrantClaims.toJson grants
  popFromJson := fromJson PopProofClaims.toJson pops
  textsToJson := jsonTexts
  textsFromJson := readTexts
  jwtDecode m k :=
    (tokens.find? fun t => t.key = k && t.compact = m).map SignedToken.payload
  jwtDecodeHeader m :=
    match Text.splitn '.' 4 m with
    | [header, _, _] =>
      ([grantJwsTyp, popJwsTyp].find? fun typ => base64Url.encode (headerJson typ) = header).map
        fun typ => ⟨some typ⟩
    | _ => none
  sha256 bytes := ((digests.find? fun d => d.1 = bytes).map Prod.snd).getD []
  isTimestamp secs := -8334601228800 ≤ secs && secs ≤ 8210266876799

section Laws

variable {grants : List GrantClaims} {pops : List PopProofClaims} {tokens : List SignedToken}
  {digests : List (Bytes × Bytes)} {m : Text} {k : PublicKey} {bytes : Bytes}

/-- What a valid signature stands for. -/
theorem Crates.ofTokens_jwtDecode
    (h : (Crates.ofTokens grants pops tokens digests).jwtDecode m k = some bytes) :
    ∃ t ∈ tokens, t.key = k ∧ t.compact = m ∧ t.payload = bytes := by
  obtain ⟨t, ht, hbytes⟩ := Option.map_eq_some_iff.1 h
  have hprop := List.find?_some ht
  simp only [Bool.and_eq_true, decide_eq_true_eq] at hprop
  exact ⟨t, List.mem_of_find?_eq_some ht, hprop.1, hprop.2, hbytes⟩

/-- A verified payload is what the second segment encodes. -/
theorem Crates.ofTokens_decodesPayload :
    (Crates.ofTokens grants pops tokens digests).DecodesPayload := by
  intro m k bytes header payload signature hsplit h
  obtain ⟨t, -, -, rfl, rfl⟩ := Crates.ofTokens_jwtDecode h
  rw [t.splitn_compact] at hsplit
  obtain ⟨-, rfl, -⟩ : _ ∧ base64Url.encode t.payload = payload ∧ _ := by simpa using hsplit
  exact decodeSegment_encode _ _

theorem Crates.ofTokens_readsTexts : (Crates.ofTokens grants pops tokens digests).ReadsTexts :=
  readTexts_jsonTexts

end Laws

end Pubky

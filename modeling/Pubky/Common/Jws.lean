import Pubky.Common.Capabilities

/-!
# Keys, identifiers and JWS tokens

`pubky-common/src/keys.rs` and `pubky-common/src/auth/{jws,grant,pop}.rs`: public keys, the
validated identifiers of grants, nonces and clients, the claims of grants and of
proofs of possession, and the encoding of claims as JWS compact serialization.

Functions of other crates that this code calls are fields of `Crates`; what is assumed of
them is stated where it is used.
-/

namespace Pubky

abbrev Bytes := List UInt8

/-- An Ed25519 public key. -/
structure PublicKey where
  bytes : Bytes
  length_eq : bytes.length = 32
  deriving DecidableEq

/-- UTF-8 encoding. -/
def utf8 (t : Text) : Bytes :=
  t.flatMap String.utf8EncodeChar

/-- UTF-8 decoding, `std::str::from_utf8`. -/
def fromUtf8 (bytes : Bytes) : Option Text :=
  (String.fromUTF8? ⟨bytes.toArray⟩).map String.toList

/-! ## Identifiers -/

inductive JwsError where
  | invalidFormat (message : Text)
  | jsonParse (message : Text)
  deriving DecidableEq, Repr

def randomIdMaxLength : ℕ := 22

def clientIdMaxLength : ℕ := 253

/-- A character of the base64url alphabet. -/
def isBase64Url (c : Char) : Bool :=
  ('A' ≤ c && c ≤ 'Z') || ('a' ≤ c && c ≤ 'z') || ('0' ≤ c && c ≤ '9') || c == '-' || c == '_'

/-- A cryptographically random identifier. -/
structure RandomId where
  asStr : Text
  nonempty : asStr ≠ []
  length_le : asStr.byteLen ≤ randomIdMaxLength
  base64Url : asStr.all isBase64Url
  deriving DecidableEq

def RandomId.parse (s : Text) : Except JwsError RandomId :=
  if h₁ : s = [] then .error (.invalidFormat "RandomId must not be empty".toList)
  else if h₂ : randomIdMaxLength < s.byteLen then
    .error (.invalidFormat "RandomId must be at most 22 characters".toList)
  else if h₃ : s.all isBase64Url then .ok ⟨s, h₁, Nat.le_of_not_lt h₂, h₃⟩
  else .error (.invalidFormat "RandomId must contain only base64url characters".toList)

/-- The identifier of a grant, its `jti` claim. -/
abbrev GrantId := RandomId

/-- The nonce of a proof of possession. -/
abbrev PopNonce := RandomId

/-- An application identifier, typically a domain. -/
structure ClientId where
  asStr : Text
  nonempty : asStr ≠ []
  length_le : asStr.byteLen ≤ clientIdMaxLength
  deriving DecidableEq

def ClientId.new (s : Text) : Except JwsError ClientId :=
  if h₁ : s = [] then .error (.invalidFormat "ClientId must not be empty".toList)
  else if h₂ : clientIdMaxLength < s.byteLen then
    .error (.invalidFormat "ClientId must be at most 253 characters".toList)
  else .ok ⟨s, h₁, Nat.le_of_not_lt h₂⟩

@[simp] theorem RandomId.parse_asStr (id : RandomId) : RandomId.parse id.asStr = .ok id := by
  have h : ¬ randomIdMaxLength < id.asStr.byteLen := Nat.not_lt.2 id.length_le
  simp only [RandomId.parse, dif_neg id.nonempty, dif_neg h, dif_pos id.base64Url]

@[simp] theorem ClientId.new_asStr (id : ClientId) : ClientId.new id.asStr = .ok id := by
  have h : ¬ clientIdMaxLength < id.asStr.byteLen := Nat.not_lt.2 id.length_le
  simp only [ClientId.new, dif_neg id.nonempty, dif_neg h]

theorem RandomId.asStr_of_parse {s : Text} {id : RandomId} (h : RandomId.parse s = .ok id) :
    id.asStr = s := by
  simp only [RandomId.parse] at h
  split at h
  · cases h
  · split at h
    · cases h
    · split at h
      · rw [← Except.ok.inj h]
      · cases h

theorem RandomId.asStr_injective {a b : RandomId} (h : a.asStr = b.asStr) : a = b := by
  cases a
  cases b
  simpa using h

/-! ## Claims -/

/-- The claims of a grant: the user `iss` lets the client that holds `cnf` act for them. -/
structure GrantClaims where
  iss : PublicKey
  clientId : ClientId
  caps : List Capability
  cnf : PublicKey
  jti : GrantId
  iat : UInt64
  exp : UInt64
  deriving DecidableEq

/-- The claims of a proof of possession of a grant's `cnf` key. -/
structure PopProofClaims where
  aud : PublicKey
  gid : GrantId
  nonce : PopNonce
  iat : UInt64
  deriving DecidableEq

/-- The header fields that the verifiers look at. -/
structure JwtHeader where
  typ : Option Text
  deriving DecidableEq

/-- The functions of other crates. -/
structure Crates where
  /-- `pkarr::PublicKey::to_z32` -/
  z32 : PublicKey → Text
  /-- `pkarr::PublicKey::try_from` on a z-base-32 text -/
  fromZ32 : Text → Option PublicKey
  /-- `base64` with the engine `URL_SAFE_NO_PAD` -/
  b64Encode : Bytes → Text
  b64Decode : Text → Option Bytes
  /-- `serde_json::to_vec` of the header object with `alg` `EdDSA` and the given `typ` -/
  headerToJson : Text → Bytes
  /-- `serde_json::from_slice::<GrantClaims>`, with the text of its error -/
  grantFromJson : Bytes → Except Text GrantClaims
  /-- `serde_json::from_slice::<PopProofClaims>` -/
  popFromJson : Bytes → Except Text PopProofClaims
  /-- `serde_json::to_string` of a list of texts, and `serde_json::from_str` back -/
  textsToJson : List Text → Text
  textsFromJson : Text → Option (List Text)
  /-- `jsonwebtoken::decode` with `eddsa_validation`, up to the deserialization of the claims:
  the payload of a compact JWS whose signature is valid for the key -/
  jwtDecode : Text → PublicKey → Option Bytes
  /-- `jsonwebtoken::decode_header` -/
  jwtDecodeHeader : Text → Option JwtHeader
  /-- `sha2::Sha256` -/
  sha256 : Bytes → Bytes
  /-- `chrono::DateTime::from_timestamp(secs, 0)` has a value -/
  isTimestamp : Int64 → Bool

/-- The text is in `pubky<z32>` form. -/
def PublicKey.isPubkyPrefixed (value : Text) : Bool :=
  "pubky".toList.isPrefixOf value && Text.byteLen (value.drop 5) == 52

/-- Parse a public key, with or without the `pubky` prefix. -/
def PublicKey.tryFrom (C : Crates) (value : Text) : Option PublicKey :=
  C.fromZ32 (if PublicKey.isPubkyPrefixed value then value.drop 5 else value)

/-- JWS header `typ` for grant tokens. -/
def grantJwsTyp : Text := "pubky-grant".toList

/-- JWS header `typ` for proofs of possession. -/
def popJwsTyp : Text := "pubky-pop".toList

/-- `base64url(header).base64url(payload)`, for the serialized claims `payload`. -/
def jwsSigningInput (C : Crates) (typ : Text) (payload : Bytes) : Text :=
  C.b64Encode (C.headerToJson typ) ++ '.' :: C.b64Encode payload

/-- Finish compact JWS serialization from a signing input and a raw signature. -/
def finishJws (C : Crates) (signingInput : Text) (signature : Bytes) : Text :=
  signingInput ++ '.' :: C.b64Encode signature

/-- Sign claims as a compact JWS with the signing function of a key pair. -/
def signJws (C : Crates) (sign : Bytes → Bytes) (typ : Text) (payload : Bytes) : Text :=
  let signingInput := jwsSigningInput C typ payload
  finishJws C signingInput (sign (utf8 signingInput))

/-- Decode the payload of a compact JWS without verifying its signature. -/
def decodeJwsPayload {α : Type} (C : Crates) (fromJson : Bytes → Except Text α)
    (compact : Text) : Except JwsError α :=
  match Text.splitn '.' 3 compact with
  | [_, payload, _] =>
    match C.b64Decode payload with
    | none => .error (.invalidFormat "invalid base64url in JWS payload".toList)
    | some bytes =>
      match fromJson bytes with
      | .ok claims => .ok claims
      | .error e => .error (.jsonParse e)
  | _ => .error (.invalidFormat "JWS compact must have 3 dot-separated parts".toList)

/-- `jsonwebtoken::decode` returns the payload segment of the token. -/
def Crates.DecodesPayload (C : Crates) : Prop :=
  ∀ m k bytes header payload signature, Text.splitn '.' 4 m = [header, payload, signature] →
    C.jwtDecode m k = some bytes → C.b64Decode payload = some bytes

/-- `serde_json` reads the lists of texts that it writes. -/
def Crates.ReadsTexts (C : Crates) : Prop :=
  ∀ ts, C.textsFromJson (C.textsToJson ts) = some ts

/-- Claims that passed a verification are the ones that decoding alone gives. -/
theorem decodeJwsPayload_of_verified {C : Crates} {α : Type} {fromJson : Bytes → Except Text α}
    {m : Text} {k : PublicKey} {bytes : Bytes} {claims : α} (hC : C.DecodesPayload)
    (hthree : (Text.splitn '.' 4 m).length = 3) (hdec : C.jwtDecode m k = some bytes)
    (hjson : fromJson bytes = .ok claims) : decodeJwsPayload C fromJson m = .ok claims := by
  obtain ⟨header, payload, signature, hparts⟩ := List.length_eq_three.1 hthree
  have hparts' : Text.splitn '.' 3 m = [header, payload, signature] := by
    rw [Text.splitn_eq_of_length_le (by decide) (Nat.le_of_eq hthree), hparts]
  simp [decodeJwsPayload, hparts', hC _ _ _ _ _ _ hparts hdec, hjson]

/-- Decode a grant without verifying its signature. -/
def GrantClaims.decode (C : Crates) (compact : Text) : Except JwsError GrantClaims :=
  decodeJwsPayload C C.grantFromJson compact

end Pubky

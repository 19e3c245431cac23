import Pubky.Common.EncryptionKeys

/-!
# Signed tokens in the SDK

The four types of JWS that clients sign, and what the SDK uses of other crates to read them.
`SdkCrates.Lawful` says what is assumed of those crates; from it follows how a text that
`finish_jws` made is split again and which header is read from it.
-/

namespace Pubky.Sdk

/-- An Ed25519 signature. -/
structure Signature where
  bytes : Bytes
  length_eq : bytes.length = 64
  deriving DecidableEq

def Signature.fromSlice (bytes : Bytes) : Option Signature :=
  if h : bytes.length = 64 then some ⟨bytes, h⟩ else none

theorem Signature.bytes_of_fromSlice {bytes : Bytes} {s : Signature}
    (h : Signature.fromSlice bytes = some s) : s.bytes = bytes := by
  rw [Signature.fromSlice] at h
  split at h
  · exact (congrArg Signature.bytes (Option.some.inj h)).symm
  · cases h

/-- A JWS header without other members. -/
structure Header where
  alg : Text
  typ : Text
  deriving DecidableEq

/-- Signed proof payload; `V` is the type of JSON values. -/
structure CustomPopClaims (V : Type) where
  gid : GrantId
  iat : UInt64
  nonce : PopNonce
  data : V

/-- An approval as it is on the wire. -/
structure WireEnvelope where
  grant : Text
  encryptionKeys : List KeyEntry
  deriving DecidableEq

/-- The functions of other crates that the SDK calls. -/
structure SdkCrates (V : Type) extends Crates where
  /-- `ed25519_dalek::VerifyingKey::verify` -/
  verify : PublicKey → Bytes → Signature → Bool
  /-- `serde_json::from_slice::<Header>`, which denies unknown fields -/
  headerFromJson : Bytes → Option Header
  /-- `serde_json::from_slice::<CustomPopClaims>` -/
  customPopFromJson : Bytes → Option (CustomPopClaims V)
  /-- `serde_json::from_slice::<ApprovalGrant>`, the `grant` member of an object -/
  approvalGrantFromJson : Bytes → Option Text
  /-- `serde_json::from_slice::<GrantApprovalEnvelope>`, up to the check of the keys -/
  envelopeFromJson : Bytes → Option WireEnvelope
  /-- `hkdf::Hkdf<Sha256>` -/
  hkdf : Hkdf

/-! ## Types of tokens -/

/-- JWS header `typ` for custom proofs. -/
def customPopJwsTyp : Text := "pubky-custom-pop-v1".toList

/-- JWS header `typ` for grant approvals. -/
def approvalJwsTyp : Text := "pubky-grant-approval".toList

inductive JwsType where
  | grant
  | pop
  | customPop
  | approval
  deriving DecidableEq, Repr

def JwsType.typ : JwsType → Text
  | grant => grantJwsTyp
  | pop => popJwsTyp
  | customPop => customPopJwsTyp
  | approval => approvalJwsTyp

theorem JwsType.typ_injective {a b : JwsType} (h : a.typ = b.typ) : a = b := by
  cases a <;> cases b <;> first | rfl | (revert h; decide)

def eddsa : Text := "EdDSA".toList

/-! ## What is assumed of other crates -/

/-- base64 and JSON read back what they wrote, and `jsonwebtoken` reads the header from the first
segment of a token. -/
structure SdkCrates.Lawful {V : Type} (S : SdkCrates V) : Prop where
  dot_not_mem : ∀ bytes, '.' ∉ S.b64Encode bytes
  decode_encode : ∀ bytes, S.b64Decode (S.b64Encode bytes) = some bytes
  headerFromJson_toJson : ∀ t : JwsType,
    S.headerFromJson (S.headerToJson t.typ) = some ⟨eddsa, t.typ⟩
  jwtDecodeHeader_typ : ∀ m (t : JwsType) payload signature header,
    Text.splitn '.' 4 m = [S.b64Encode (S.headerToJson t.typ), payload, signature] →
    S.jwtDecodeHeader m = some header → header.typ = some t.typ

section Compact

variable {V : Type} {S : SdkCrates V} (hS : S.Lawful) (typ : Text) (payload signature : Bytes)

/-- The token that `finish_jws` makes of a signing input. -/
def compactJws (S : SdkCrates V) (typ : Text) (payload signature : Bytes) : Text :=
  finishJws S.toCrates (jwsSigningInput S.toCrates typ payload) signature

theorem signJws_eq (sign : Bytes → Bytes) : signJws S.toCrates sign typ payload =
    compactJws S typ payload (sign (utf8 (jwsSigningInput S.toCrates typ payload))) := rfl

theorem compactJws_eq_join : compactJws S typ payload signature =
    Text.join '.' [S.b64Encode (S.headerToJson typ), S.b64Encode payload,
      S.b64Encode signature] := by
  simp [compactJws, finishJws, jwsSigningInput, Text.join, List.intercalate]

include hS

theorem splitOn_compactJws : (compactJws S typ payload signature).splitOn '.' =
    [S.b64Encode (S.headerToJson typ), S.b64Encode payload, S.b64Encode signature] := by
  rw [compactJws_eq_join, Text.splitOn_join]
  · simp [hS.dot_not_mem]
  · simp

theorem splitn_compactJws : Text.splitn '.' 4 (compactJws S typ payload signature) =
    [S.b64Encode (S.headerToJson typ), S.b64Encode payload, S.b64Encode signature] := by
  rw [compactJws, finishJws, jwsSigningInput, List.append_assoc, List.cons_append,
    Text.splitn_append (hS.dot_not_mem _), Text.splitn_append (hS.dot_not_mem _),
    Text.splitn_of_not_mem (hS.dot_not_mem _)]

theorem rsplitOnce_compactJws : Text.rsplitOnce '.' (compactJws S typ payload signature) =
    some (jwsSigningInput S.toCrates typ payload, S.b64Encode signature) :=
  Text.rsplitOnce_append (hS.dot_not_mem _)

theorem splitOnce_signingInput : Text.splitOnce '.' (jwsSigningInput S.toCrates typ payload) =
    some (S.b64Encode (S.headerToJson typ), S.b64Encode payload) :=
  Text.splitOnce_append (hS.dot_not_mem _)

end Compact

end Pubky.Sdk

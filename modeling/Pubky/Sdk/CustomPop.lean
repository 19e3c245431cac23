import Pubky.Sdk.Jws

/-!
# Custom proofs of possession

`pubky-sdk/src/custom_pop`: credentials that consist of a grant, signed by the user, and a proof
over application data, signed by the client key that the grant names. They are verified without
network access, by a strict parser of compact tokens.

* `parse_eq_ok` and `verifyAt_eq_ok` say what accepted tokens and credentials look like.
* `parse_compactJws`: a token is only parsed as the type it was signed as.
-/

namespace Pubky.Sdk

/-- Upper bound on the encoded JWS header. -/
def maxJwsHeaderLen : ℕ := 512

/-- Length of a signature in base64url without padding. -/
def ed25519SignatureB64Len : ℕ := 86

/-- A root-signed grant and a client-signed custom proof. -/
structure CustomPop where
  grant : Text
  pop : Text
  deriving DecidableEq

/-- Verified provenance and application data. -/
structure VerifiedCustomPop (V : Type) where
  grantClaims : GrantClaims
  iat : UInt64
  nonce : PopNonce
  data : V

inductive CustomPopVerificationError where
  | malformedCredential
  | unsupportedHeader
  | invalidGrantSignature
  | invalidProofSignature
  | invalidGrant
  | grantExpired
  | grantNotYetValid
  | proofNotYetValid
  | proofOutsideGrantValidity
  | grantMismatch
  | invalidClock
  deriving DecidableEq, Repr

/-- The parts of a compact token. -/
structure ParsedJws where
  signingInput : Text
  payload : Bytes
  signature : Signature

variable {V : Type} (S : SdkCrates V)

/-- Parse a token of the expected type, without verifying its signature. -/
def ParsedJws.parse (compact expectedType : Text) : Except CustomPopVerificationError ParsedJws :=
  match compact.splitOn '.' with
  | [header, payload, signature] =>
    if header = [] ∨ maxJwsHeaderLen < Text.byteLen header ∨ payload = [] ∨
        Text.byteLen signature ≠ ed25519SignatureB64Len then
      .error .malformedCredential
    else do
      let header ← (S.b64Decode header).okOr .malformedCredential
      let header ← (S.headerFromJson header).okOr .unsupportedHeader
      if header.alg ≠ eddsa ∨ header.typ ≠ expectedType then .error .unsupportedHeader
      else do
        let signature ← (S.b64Decode signature).okOr .malformedCredential
        let signature ← (Signature.fromSlice signature).okOr .malformedCredential
        let payload ← (S.b64Decode payload).okOr .malformedCredential
        let (signingInput, _) ← (Text.rsplitOnce '.' compact).okOr .malformedCredential
        return ⟨signingInput, payload, signature⟩
  | _ => .error .malformedCredential

/-- Check the signature of a parsed token. -/
def ParsedJws.verify (jws : ParsedJws) (key : PublicKey) (e : CustomPopVerificationError) :
    Except CustomPopVerificationError Unit :=
  if S.verify key (utf8 jws.signingInput) jws.signature then .ok () else .error e

/-- `u64::saturating_add` -/
def saturatingAdd (a b : UInt64) : UInt64 :=
  if a + b < a then 0xffffffffffffffff else a + b

/-- The checks of the claims of a grant and of the proof that was signed for it. -/
def checkClaims (grant : GrantClaims) (proof : CustomPopClaims V) (now clockSkewSeconds : UInt64) :
    Except CustomPopVerificationError Unit :=
  if proof.gid ≠ grant.jti then .error .grantMismatch
  else if grant.exp ≤ grant.iat then .error .invalidGrant
  else if grant.exp ≤ now then .error .grantExpired
  else if saturatingAdd now clockSkewSeconds < grant.iat then .error .grantNotYetValid
  else if saturatingAdd now clockSkewSeconds < proof.iat then .error .proofNotYetValid
  else if saturatingAdd proof.iat clockSkewSeconds < grant.iat ∨ grant.exp ≤ proof.iat then
    .error .proofOutsideGrantValidity
  else .ok ()

/-- Verify both signatures, the grant binding and the grant's validity at `now`. -/
def verifyAt (credentials : CustomPop) (now clockSkewSeconds : UInt64) :
    Except CustomPopVerificationError (VerifiedCustomPop V) := do
  let grantJws ← ParsedJws.parse S credentials.grant grantJwsTyp
  let grant ← (S.grantFromJson grantJws.payload).toOption.okOr .malformedCredential
  grantJws.verify S grant.iss .invalidGrantSignature
  let proofJws ← ParsedJws.parse S credentials.pop customPopJwsTyp
  proofJws.verify S grant.cnf .invalidProofSignature
  let proof ← (S.customPopFromJson proofJws.payload).okOr .malformedCredential
  checkClaims grant proof now clockSkewSeconds
  return ⟨grant, proof.iat, proof.nonce, proof.data⟩

/-! ## What is accepted -/

variable {S}

/-- A parsed token has a header with the expected type, and its signing input is its text up to
the last separator. -/
theorem parse_eq_ok {compact expectedType : Text} {jws : ParsedJws}
    (h : ParsedJws.parse S compact expectedType = .ok jws) :
    ∃ header payload signature headerBytes, compact.splitOn '.' = [header, payload, signature] ∧
      S.b64Decode header = some headerBytes ∧
      S.headerFromJson headerBytes = some ⟨eddsa, expectedType⟩ ∧
      S.b64Decode payload = some jws.payload ∧
      S.b64Decode signature = some jws.signature.bytes ∧
      Text.rsplitOnce '.' compact = some (jws.signingInput, signature) := by
  rw [ParsedJws.parse] at h
  split at h
  case h_2 => cases h
  case h_1 header payload signature hparts =>
    split at h
    · cases h
    simp only [Except.bind_ok_iff, Option.okOr_eq_ok] at h
    obtain ⟨headerBytes, hheader, parsed, hjson, h⟩ := h
    split at h
    · cases h
    rename_i htype
    obtain ⟨halg, htyp⟩ : parsed.alg = eddsa ∧ parsed.typ = expectedType := by
      simpa [not_or] using htype
    simp only [Except.bind_ok_iff, Option.okOr_eq_ok] at h
    obtain ⟨sigBytes, hsig, sig, hslice, payloadBytes, hpayload, ⟨input, last⟩, hsplit, h⟩ := h
    cases h
    have hbytes : sig.bytes = sigBytes := Signature.bytes_of_fromSlice hslice
    -- the last separator is the one before the signature
    have hlast : last = signature := by
      have hmem : '.' ∉ signature :=
        Text.not_mem_of_mem_splitOn (t := compact) (by rw [hparts]; simp)
      have hjoin : compact = (header ++ '.' :: payload) ++ '.' :: signature := by
        rw [← Text.join_splitOn (c := '.') (t := compact), hparts]
        simp [Text.join, List.intercalate]
      rw [hjoin, Text.rsplitOnce_append hmem] at hsplit
      exact (Prod.mk.inj (Option.some.inj hsplit)).2.symm
    refine ⟨header, payload, signature, headerBytes, hparts, hheader, ?_, hpayload, ?_, ?_⟩
    · rw [hjson, ← halg, ← htyp]
    · rw [hsig, hbytes]
    · rw [hsplit, hlast]

/-- A token is only parsed as the type that it was signed as. -/
theorem parse_compactJws (hS : S.Lawful) {t : JwsType} {payload signature : Bytes}
    {expectedType : Text} {jws : ParsedJws}
    (h : ParsedJws.parse S (compactJws S t.typ payload signature) expectedType = .ok jws) :
    expectedType = t.typ := by
  obtain ⟨header, _, _, headerBytes, hparts, hheader, hjson, -⟩ := parse_eq_ok h
  rw [splitOn_compactJws hS] at hparts
  obtain rfl : S.b64Encode (S.headerToJson t.typ) = header := (List.cons.inj hparts).1
  rw [hS.decode_encode] at hheader
  rw [← Option.some.inj hheader, hS.headerFromJson_toJson] at hjson
  exact (Header.mk.inj (Option.some.inj hjson)).2.symm

/-- Accepted credentials: the user signed the grant, the client that the grant names signed the
proof, and the claims fit together. -/
structure Accepted (S : SdkCrates V) (credentials : CustomPop) (now clockSkewSeconds : UInt64)
    (v : VerifiedCustomPop V) (grantJws proofJws : ParsedJws) (proof : CustomPopClaims V) :
    Prop where
  grant : ParsedJws.parse S credentials.grant grantJwsTyp = .ok grantJws
  grantClaims : (S.grantFromJson grantJws.payload).toOption = some v.grantClaims
  grantSigned : S.verify v.grantClaims.iss (utf8 grantJws.signingInput) grantJws.signature = true
  pop : ParsedJws.parse S credentials.pop customPopJwsTyp = .ok proofJws
  popClaims : S.customPopFromJson proofJws.payload = some proof
  popSigned : S.verify v.grantClaims.cnf (utf8 proofJws.signingInput) proofJws.signature = true
  fits : checkClaims v.grantClaims proof now clockSkewSeconds = .ok ()
  data : v.iat = proof.iat ∧ v.nonce = proof.nonce ∧ v.data = proof.data

theorem verify_eq_ok {jws : ParsedJws} {key : PublicKey} {e : CustomPopVerificationError} :
    jws.verify S key e = .ok () ↔ S.verify key (utf8 jws.signingInput) jws.signature = true := by
  rw [ParsedJws.verify]
  split <;> simp_all

theorem verifyAt_eq_ok {credentials : CustomPop} {now clockSkewSeconds : UInt64}
    {v : VerifiedCustomPop V} (h : verifyAt S credentials now clockSkewSeconds = .ok v) :
    ∃ grantJws proofJws proof,
      Accepted S credentials now clockSkewSeconds v grantJws proofJws proof := by
  simp only [verifyAt, Except.bind_ok_iff, Option.okOr_eq_ok] at h
  obtain ⟨grantJws, hgrant, claims, hclaims, ⟨⟩, hsigned, proofJws, hpop, ⟨⟩, hpopSigned, proof,
    hproof, ⟨⟩, hfits, h⟩ := h
  cases h
  exact ⟨grantJws, proofJws, proof, hgrant, hclaims, verify_eq_ok.1 hsigned, hpop, hproof,
    verify_eq_ok.1 hpopSigned, hfits, rfl, rfl, rfl⟩

end Pubky.Sdk

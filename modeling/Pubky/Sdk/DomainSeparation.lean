import Pubky.Homeserver.Grant.Sample
import Pubky.Sdk.Approval
import Pubky.Sdk.CustomPop

/-!
# Domain separation of signed tokens

Grants, proofs of possession, custom proofs and approvals are all signed by `sign_jws`, with the
type of the token in the header, and are read by four verifiers that parse headers in different
ways: the homeserver with `jsonwebtoken`, custom proofs and approvals each with a parser of the SDK.
`jws_domain_separation`: a token that was signed as one type is rejected as every other type.
-/

namespace Pubky.Sdk

open Homeserver.Grant

/-- The computation fails. -/
def Rejected {ε α : Type} (x : Except ε α) : Prop :=
  ∃ e, x = .error e

theorem rejected_of_ne_ok {ε α : Type} {x : Except ε α} (h : ∀ a, x ≠ .ok a) : Rejected x := by
  cases x with
  | error e => exact ⟨e, rfl⟩
  | ok a => exact absurd rfl (h a)

variable {V : Type}

/-- Every verifier of tokens of the given type rejects the text. -/
def JwsType.Rejects (S : SdkCrates V) (m : Text) : JwsType → Prop
  | .grant =>
    (∀ g : JwsCompact, g.asStr = m → Rejected (verifyGrantForRevocation S.toCrates g) ∧
      ∀ now, Rejected (verifyGrantAt S.toCrates g now)) ∧
    ∀ pop now clockSkew, Rejected (verifyAt S ⟨m, pop⟩ now clockSkew)
  | .pop =>
    ∀ p : JwsCompact, p.asStr = m → ∀ context now,
      Rejected (PopProof.verify S.toCrates p context now)
  | .customPop => ∀ grant now clockSkew, Rejected (verifyAt S ⟨grant, m⟩ now clockSkew)
  | .approval =>
    Rejected (GrantApproval.decodeText S m .signedApprovalV1) ∧
    ∀ message, fromUtf8 message = some m →
      Rejected (GrantApproval.decode S message .signedApprovalV1)

variable {S : SdkCrates V}

/-! ## The homeserver's check -/

theorem checkHeaderType_compactJws (hS : S.Lawful) {t : JwsType} {payload signature : Bytes}
    {ε : Type} {typ : Text} {invalidFormat invalidHeaderType : ε}
    (h : checkHeaderType S.toCrates typ invalidFormat invalidHeaderType
      (compactJws S t.typ payload signature) = .ok ()) : typ = t.typ := by
  rw [checkHeaderType] at h
  split at h
  · cases h
  · rename_i header hheader
    split at h
    · rename_i htyp
      have hread :=
        hS.jwtDecodeHeader_typ _ t _ _ header (splitn_compactJws hS t.typ payload signature) hheader
      exact Option.some.inj (htyp.symm.trans hread)
    · cases h

theorem verifyGrantForRevocation_header {C : Crates} {g : JwsCompact} {claims : GrantClaims}
    (h : verifyGrantForRevocation C g = .ok claims) :
    checkHeaderType C grantJwsTyp GrantVerifierError.invalidFormat .invalidHeaderType g.asStr =
      .ok () := by
  simp only [verifyGrantForRevocation, Except.bind_ok_iff] at h
  obtain ⟨_, -, _, -, ⟨⟩, hheader, -⟩ := h
  exact hheader

theorem verifyClaims_header {C : Crates} {p : JwsCompact} {context : PopVerificationContext}
    {raw : PopProofClaims} (h : PopProof.verifyClaims C p context = .ok raw) :
    checkHeaderType C popJwsTyp PopVerifierError.invalidFormat .invalidHeaderType p.asStr =
      .ok () := by
  simp only [PopProof.verifyClaims, Except.bind_ok_iff] at h
  obtain ⟨_, -, ⟨⟩, hheader, -⟩ := h
  exact hheader

/-! ## Separation -/

/-- A verifier that accepts a token was made for the type that the token was signed as. -/
theorem rejects_compactJws (hS : S.Lawful) {signed expected : JwsType} (hne : signed ≠ expected)
    (payload signature : Bytes) :
    expected.Rejects S (compactJws S signed.typ payload signature) := by
  have htyp : expected.typ ≠ signed.typ := by
    intro heq
    exact hne (JwsType.typ_injective heq.symm)
  cases expected with
  | grant =>
    refine ⟨?_, ?_⟩
    · intro g hg
      have hfail : ∀ claims, verifyGrantForRevocation S.toCrates g ≠ .ok claims := by
        intro claims h
        have hheader := verifyGrantForRevocation_header h
        rw [hg] at hheader
        exact htyp (checkHeaderType_compactJws hS hheader)
      refine ⟨rejected_of_ne_ok hfail, ?_⟩
      intro now
      refine rejected_of_ne_ok fun claims h => ?_
      obtain ⟨claims', hclaims, -⟩ := Except.bind_ok_iff.1 h
      exact hfail claims' hclaims
    · intro pop now clockSkew
      refine rejected_of_ne_ok fun v h => ?_
      obtain ⟨grantJws, proofJws, proof, haccepted⟩ := verifyAt_eq_ok h
      exact htyp (parse_compactJws hS haccepted.grant)
  | pop =>
    intro p hp context now
    refine rejected_of_ne_ok fun pop h => ?_
    obtain ⟨raw, hraw, -⟩ := Except.bind_ok_iff.1 h
    have hheader := verifyClaims_header hraw
    rw [hp] at hheader
    exact htyp (checkHeaderType_compactJws hS hheader)
  | customPop =>
    intro grant now clockSkew
    refine rejected_of_ne_ok fun v h => ?_
    obtain ⟨grantJws, proofJws, proof, haccepted⟩ := verifyAt_eq_ok h
    exact htyp (parse_compactJws hS haccepted.pop)
  | approval =>
    have hfail : ∀ approval, GrantApproval.decodeText S
        (compactJws S signed.typ payload signature) .signedApprovalV1 ≠ .ok approval := by
      intro approval h
      obtain ⟨grant, envelope, haccepted⟩ := decodeText_eq_ok h
      exact htyp (verifyApprovalSignature_compactJws hS haccepted.signed)
    refine ⟨rejected_of_ne_ok hfail, ?_⟩
    intro message hmessage
    refine rejected_of_ne_ok fun approval h => ?_
    simp only [GrantApproval.decode, Except.bind_ok_iff, Option.okOr_eq_ok] at h
    obtain ⟨text, htext, hdecode⟩ := h
    rw [hmessage] at htext
    cases htext
    exact hfail approval hdecode

/-- A token that was signed as one type is rejected by the verifiers of every other type, whichever
key signed it and whatever its payload. -/
theorem jws_domain_separation (hS : S.Lawful) {signed expected : JwsType}
    (hne : signed ≠ expected) (payload : Bytes) :
    (∀ sign : Bytes → Bytes, expected.Rejects S (signJws S.toCrates sign signed.typ payload)) ∧
    ∀ signature, expected.Rejects S
      (finishJws S.toCrates (jwsSigningInput S.toCrates signed.typ payload) signature) := by
  constructor
  · intro sign
    rw [signJws_eq]
    exact rejects_compactJws hS hne payload _
  · intro signature
    exact rejects_compactJws hS hne payload signature

namespace SampleJws

open Sample

/-- The claims of a grant, signed by alice as a proof of possession. -/
def confused : SignedToken where
  key := alice
  typ := popJwsTyp
  payload := (grantClaims jtiA).toJson
  signature := bytesOfNat 64
    0x657301c826789c1e870e033d0c288e5ca19673950d35053af97b0631c79c86a73eef2a6d9ae4696ce5cc4a98d3bd1a7f64309ebe720895bb23ebee334267070e

/-- The other crates, where `confused` is the only token that has been signed. Its payload is
neither a custom proof nor an approval. -/
def sdk : SdkCrates Unit where
  toCrates := .ofTokens [grantClaims jtiA] [] [confused] []
  verify key message signature := key = alice && signature.bytes = confused.signature &&
    message = utf8 (base64Url.encode (headerJson popJwsTyp) ++ '.' ::
      base64Url.encode confused.payload)
  headerFromJson bytes :=
    ([.grant, .pop, .customPop, .approval].find? fun t : JwsType => headerJson t.typ = bytes).map
      fun t => ⟨eddsa, t.typ⟩
  customPopFromJson _ := none
  approvalGrantFromJson _ := none
  envelopeFromJson _ := none
  hkdf := ⟨id, fun secret _ => secret⟩

theorem lawful_sdk : sdk.Lawful where
  dot_not_mem := dot_not_mem_base64Url
  decode_encode := decodeSegment_encode _
  headerFromJson_toJson t := by cases t <;> decide +kernel
  jwtDecodeHeader_typ := by
    intro m t payload signature header hsplit hheader
    have hfound : ∀ typ ∈ [grantJwsTyp, popJwsTyp].find? fun typ =>
        base64Url.encode (headerJson typ) = base64Url.encode (headerJson t.typ), typ = t.typ := by
      cases t <;> decide +kernel
    simp only [sdk, Crates.ofTokens] at hsplit hheader
    rw [hsplit] at hheader
    obtain ⟨typ, htyp, rfl⟩ := Option.map_eq_some_iff.1 hheader
    exact congrArg some (hfound typ htyp)

end SampleJws

open Sample SampleJws in
theorem jws_domain_separation_sample :
    verifyGrantSignature sdk.toCrates confused.compact alice = .ok (grantClaims jtiA) ∧
      signJws sdk.toCrates (fun _ => confused.signature) JwsType.pop.typ confused.payload =
        confused.compact ∧
      JwsType.grant.Rejects sdk
        (signJws sdk.toCrates (fun _ => confused.signature) JwsType.pop.typ confused.payload) :=
  ⟨by decide +kernel, by decide +kernel,
    (jws_domain_separation lawful_sdk (by decide) confused.payload).1 _⟩

end Pubky.Sdk

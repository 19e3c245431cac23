import Pubky.Sdk.Jws

/-!
# Grant approvals

`pubky-sdk/src/actors/auth/grant/{approval,approval_envelope}.rs`: what a signer answers to a
request for a grant. A bare grant is only decoded. A signed approval is a token of its own type
that contains the grant and the encryption keys for its scopes, signed by the grant's issuer.

* `decodeText_eq_ok` says what an accepted signed approval looks like.
* `jwsParts_compactJws`: how a text that `finish_jws` made is taken apart.
-/

namespace Pubky.Sdk

inductive AuthError where
  | validation (message : Text)
  deriving DecidableEq, Repr

def invalidApproval (message : String) : AuthError :=
  .validation message.toList

inductive GrantApprovalFormat where
  | bareGrant
  | signedApprovalV1
  deriving DecidableEq, Repr

/-- A grant with the keys for its scopes, as they are signed together. -/
structure GrantApprovalEnvelope (H : Hkdf) where
  grant : Text
  encryptionKeys : ScopedEncryptionKeyBundle H

/-- A verified signed approval, with its text. -/
structure VerifiedApproval (H : Hkdf) where
  encryptionKeys : ScopedEncryptionKeyBundle H
  signedApproval : Text

/-- A decoded grant with an optional verified signed approval. -/
structure GrantApproval (H : Hkdf) where
  grantJws : Text
  claims : GrantClaims
  verifiedApproval : Option (VerifiedApproval H)

/-- The message of an error. -/
def displayJwsError : JwsError → Text
  | .invalidFormat message => message
  | .jsonParse message => "JSON parse error: ".toList ++ message

variable {V : Type} (S : SdkCrates V)

/-- The header, payload and signature of a compact token. -/
def jwsParts (compact : Text) : Except AuthError (Text × Text × Text) := do
  let (input, signature) ←
    (Text.rsplitOnce '.' compact).okOr (invalidApproval "invalid compact JWS")
  let (header, payload) ← (Text.splitOnce '.' input).okOr (invalidApproval "invalid compact JWS")
  if header = [] ∨ payload = [] ∨ signature = [] ∨ '.' ∈ payload then
    .error (invalidApproval "invalid compact JWS")
  else return (header, payload, signature)

/-- Decode the payload of a token. -/
def decodePayload {α : Type} (fromJson : Bytes → Option α) (compact : Text) :
    Except AuthError α := do
  let (_, payload, _) ← jwsParts compact
  let decoded ←
    (S.b64Decode payload).okOr (invalidApproval "invalid approval payload encoding")
  (fromJson decoded).okOr (invalidApproval "invalid approval payload or unsupported version")

/-- Deserialize an envelope, with the check of its keys. -/
def GrantApprovalEnvelope.fromJson (bytes : Bytes) : Option (GrantApprovalEnvelope S.hkdf) := do
  let wire ← S.envelopeFromJson bytes
  let keys ← ScopedEncryptionKeyBundle.ofWire wire.encryptionKeys
  return ⟨wire.grant, keys⟩

/-- Check the type of an approval and its signature by the issuer. -/
def verifyApprovalSignature (compact : Text) (issuer : PublicKey) : Except AuthError Unit := do
  let (header, _, signature) ← jwsParts compact
  let header ← (S.b64Decode header).okOr (invalidApproval "invalid JWS header encoding")
  let header ←
    (S.headerFromJson header).okOr (invalidApproval "invalid or unsupported JWS header")
  if header.alg ≠ eddsa ∨ header.typ ≠ approvalJwsTyp then
    .error (invalidApproval "unexpected JWS algorithm or type")
  else do
    let signature ←
      (S.b64Decode signature).okOr (invalidApproval "invalid JWS signature encoding")
    let signature ←
      (Signature.fromSlice signature).okOr (invalidApproval "invalid JWS signature length")
    let (input, _) ← (Text.rsplitOnce '.' compact).okOr (invalidApproval "JWS was split above")
    if S.verify issuer (utf8 input) signature then .ok ()
    else .error (invalidApproval "invalid JWS signature")

/-- The scopes of the keys are those that the grant gives keys for. -/
def validateKeyScopesMatchGrant {H : Hkdf} (keys : ScopedEncryptionKeyBundle H)
    (claims : GrantClaims) : Except AuthError Unit :=
  let hasUnapprovedScope := keys.scopes.any fun scope =>
    !claims.caps.any fun cap => cap.grantsEncryptionKeys && cap.scope == scope
  let hasMissingScope := claims.caps.any fun cap =>
    cap.grantsEncryptionKeys && !keys.scopes.any fun scope => scope == cap.scope
  if hasUnapprovedScope || hasMissingScope then
    .error (invalidApproval "encryption key scopes do not match the approved grant")
  else .ok ()

/-- Decode an approval of the selected format. -/
def GrantApproval.decodeText (text : Text) :
    GrantApprovalFormat → Except AuthError (GrantApproval S.hkdf)
  | .bareGrant =>
    match GrantClaims.decode S.toCrates text with
    | .error e => .error (.validation ("invalid grant payload: ".toList ++ displayJwsError e))
    | .ok claims => .ok ⟨text, claims, none⟩
  | .signedApprovalV1 => do
    let grant ← decodePayload S S.approvalGrantFromJson text
    let claims ← decodePayload S (fun bytes => (S.grantFromJson bytes).toOption) grant
    verifyApprovalSignature S text claims.iss
    let envelope ← decodePayload S (GrantApprovalEnvelope.fromJson S) text
    validateKeyScopesMatchGrant envelope.encryptionKeys claims
    return ⟨envelope.grant, claims, some ⟨envelope.encryptionKeys, text⟩⟩

/-- Decode the bytes of a relay message. -/
def GrantApproval.decode (message : Bytes) (format : GrantApprovalFormat) :
    Except AuthError (GrantApproval S.hkdf) := do
  let text ← (fromUtf8 message).okOr (invalidApproval "invalid approval encoding")
  GrantApproval.decodeText S text format

/-! ## What is accepted -/

/-- The keys are for exactly the scopes that the grant gives keys for. -/
theorem validateKeyScopesMatchGrant_eq_ok {H : Hkdf} {keys : ScopedEncryptionKeyBundle H}
    {claims : GrantClaims} : validateKeyScopesMatchGrant keys claims = .ok () ↔
      ∀ scope, scope ∈ keys.scopes ↔
        ∃ cap ∈ claims.caps, cap.grantsEncryptionKeys = true ∧ cap.scope = scope := by
  have hok : validateKeyScopesMatchGrant keys claims = .ok () ↔
      (∀ scope ∈ keys.scopes,
        ∃ cap ∈ claims.caps, cap.grantsEncryptionKeys = true ∧ cap.scope = scope) ∧
      ∀ cap ∈ claims.caps, cap.grantsEncryptionKeys = true → cap.scope ∈ keys.scopes := by
    simp [validateKeyScopesMatchGrant]
  rw [hok]
  constructor
  · rintro ⟨happroved, hpresent⟩ scope
    constructor
    · exact happroved scope
    · rintro ⟨cap, hcap, hkeys, rfl⟩
      exact hpresent cap hcap hkeys
  · intro h
    constructor
    · intro scope hscope
      exact (h scope).1 hscope
    · intro cap hcap hkeys
      exact (h cap.scope).2 ⟨cap, hcap, hkeys, rfl⟩

variable {S}

/-- The parts of a compact token are what its first and its last `.` separate. -/
theorem jwsParts_eq_ok {compact header payload signature : Text}
    (h : jwsParts compact = .ok (header, payload, signature)) :
    Text.rsplitOnce '.' compact = some (header ++ '.' :: payload, signature) ∧
      '.' ∉ header ∧ '.' ∉ payload := by
  simp only [jwsParts, Except.bind_ok_iff, Option.okOr_eq_ok] at h
  obtain ⟨⟨input, last⟩, hrsplit, ⟨first, middle⟩, hsplit, h⟩ := h
  split at h
  · cases h
  rename_i hparts
  obtain ⟨rfl, rfl, rfl⟩ : first = header ∧ middle = payload ∧ last = signature := by
    simpa using Except.ok.inj h
  obtain ⟨rfl, hfirst⟩ := Text.splitOnce_eq_some hsplit
  exact ⟨hrsplit, hfirst, fun hdot => hparts (.inr (.inr (.inr hdot)))⟩

theorem decodePayload_eq_ok {α : Type} {fromJson : Bytes → Option α} {compact : Text} {a : α} :
    decodePayload S fromJson compact = .ok a ↔ ∃ header payload signature bytes,
      jwsParts compact = .ok (header, payload, signature) ∧ S.b64Decode payload = some bytes ∧
        fromJson bytes = some a := by
  simp only [decodePayload, Except.bind_ok_iff, Option.okOr_eq_ok]
  constructor
  · rintro ⟨⟨header, payload, signature⟩, hparts, bytes, hdecode, hjson⟩
    exact ⟨header, payload, signature, bytes, hparts, hdecode, hjson⟩
  · rintro ⟨header, payload, signature, bytes, hparts, hdecode, hjson⟩
    exact ⟨(header, payload, signature), hparts, bytes, hdecode, hjson⟩

/-- An approval whose signature was checked has the type of approvals, and the issuer signed all of
its text up to the signature. -/
theorem verifyApprovalSignature_eq_ok {compact : Text} {issuer : PublicKey}
    (h : verifyApprovalSignature S compact issuer = .ok ()) :
    ∃ header payload signature headerBytes signatureBytes input last,
      jwsParts compact = .ok (header, payload, signature) ∧
      S.b64Decode header = some headerBytes ∧
      S.headerFromJson headerBytes = some ⟨eddsa, approvalJwsTyp⟩ ∧
      S.b64Decode signature = some signatureBytes.bytes ∧
      Text.rsplitOnce '.' compact = some (input, last) ∧
      S.verify issuer (utf8 input) signatureBytes = true := by
  simp only [verifyApprovalSignature, Except.bind_ok_iff, Option.okOr_eq_ok] at h
  obtain ⟨⟨header, payload, signature⟩, hparts, headerBytes, hheader, parsed, hjson, h⟩ := h
  split at h
  · cases h
  rename_i htype
  obtain ⟨halg, htyp⟩ : parsed.alg = eddsa ∧ parsed.typ = approvalJwsTyp := by
    simpa [not_or] using htype
  simp only [Except.bind_ok_iff, Option.okOr_eq_ok] at h
  obtain ⟨bytes, hsig, sig, hslice, ⟨input, last⟩, hsplit, h⟩ := h
  split at h
  case isFalse => cases h
  case isTrue hverify =>
    refine ⟨header, payload, signature, headerBytes, sig, input, last, hparts, hheader, ?_, ?_,
      hsplit, hverify⟩
    · rw [hjson, ← halg, ← htyp]
    · rw [hsig, Signature.bytes_of_fromSlice hslice]

/-- An accepted signed approval: the issuer of the grant that it contains signed it as an approval,
and its keys are for the scopes of that grant. -/
structure ApprovalAccepted (S : SdkCrates V) (text : Text) (approval : GrantApproval S.hkdf)
    (grant : Text) (envelope : GrantApprovalEnvelope S.hkdf) : Prop where
  unverified : decodePayload S S.approvalGrantFromJson text = .ok grant
  grantClaims : decodePayload S (fun bytes => (S.grantFromJson bytes).toOption) grant =
    .ok approval.claims
  signed : verifyApprovalSignature S text approval.claims.iss = .ok ()
  decoded : decodePayload S (GrantApprovalEnvelope.fromJson S) text = .ok envelope
  scopes : validateKeyScopesMatchGrant envelope.encryptionKeys approval.claims = .ok ()
  grantJws : approval.grantJws = envelope.grant
  verified : approval.verifiedApproval = some ⟨envelope.encryptionKeys, text⟩

theorem decodeText_eq_ok {text : Text} {approval : GrantApproval S.hkdf}
    (h : GrantApproval.decodeText S text .signedApprovalV1 = .ok approval) :
    ∃ grant envelope, ApprovalAccepted S text approval grant envelope := by
  simp only [GrantApproval.decodeText, Except.bind_ok_iff] at h
  obtain ⟨grant, hunverified, claims, hclaims, ⟨⟩, hsigned, envelope, hdecoded, ⟨⟩, hscopes, h⟩ := h
  cases h
  exact ⟨grant, envelope, hunverified, hclaims, hsigned, hdecoded, hscopes, rfl, rfl⟩

/-- The parts of a token that `finish_jws` made are the ones it was made of. -/
theorem jwsParts_compactJws (hS : S.Lawful) {typ : Text} {payload signature : Bytes}
    {parts : Text × Text × Text} (h : jwsParts (compactJws S typ payload signature) = .ok parts) :
    parts = (S.b64Encode (S.headerToJson typ), S.b64Encode payload, S.b64Encode signature) := by
  simp only [jwsParts, Except.bind_ok_iff, Option.okOr_eq_ok, rsplitOnce_compactJws hS] at h
  obtain ⟨⟨input, last⟩, hrsplit, ⟨header, body⟩, hsplit, h⟩ := h
  cases hrsplit
  rw [splitOnce_signingInput hS] at hsplit
  cases hsplit
  split at h
  · cases h
  · exact (Except.ok.inj h).symm

/-- A token passes as an approval only if it was signed as one. -/
theorem verifyApprovalSignature_compactJws (hS : S.Lawful) {t : JwsType}
    {payload signature : Bytes} {issuer : PublicKey}
    (h : verifyApprovalSignature S (compactJws S t.typ payload signature) issuer = .ok ()) :
    approvalJwsTyp = t.typ := by
  obtain ⟨header, _, _, headerBytes, _, _, _, hparts, hheader, hjson, -⟩ :=
    verifyApprovalSignature_eq_ok h
  obtain rfl : header = S.b64Encode (S.headerToJson t.typ) :=
    (Prod.mk.inj (jwsParts_compactJws hS hparts)).1
  rw [hS.decode_encode] at hheader
  rw [← Option.some.inj hheader, hS.headerFromJson_toJson] at hjson
  exact (Header.mk.inj (Option.some.inj hjson)).2.symm

end Pubky.Sdk

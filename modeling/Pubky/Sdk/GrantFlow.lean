import Pubky.Common.Normalization
import Pubky.Common.Utf8
import Pubky.Sdk.Approval

/-!
# Requests for a grant and their approval

`pubky-sdk/src/actors/auth/grant/flow.rs`, `pubky-sdk/src/actors/signer/auth.rs` and the deep links
between them. An app asks for capabilities with a deep link; the signer answers on the relay channel
of the link with a grant, possibly for less; the app checks the answer against its request.

* `decodeAndValidateApproval_eq_ok`: what an accepted answer has been checked for.
* `decodeAndValidateApproval_respond`: what the signer sends is accepted.
-/

namespace Pubky.Sdk

/-! ## Requests -/

/-- A public key of X25519. -/
@[ext]
structure HpkePublicKey where
  bytes : Bytes
  length_eq : bytes.length = 32

instance : DecidableEq HpkePublicKey := fun a b =>
  decidable_of_iff (a.bytes = b.bytes) HpkePublicKey.ext_iff.symm

/-- Relay channel information carried by a grant authorization link. -/
inductive GrantRelayChannel where
  | sharedSecret (secret : Secret)
  | hpke (ephemeralPublicKey : HpkePublicKey)
  deriving DecidableEq

/-- The check that a format can deliver what the capabilities give. -/
def GrantApprovalFormat.validateCapabilities (format : GrantApprovalFormat) (cs : Capabilities) :
    Except AuthError Unit :=
  if format = .bareGrant ∧ cs.toVec.any Capability.grantsEncryptionKeys then
    .error (.validation "encryption key permission requires af=v1".toList)
  else .ok ()

/-- The parameters of a grant link that approvals are about. -/
structure GrantParams where
  capabilities : Capabilities
  relayChannel : GrantRelayChannel
  clientId : ClientId
  clientPk : PublicKey
  approvalFormat : GrantApprovalFormat
  deriving DecidableEq

/-- The deep links that the two sides distinguish. -/
inductive DeepLink where
  | signinGrant (params : GrantParams) (expectedSigner : Option PublicKey)
  | signupGrant (params : GrantParams)
  | other
  deriving DecidableEq

namespace DeepLink

/-- The grant request of a link, with the signer that it expects. -/
def grantRequest : DeepLink → Option (GrantParams × Option PublicKey)
  | signinGrant params expectedSigner => some (params, expectedSigner)
  | signupGrant params => some (params, none)
  | other => none

end DeepLink

/-! ## Other crates -/

/-- The functions of other crates that the two sides of a flow call. -/
structure FlowCrates (V : Type) extends SdkCrates V where
  /-- `serde_json::to_vec` of the claims of a grant -/
  grantToJson : GrantClaims → Bytes
  /-- `serde_json::to_vec` of an approval -/
  envelopeToJson : WireEnvelope → Bytes
  /-- the public key of an Ed25519 secret -/
  publicKey : Secret → PublicKey
  /-- `ed25519_dalek::SigningKey::sign` -/
  sign : Secret → Bytes → Signature
  /-- `XSalsa20Poly1305::encrypt` with a key and a nonce of 24 bytes -/
  boxEncrypt : Secret → Bytes → Bytes → Bytes
  boxDecrypt : Secret → Bytes → Bytes → Option Bytes
  /-- the public key of an X25519 secret -/
  hpkePublicKey : Secret → HpkePublicKey
  /-- `hpke::single_shot_seal` with the randomness that it draws: an encapsulated key and a
  ciphertext -/
  hpkeSeal : Bytes → HpkePublicKey → Bytes → Option (Bytes × Bytes)
  /-- `hpke::single_shot_open` -/
  hpkeOpen : Secret → Bytes → Bytes → Option Bytes

/-- What is assumed of these functions: readers read what writers wrote, signatures verify and
decryption inverts encryption. -/
structure FlowCrates.Lawful {V : Type} (F : FlowCrates V) : Prop extends
    SdkCrates.Lawful F.toSdkCrates where
  encode_nil : F.b64Encode [] = []
  headerToJson_ne_nil : ∀ typ, F.headerToJson typ ≠ []
  envelopeToJson_ne_nil : ∀ wire, F.envelopeToJson wire ≠ []
  grantToJson_ne_nil : ∀ claims, F.grantToJson claims ≠ []
  /-- Capabilities are written as their texts and parsed from them. -/
  grantFromJson_toJson : ∀ claims : GrantClaims,
    (∀ cap ∈ claims.caps, Capability.fromStr cap.toText = .ok cap) →
      F.grantFromJson (F.grantToJson claims) = .ok claims
  envelopeFromJson_toJson : ∀ wire, F.envelopeFromJson (F.envelopeToJson wire) = some wire
  approvalGrantFromJson_toJson : ∀ wire,
    F.approvalGrantFromJson (F.envelopeToJson wire) = some wire.grant
  /-- Both readers of an approval find the same member `grant`. -/
  grant_eq : ∀ bytes grant wire, F.approvalGrantFromJson bytes = some grant →
    F.envelopeFromJson bytes = some wire → wire.grant = grant
  verify_sign : ∀ secret message,
    F.verify (F.publicKey secret) message (F.sign secret message) = true
  boxDecrypt_encrypt : ∀ key nonce message, nonce.length = 24 →
    F.boxDecrypt key nonce (F.boxEncrypt key nonce message) = some message
  hpkeOpen_seal : ∀ randomness secret message encapped ciphertext,
    F.hpkeSeal randomness (F.hpkePublicKey secret) message = some (encapped, ciphertext) →
      encapped.length = 32 ∧ ciphertext ≠ [] ∧ F.hpkeOpen secret encapped ciphertext = some message

variable {V : Type} (F : FlowCrates V)

/-! ## The channel -/

/-- `pubky_common::crypto::encrypt`, with the nonce that it draws. -/
def encrypt (nonce plainText : Bytes) (key : Secret) : Bytes :=
  if plainText = [] then plainText else nonce ++ F.boxEncrypt key nonce plainText

/-- `pubky_common::crypto::decrypt` -/
def decrypt (bytes : Bytes) (key : Secret) : Option Bytes :=
  if bytes = [] then some bytes
  else if bytes.length < 24 then none
  else F.boxDecrypt key (bytes.take 24) (bytes.drop 24)

/-- What marks an HPKE message on the wire. -/
def wirePrefix : Bytes := utf8 "pubky-hpke-v1".toList ++ [0]

def sealApproval (randomness : Bytes) (key : HpkePublicKey) (plainText : Bytes) :
    Except AuthError Bytes := do
  let (encapped, ciphertext) ← (F.hpkeSeal randomness key plainText).okOr
    (invalidApproval "failed to encrypt HPKE grant approval")
  return wirePrefix ++ (encapped ++ ciphertext)

def openApproval (secret : Secret) (wire : Bytes) : Except AuthError Bytes :=
  if ¬ wirePrefix.isPrefixOf wire then .error (invalidApproval "invalid HPKE grant approval")
  else
    let body := wire.drop wirePrefix.length
    if body.length ≤ 32 then .error (invalidApproval "invalid HPKE grant approval")
    else (F.hpkeOpen secret (body.take 32) (body.drop 32)).okOr
      (invalidApproval "invalid HPKE grant approval")

/-- The message that the relay listener delivers: the body of a shared-secret channel is decrypted,
the body of an HPKE channel is handed on. -/
def relayMessage (channel : GrantRelayChannel) (body : Bytes) : Option Bytes :=
  match channel with
  | .sharedSecret secret => decrypt F body secret
  | .hpke _ => some body

/-! ## The app's check -/

/-- The recipient secret exists exactly when the request uses HPKE, and belongs to its key. -/
def validateApprovalKey (channel : GrantRelayChannel) (secret : Option Secret) :
    Except AuthError Unit :=
  match channel, secret with
  | .sharedSecret _, none => .ok ()
  | .sharedSecret _, some _ =>
    .error (invalidApproval "saved HPKE key has no matching grant request")
  | .hpke _, none => .error (invalidApproval "saved grant auth flow is missing its HPKE key")
  | .hpke ephemeralPublicKey, some secret =>
    if F.hpkePublicKey secret = ephemeralPublicKey then .ok ()
    else .error (invalidApproval "saved HPKE key does not match the grant request")

/-- Every action of every capability is covered by one of the requested ones. -/
def coveredBy (requested approved : List Capability) : Bool :=
  approved.all fun cap => cap.actions.all fun action =>
    requested.any fun req => req.scopeCoversPath cap.scope && req.actions.contains action

/-- Authenticate a received approval, then bind it to the pending app request. -/
def decodeAndValidateApproval (message : Bytes) (request : DeepLink)
    (approvalKeySecret : Option Secret) : Except AuthError (GrantApproval F.hkdf) := do
  let (params, expectedSigner) ←
    request.grantRequest.okOr (invalidApproval "approval requires a grant auth deep link")
  validateApprovalKey F params.relayChannel approvalKeySecret
  let message ← (match approvalKeySecret with
    | some secret => openApproval F secret message
    | none => .ok message)
  let approval ← GrantApproval.decode F.toSdkCrates message params.approvalFormat
  if approval.claims.cnf ≠ params.clientPk ∨ approval.claims.clientId ≠ params.clientId then
    .error (invalidApproval "approved grant does not match the requesting client")
  else if expectedSigner.any (· ≠ approval.claims.iss) then
    .error (invalidApproval
      "approved grant was issued by a different key than the request expected")
  else if approval.claims.exp ≤ approval.claims.iat then
    .error (invalidApproval "approved grant has invalid timestamps")
  else if ¬ coveredBy params.capabilities.toVec approval.claims.caps then
    .error (invalidApproval "approved capabilities exceed the pending request")
  else return approval

/-! ## The signer's answer -/

/-- Seconds since the epoch, as a clock with signed 64-bit seconds gives them. -/
structure UnixTime where
  secs : UInt64
  lt : secs.toNat < 2 ^ 63

def defaultGrantLifetimeSecs : UInt64 := 2 * 365 * 24 * 3600

/-- What the signer draws for one answer. -/
structure Draws where
  jti : GrantId
  nonce : Bytes
  nonce_length : nonce.length = 24
  hpke : Bytes

/-- `sign_jws` with a key pair. -/
def signCompact (secret : Secret) (typ : Text) (payload : Bytes) : Text :=
  signJws F.toCrates (fun message => (F.sign secret message).bytes) typ payload

/-- Sign a grant with keys only for scopes explicitly approved with `e`. -/
def GrantApprovalEnvelope.sign (secret : Secret) (claims : GrantClaims) : Text :=
  let keys := ScopedEncryptionKeyBundle.fromIdentitySecret (H := F.hkdf) secret
    ((claims.caps.filter Capability.grantsEncryptionKeys).map Capability.scope)
  let grant := signCompact F secret grantJwsTyp (F.grantToJson claims)
  signCompact F secret approvalJwsTyp (F.envelopeToJson ⟨grant, keys.keys⟩)

/-- The claims of the grant that the signer issues. -/
def issuedClaims (secret : Secret) (cs : Capabilities) (params : GrantParams) (now : UnixTime)
    (draws : Draws) : GrantClaims where
  iss := F.publicKey secret
  clientId := params.clientId
  caps := cs.toVec
  cnf := params.clientPk
  jti := draws.jti
  iat := now.secs
  exp := now.secs + defaultGrantLifetimeSecs

/-- The text that the signer encrypts. -/
def approvalPayload (secret : Secret) (claims : GrantClaims) : GrantApprovalFormat → Text
  | .bareGrant => signCompact F secret grantJwsTyp (F.grantToJson claims)
  | .signedApprovalV1 => GrantApprovalEnvelope.sign F secret claims

def buildEncryptedGrant (secret : Secret) (cs : Capabilities) (params : GrantParams)
    (now : UnixTime) (draws : Draws) : Except AuthError Bytes := do
  params.approvalFormat.validateCapabilities cs
  let payload := utf8 (approvalPayload F secret (issuedClaims F secret cs params now draws)
    params.approvalFormat)
  match params.relayChannel with
  | .sharedSecret key => return encrypt F draws.nonce payload key
  | .hpke key => sealApproval F draws.hpke key payload

/-- The capabilities to approve: all that were requested, or a selection that they cover. -/
def selectCapabilities (requested : Capabilities) (approved : Option Capabilities) :
    Except AuthError Capabilities :=
  match approved with
  | none => .ok requested
  | some approved =>
    if coveredBy requested.toVec approved.toVec then .ok approved
    else .error (.validation "approved capabilities exceed the pending request".toList)

/-- The body that the signer posts for a grant link, after the check of `parse_deeplink` that the
link is for its key. -/
def approveAuth (secret : Secret) (request : DeepLink) (approved : Option Capabilities)
    (now : UnixTime) (draws : Draws) : Except AuthError Bytes := do
  let (params, expectedSigner) ←
    request.grantRequest.okOr (.validation "not a grant link".toList)
  if expectedSigner.any (· ≠ F.publicKey secret) then
    .error (.validation "this sign-in request is for a different key".toList)
  else do
    let cs ← selectCapabilities params.capabilities approved
    buildEncryptedGrant F secret cs params now draws

/-! ## What is accepted -/

section

variable {F} {message : Bytes} {request : DeepLink} {key : Option Secret}
  {approval : GrantApproval F.hkdf} {params : GrantParams} {expected : Option PublicKey}

theorem coveredBy_iff {requested approved : List Capability} :
    coveredBy requested approved ↔ ∀ cap ∈ approved, ∀ action ∈ cap.actions,
      ∃ req ∈ requested, req.scope.coversPath cap.scope ∧ action ∈ req.actions := by
  simp [coveredBy, Capability.scopeCoversPath]

/-- Coverage entry by entry and action by action is enough for every path. -/
theorem permits_of_coveredBy {requested approved : Capabilities}
    (h : coveredBy requested.toVec approved.toVec) {path : StoragePath} {action : Action}
    (hp : approved.permits path action) : requested.permits path action := by
  obtain ⟨cap, hcap, hcovers, haction⟩ := Capabilities.permits_iff.1 hp
  obtain ⟨req, hreq, hscope, hact⟩ := coveredBy_iff.1 h cap hcap action haction
  exact Capabilities.permits_iff.2 ⟨req, hreq, StoragePath.coversPath_trans hscope hcovers, hact⟩

/-- Everything covers itself. -/
theorem coveredBy_self (requested : List Capability) : coveredBy requested requested := by
  refine coveredBy_iff.2 fun cap hcap action haction => ⟨cap, hcap, ?_, haction⟩
  simp [StoragePath.coversPath]

/-- What the app has checked of an approval that it accepts. -/
structure ApprovalChecked (F : FlowCrates V) (params : GrantParams) (expected : Option PublicKey)
    (approval : GrantApproval F.hkdf) : Prop where
  decoded : ∃ text, GrantApproval.decodeText F.toSdkCrates text params.approvalFormat = .ok approval
  cnf : approval.claims.cnf = params.clientPk
  clientId : approval.claims.clientId = params.clientId
  signer : ∀ signer ∈ expected, approval.claims.iss = signer
  timestamps : approval.claims.iat < approval.claims.exp
  covered : coveredBy params.capabilities.toVec approval.claims.caps

theorem decodeAndValidateApproval_eq_ok
    (h : decodeAndValidateApproval F message request key = .ok approval) :
    ∃ params expected, request.grantRequest = some (params, expected) ∧
      ApprovalChecked F params expected approval := by
  simp only [decodeAndValidateApproval, Except.bind_ok_iff, Option.okOr_eq_ok] at h
  obtain ⟨⟨params, expected⟩, hrequest, ⟨⟩, -, plain, -, decoded, hdecoded, h⟩ := h
  simp only [GrantApproval.decode, Except.bind_ok_iff, Option.okOr_eq_ok] at hdecoded
  obtain ⟨text, -, htext⟩ := hdecoded
  split at h
  · cases h
  rename_i hclient
  split at h
  · cases h
  rename_i hsigner
  split at h
  · cases h
  rename_i htime
  split at h
  · cases h
  rename_i hcovered
  obtain rfl := Except.ok.inj h
  obtain ⟨hcnf, hid⟩ : decoded.claims.cnf = params.clientPk ∧
      decoded.claims.clientId = params.clientId := by simpa [not_or] using hclient
  refine ⟨params, expected, hrequest, ⟨text, htext⟩, hcnf, hid, ?_, ?_, by simpa using hcovered⟩
  · rintro signer hmem
    obtain rfl := Option.mem_def.1 hmem
    simpa using Eq.symm (by simpa using hsigner)
  · exact UInt64.not_le.1 htime

/-- A token that the strict reader of approvals accepts is read the same by the other one. -/
theorem decode_of_decodePayload {compact : Text} {claims : GrantClaims}
    (h : decodePayload F.toSdkCrates (fun bytes => (F.grantFromJson bytes).toOption) compact =
      .ok claims) : GrantClaims.decode F.toCrates compact = .ok claims := by
  obtain ⟨header, payload, signature, bytes, hparts, hbytes, hjson⟩ := decodePayload_eq_ok.1 h
  obtain ⟨hrsplit, hheader, hpayload⟩ := jwsParts_eq_ok hparts
  have hsplitn : Text.splitn '.' 3 compact = [header, payload, signature] := by
    rw [(Text.rsplitOnce_eq_some hrsplit).1, List.append_assoc, List.cons_append,
      Text.splitn_append hheader, Text.splitn_append hpayload]
    rfl
  have hok : F.grantFromJson bytes = .ok claims := by
    cases hg : F.grantFromJson bytes with
    | error e => simp [hg, Except.toOption] at hjson
    | ok claims' => simpa [hg, Except.toOption] using hjson
  simp only [GrantClaims.decode, decodeJwsPayload, hsplitn, hbytes, hok]

/-- The grant of an accepted approval is the one that its claims were read from. -/
theorem decode_grantJws (hF : F.Lawful) {text : Text} {format : GrantApprovalFormat}
    (h : GrantApproval.decodeText F.toSdkCrates text format = .ok approval) :
    GrantClaims.decode F.toCrates approval.grantJws = .ok approval.claims := by
  cases format with
  | bareGrant =>
    rw [GrantApproval.decodeText] at h
    split at h
    · cases h
    · rename_i claims hclaims
      cases h
      exact hclaims
  | signedApprovalV1 =>
    obtain ⟨grant, envelope, haccepted⟩ := decodeText_eq_ok h
    obtain ⟨_, payload, _, bytes, hparts, hbytes, hjson⟩ := decodePayload_eq_ok.1 haccepted.decoded
    obtain ⟨_, payload', _, bytes', hparts', hbytes', hgrant⟩ :=
      decodePayload_eq_ok.1 haccepted.unverified
    -- both readings are of the same payload
    obtain ⟨-, rfl, -⟩ : _ ∧ payload = payload' ∧ _ := by
      simpa using Except.ok.inj (hparts.symm.trans hparts')
    obtain rfl := Option.some.inj (hbytes.symm.trans hbytes')
    simp only [GrantApprovalEnvelope.fromJson, Option.bind_eq_bind, Option.bind_eq_some_iff] at hjson
    obtain ⟨wire, hwire, keys, -, henvelope⟩ := hjson
    have hwiregrant : wire.grant = envelope.grant :=
      congrArg GrantApprovalEnvelope.grant (Option.some.inj henvelope)
    have heq : approval.grantJws = grant := by
      rw [haccepted.grantJws, ← hwiregrant]
      exact hF.grant_eq _ _ _ hgrant hwire
    rw [heq]
    exact decode_of_decodePayload haccepted.grantClaims

/-- The delivered keys are for scopes that the grant gives keys for. -/
theorem scopes_of_decodeText {text : Text} {format : GrantApprovalFormat}
    (h : GrantApproval.decodeText F.toSdkCrates text format = .ok approval)
    {verified : VerifiedApproval F.hkdf} (hverified : approval.verifiedApproval = some verified)
    {scope : StoragePath} (hscope : scope ∈ verified.encryptionKeys.scopes) :
    ∃ cap ∈ approval.claims.caps, cap.grantsEncryptionKeys ∧ cap.scope = scope := by
  cases format with
  | bareGrant =>
    rw [GrantApproval.decodeText] at h
    split at h
    · cases h
    · cases h
      cases hverified
  | signedApprovalV1 =>
    obtain ⟨grant, envelope, haccepted⟩ := decodeText_eq_ok h
    obtain rfl := Option.some.inj (haccepted.verified.symm.trans hverified)
    exact (validateKeyScopesMatchGrant_eq_ok.1 haccepted.scopes scope).1 hscope

/-! ## What the signer sends is accepted -/

section Channel

variable {nonce plain body : Bytes} {shared secret : Secret}

theorem decrypt_encrypt (hF : F.Lawful) (hnonce : nonce.length = 24) :
    decrypt F (encrypt F nonce plain shared) shared = some plain := by
  rw [encrypt]
  split
  · rename_i hnil
    rw [decrypt, if_pos hnil]
  · have hne : nonce ++ F.boxEncrypt shared nonce plain ≠ [] := by
      intro h
      simp [(List.append_eq_nil_iff.1 h).1] at hnonce
    have hlen : ¬ (nonce ++ F.boxEncrypt shared nonce plain).length < 24 := by
      rw [List.length_append]
      omega
    rw [decrypt, if_neg hne, if_neg hlen, List.take_left' hnonce, List.drop_left' hnonce]
    exact hF.boxDecrypt_encrypt shared nonce plain hnonce

theorem openApproval_sealApproval (hF : F.Lawful) {randomness : Bytes}
    (h : sealApproval F randomness (F.hpkePublicKey secret) plain = .ok body) :
    openApproval F secret body = .ok plain := by
  obtain ⟨⟨encapped, ciphertext⟩, hseal, h⟩ := Except.bind_ok_iff.1 h
  cases h
  obtain ⟨hlen, hne, hopen⟩ := hF.hpkeOpen_seal _ _ _ _ _ (Option.okOr_eq_ok.1 hseal)
  have hprefix : wirePrefix.isPrefixOf (wirePrefix ++ (encapped ++ ciphertext)) := by
    simp
  have hlong : ¬ (encapped ++ ciphertext).length ≤ 32 := by
    have := List.length_pos_of_ne_nil hne
    rw [List.length_append]
    omega
  rw [openApproval, if_neg (not_not.2 hprefix), List.drop_left]
  simp only
  rw [if_neg hlong, List.take_left' hlen, List.drop_left' hlen, hopen]
  rfl

end Channel

section Tokens

variable {secret : Secret} {typ : Text} {payload : Bytes} {claims : GrantClaims}

theorem FlowCrates.Lawful.encode_ne_nil (hF : F.Lawful) {bytes : Bytes} (h : bytes ≠ []) :
    F.b64Encode bytes ≠ [] := by
  intro hnil
  have hdecode := hF.decode_encode bytes
  rw [hnil, ← hF.encode_nil, hF.decode_encode] at hdecode
  exact h (Option.some.inj hdecode).symm

theorem signCompact_eq (secret : Secret) (typ : Text) (payload : Bytes) :
    signCompact F secret typ payload = compactJws F.toSdkCrates typ payload
      (F.sign secret (utf8 (jwsSigningInput F.toCrates typ payload))).bytes := rfl

/-- A signed token has its three parts. -/
theorem jwsParts_signCompact (hF : F.Lawful) (hpayload : payload ≠ []) :
    ∃ signature : Signature,
      signature = F.sign secret (utf8 (jwsSigningInput F.toCrates typ payload)) ∧
      jwsParts (signCompact F secret typ payload) =
        .ok (F.b64Encode (F.headerToJson typ), F.b64Encode payload, F.b64Encode signature.bytes) := by
  refine ⟨_, rfl, ?_⟩
  have hsignature : (F.sign secret (utf8 (jwsSigningInput F.toCrates typ payload))).bytes ≠ [] := by
    intro h
    have hlen := (F.sign secret (utf8 (jwsSigningInput F.toCrates typ payload))).length_eq
    simp [h] at hlen
  simp only [jwsParts, signCompact_eq, rsplitOnce_compactJws hF.toLawful, Option.okOr,
    splitOnce_signingInput hF.toLawful, bind, Except.bind]
  exact if_neg (by simp [hF.encode_ne_nil (hF.headerToJson_ne_nil typ),
    hF.encode_ne_nil hpayload, hF.encode_ne_nil hsignature, hF.dot_not_mem])

theorem decodePayload_signCompact (hF : F.Lawful) {α : Type} {fromJson : Bytes → Option α} {a : α}
    (hpayload : payload ≠ []) (hjson : fromJson payload = some a) :
    decodePayload F.toSdkCrates fromJson (signCompact F secret typ payload) = .ok a := by
  obtain ⟨signature, -, hparts⟩ := jwsParts_signCompact hF hpayload
  exact decodePayload_eq_ok.2 ⟨_, _, _, payload, hparts, hF.decode_encode payload, hjson⟩

/-- An approval verifies for the key that signed it. -/
theorem verifyApprovalSignature_signCompact (hF : F.Lawful) (hpayload : payload ≠ []) :
    verifyApprovalSignature F.toSdkCrates (signCompact F secret approvalJwsTyp payload)
      (F.publicKey secret) = .ok () := by
  obtain ⟨signature, hsig, hparts⟩ := jwsParts_signCompact hF hpayload
  have hslice : Signature.fromSlice signature.bytes = some signature := dif_pos signature.length_eq
  have hheader : F.headerFromJson (F.headerToJson approvalJwsTyp) =
      some ⟨eddsa, approvalJwsTyp⟩ := hF.headerFromJson_toJson .approval
  have hsplit : Text.rsplitOnce '.' (signCompact F secret approvalJwsTyp payload) =
      some (jwsSigningInput F.toCrates approvalJwsTyp payload, F.b64Encode signature.bytes) := by
    rw [signCompact_eq, rsplitOnce_compactJws hF.toLawful, hsig]
  have hverify := hF.verify_sign secret (utf8 (jwsSigningInput F.toCrates approvalJwsTyp payload))
  rw [← hsig] at hverify
  simp only [verifyApprovalSignature, hparts, hF.decode_encode, hheader, hslice, hsplit, Option.okOr,
    hverify, bind, Except.bind, ne_eq, not_true_eq_false, or_self, if_false, if_true]

theorem decode_signCompact (hF : F.Lawful)
    (hcaps : ∀ cap ∈ claims.caps, cap.WellFormed) :
    GrantClaims.decode F.toCrates (signCompact F secret typ (F.grantToJson claims)) =
      .ok claims := by
  have hjson := hF.grantFromJson_toJson claims fun cap hcap => Capability.fromStr_toText (hcaps cap hcap)
  have hsplit : Text.splitn '.' 3 (signCompact F secret typ (F.grantToJson claims)) =
      [F.b64Encode (F.headerToJson typ), F.b64Encode (F.grantToJson claims),
        F.b64Encode
          (F.sign secret (utf8 (jwsSigningInput F.toCrates typ (F.grantToJson claims)))).bytes] := by
    rw [Text.splitn_eq_of_length_le (by decide)] <;>
      rw [signCompact_eq, splitn_compactJws hF.toLawful]
    simp
  simp only [GrantClaims.decode, decodeJwsPayload, hsplit, hF.decode_encode, hjson]

/-- `sign_jws` of an approval with a bundle. -/
def signedApproval (F : FlowCrates V) (secret : Secret) (claims : GrantClaims)
    (keys : ScopedEncryptionKeyBundle F.hkdf) : Text :=
  signCompact F secret approvalJwsTyp
    (F.envelopeToJson ⟨signCompact F secret grantJwsTyp (F.grantToJson claims), keys.keys⟩)

/-- A signed approval whose keys are for the scopes of its grant is read as what was signed. -/
theorem decodeText_signedApproval (hF : F.Lawful) {keys : ScopedEncryptionKeyBundle F.hkdf}
    (hcaps : ∀ cap ∈ claims.caps, cap.WellFormed) (hiss : claims.iss = F.publicKey secret)
    (hscopes : validateKeyScopesMatchGrant keys claims = .ok ()) :
    GrantApproval.decodeText F.toSdkCrates (signedApproval F secret claims keys)
        .signedApprovalV1 =
      .ok ⟨signCompact F secret grantJwsTyp (F.grantToJson claims), claims,
        some ⟨keys, signedApproval F secret claims keys⟩⟩ := by
  have hjson := hF.grantFromJson_toJson claims
    fun cap hcap => Capability.fromStr_toText (hcaps cap hcap)
  have hclaims : decodePayload F.toSdkCrates (fun bytes => (F.grantFromJson bytes).toOption)
      (signCompact F secret grantJwsTyp (F.grantToJson claims)) = .ok claims :=
    decodePayload_signCompact hF (hF.grantToJson_ne_nil claims) (by rw [hjson]; rfl)
  generalize hgrant : signCompact F secret grantJwsTyp (F.grantToJson claims) = grant at hclaims
  have hne := hF.envelopeToJson_ne_nil ⟨grant, keys.keys⟩
  have henvelope : GrantApprovalEnvelope.fromJson F.toSdkCrates
      (F.envelopeToJson ⟨grant, keys.keys⟩) = some ⟨grant, keys⟩ := by
    simp [GrantApprovalEnvelope.fromJson, hF.envelopeFromJson_toJson,
      ScopedEncryptionKeyBundle.ofWire_keys]
  simp only [signedApproval, hgrant, GrantApproval.decodeText,
    decodePayload_signCompact hF hne (hF.approvalGrantFromJson_toJson _), hclaims, hiss,
    verifyApprovalSignature_signCompact hF hne, decodePayload_signCompact hF hne henvelope, hscopes,
    bind, Except.bind]
  rfl

/-- The bundle that the signer derives is for the scopes of the grant. -/
theorem validateKeyScopesMatchGrant_fromIdentitySecret {H : Hkdf} :
    validateKeyScopesMatchGrant (ScopedEncryptionKeyBundle.fromIdentitySecret (H := H) secret
      ((claims.caps.filter Capability.grantsEncryptionKeys).map Capability.scope)) claims =
        .ok () := by
  rw [validateKeyScopesMatchGrant_eq_ok]
  intro scope
  rw [ScopedEncryptionKeyBundle.scopes_fromIdentitySecret]
  simp [and_assoc]

/-- The payload of either format is read as the claims that were signed. -/
theorem decodeText_approvalPayload (hF : F.Lawful) (format : GrantApprovalFormat)
    (hcaps : ∀ cap ∈ claims.caps, cap.WellFormed) (hiss : claims.iss = F.publicKey secret) :
    ∃ approval, GrantApproval.decodeText F.toSdkCrates (approvalPayload F secret claims format)
        format = .ok approval ∧ approval.claims = claims := by
  cases format with
  | bareGrant =>
    refine ⟨⟨approvalPayload F secret claims .bareGrant, claims, none⟩, ?_, rfl⟩
    simp only [GrantApproval.decodeText, approvalPayload, decode_signCompact hF hcaps]
  | signedApprovalV1 =>
    exact ⟨_, decodeText_signedApproval hF hcaps hiss
      validateKeyScopesMatchGrant_fromIdentitySecret, rfl⟩

end Tokens

/-- The message of the channel holds the payload. -/
theorem payload_of_relayMessage (hF : F.Lawful) {secret : Secret} {cs : Capabilities}
    {now : UnixTime} {draws : Draws} {body : Bytes}
    (hkey : validateApprovalKey F params.relayChannel key = .ok ())
    (h : buildEncryptedGrant F secret cs params now draws = .ok body) :
    ∃ message, relayMessage F params.relayChannel body = some message ∧
      (match key with
        | some secret => openApproval F secret message
        | none => .ok message) =
      .ok (utf8 (approvalPayload F secret (issuedClaims F secret cs params now draws)
        params.approvalFormat)) := by
  obtain ⟨⟨⟩, -, h⟩ := Except.bind_ok_iff.1 h
  cases hchannel : params.relayChannel with
  | sharedSecret shared =>
    simp only [hchannel] at h hkey
    cases h
    cases key with
    | none => exact ⟨_, decrypt_encrypt hF draws.nonce_length, rfl⟩
    | some _ => cases hkey
  | hpke epk =>
    simp only [hchannel] at h hkey
    cases key with
    | none => cases hkey
    | some recipient =>
      rw [validateApprovalKey] at hkey
      split at hkey
      · rename_i hepk
        rw [← hepk] at h
        exact ⟨body, rfl, openApproval_sealApproval hF h⟩
      · cases hkey

theorem coveredBy_of_selectCapabilities {requested cs : Capabilities}
    {approved : Option Capabilities} (h : selectCapabilities requested approved = .ok cs) :
    coveredBy requested.toVec cs.toVec := by
  cases approved with
  | none =>
    cases h
    exact coveredBy_self _
  | some selected =>
    rw [selectCapabilities] at h
    split at h
    · rename_i hcovered
      cases h
      exact hcovered
    · cases h

/-- A grant is issued for some time. -/
theorem issuedClaims_iat_lt_exp (secret : Secret) (cs : Capabilities) (params : GrantParams)
    (now : UnixTime) (draws : Draws) :
    (issuedClaims F secret cs params now draws).iat < (issuedClaims F secret cs params now draws).exp := by
  have hlt := now.lt
  change now.secs < now.secs + defaultGrantLifetimeSecs
  rw [UInt64.lt_iff_toNat_lt, UInt64.toNat_add,
    show defaultGrantLifetimeSecs.toNat = 63072000 from rfl, Nat.mod_eq_of_lt (by omega)]
  omega

/-- The app accepts what the signer sends for its request. -/
theorem decodeAndValidateApproval_respond (hF : F.Lawful) {secret : Secret}
    {approved : Option Capabilities} {now : UnixTime} {draws : Draws} {body : Bytes}
    (hrequest : request.grantRequest = some (params, expected))
    (hrequested : ∀ cap ∈ params.capabilities.toVec, cap.WellFormed)
    (happroved : ∀ cs ∈ approved, ∀ cap ∈ cs.toVec, cap.WellFormed)
    (hkey : validateApprovalKey F params.relayChannel key = .ok ())
    (h : approveAuth F secret request approved now draws = .ok body) :
    ∃ message approval, relayMessage F params.relayChannel body = some message ∧
      decodeAndValidateApproval F message request key = .ok approval := by
  simp only [approveAuth, hrequest, Option.okOr, bind, Except.bind] at h
  split at h
  · cases h
  rename_i hsigner
  obtain ⟨cs, hselect, hbuild⟩ := Except.bind_ok_iff.1 h
  have hcaps : ∀ cap ∈ cs.toVec, cap.WellFormed := by
    cases approved with
    | none =>
      cases hselect
      exact hrequested
    | some selected =>
      rw [selectCapabilities] at hselect
      split at hselect
      · obtain rfl := Except.ok.inj hselect
        exact happroved selected rfl
      · cases hselect
  obtain ⟨message, hmessage, hopen⟩ := payload_of_relayMessage hF hkey hbuild
  obtain ⟨approval, htext, hclaims⟩ := decodeText_approvalPayload hF
    params.approvalFormat (show ∀ cap ∈ (issuedClaims F secret cs params now draws).caps,
      cap.WellFormed from hcaps) rfl
  refine ⟨message, approval, hmessage, ?_⟩
  have hdecode : GrantApproval.decode F.toSdkCrates
      (utf8 (approvalPayload F secret (issuedClaims F secret cs params now draws)
        params.approvalFormat)) params.approvalFormat = .ok approval := by
    rw [GrantApproval.decode, fromUtf8_utf8]
    exact htext
  have htime := issuedClaims_iat_lt_exp (F := F) secret cs params now draws
  have hcovered : coveredBy params.capabilities.toVec (issuedClaims F secret cs params now draws).caps :=
    coveredBy_of_selectCapabilities hselect
  have hiss : ¬ expected.any (· ≠ (issuedClaims F secret cs params now draws).iss) := hsigner
  simp only [decodeAndValidateApproval, hrequest, Option.okOr, bind, Except.bind, hkey, hopen, hdecode,
    hclaims]
  rw [if_neg (by simp [issuedClaims]), if_neg hiss, if_neg (UInt64.not_le.2 htime),
    if_neg (not_not.2 hcovered)]
  rfl

end

end Pubky.Sdk

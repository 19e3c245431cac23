import Pubky.Homeserver.Grant.Sample
import Pubky.Sdk.GrantFlow

/-!
# Approvals only narrow requests

`approval_only_narrows` puts together what the app has checked of an approval that it accepts and
that it accepts what the signer sends. The sample is a request for `/pub/app/:rw` that alice answers
with a grant for `/pub/app/:r`.
-/

namespace Pubky.Sdk

variable {V : Type} (F : FlowCrates V)

/-- An approval can only narrow the request, and what the expected signer sends for a request, for
all of it or for a narrowed list, is accepted. -/
theorem approval_only_narrows (hF : F.Lawful) :
    (∀ (message : Bytes) (request : DeepLink) (key : Option Secret)
        (approval : GrantApproval F.hkdf),
      decodeAndValidateApproval F message request key = .ok approval →
      ∃ params expected, request.grantRequest = some (params, expected) ∧
        GrantClaims.decode F.toCrates approval.grantJws = .ok approval.claims ∧
        approval.claims.clientId = params.clientId ∧
        approval.claims.cnf = params.clientPk ∧
        (∀ signer ∈ expected, approval.claims.iss = signer) ∧
        (∀ (path : StoragePath) (action : Action),
          (Capabilities.mk approval.claims.caps).permits path action →
            params.capabilities.permits path action) ∧
        ∀ verified ∈ approval.verifiedApproval, ∀ scope ∈ verified.encryptionKeys.scopes,
          ∃ cap ∈ params.capabilities.toVec,
            cap.grantsEncryptionKeys ∧ cap.scope.coversPath scope) ∧
    (∀ (secret : Secret) (request : DeepLink) (params : GrantParams) (expected : Option PublicKey)
        (approved : Option Capabilities) (now : UnixTime) (draws : Draws) (body : Bytes)
        (key : Option Secret),
      request.grantRequest = some (params, expected) →
      (∀ cap ∈ params.capabilities.toVec, cap.WellFormed) →
      (∀ cs ∈ approved, ∀ cap ∈ cs.toVec, cap.WellFormed) →
      validateApprovalKey F params.relayChannel key = .ok () →
      approveAuth F secret request approved now draws = .ok body →
      ∃ message approval, relayMessage F params.relayChannel body = some message ∧
        decodeAndValidateApproval F message request key = .ok approval) := by
  refine ⟨fun message request key approval h => ?_, fun secret request params expected approved now
    draws body key hrequest hrequested happroved hkey h => ?_⟩
  · obtain ⟨params, expected, hrequest, haccepted⟩ := decodeAndValidateApproval_eq_ok h
    obtain ⟨text, htext⟩ := haccepted.decoded
    refine ⟨params, expected, hrequest, decode_grantJws hF htext, haccepted.clientId, haccepted.cnf,
      haccepted.signer, fun path action hp => permits_of_coveredBy haccepted.covered hp, ?_⟩
    intro verified hverified scope hscope
    obtain ⟨cap, hcap, hkeys, rfl⟩ := scopes_of_decodeText htext hverified hscope
    have haction : Action.encryptionKeys ∈ cap.actions := by
      simpa [Capability.grantsEncryptionKeys] using hkeys
    obtain ⟨req, hreq, hcovers, hact⟩ :=
      coveredBy_iff.1 haccepted.covered cap hcap _ haction
    exact ⟨req, hreq, by simpa [Capability.grantsEncryptionKeys] using hact, hcovers⟩
  · exact decodeAndValidateApproval_respond hF hrequest hrequested happroved hkey h

/-! ## A narrowed approval -/

namespace SampleFlow

open Homeserver.Grant.Sample

theorem appScope_canonical : validateCanonical "/pub/app/".toList = .ok () := by decide

def appScope : StoragePath := ⟨"/pub/app/".toList, appScope_canonical⟩

def requested : Capability := ⟨appScope, [.read, .write], by decide⟩

def narrowed : Capability := ⟨appScope, [.read], by decide⟩

/-- The secret key of alice. -/
def aliceSecret : Secret := ⟨List.replicate 32 1, rfl⟩

/-- The secret that the app shares with the signer. -/
def channelSecret : Secret := ⟨List.replicate 32 9, rfl⟩

def now : UnixTime := ⟨1700000000, by decide⟩

def draws : Draws := ⟨jtiA, List.replicate 24 5, rfl, []⟩

def params : GrantParams where
  capabilities := ⟨[requested]⟩
  relayChannel := .sharedSecret channelSecret
  clientId := (grantClaims jtiA).clientId
  clientPk := client
  approvalFormat := .bareGrant

def request : DeepLink := .signinGrant params (some alice)

/-- The claims that alice signs. -/
def claims : GrantClaims where
  iss := alice
  clientId := params.clientId
  caps := [narrowed]
  cnf := client
  jti := jtiA
  iat := 1700000000
  exp := 1763072000

def token : SignedToken where
  key := alice
  typ := grantJwsTyp
  payload := claims.toJson
  signature := bytesOfNat 64
    0xf837c5181b5f1f6806dc147a6f34181ab2747c7d1f766eee2798af47a1b5a67cec1aed22a5c09d91ee5bae180f43c86bb93e65b9c84dadebbca0e9682b6bf407

/-- The token, encrypted with the channel's secret. -/
def ciphertext : Bytes :=
    bytesOfNat 80
      0xcb89eecee23643de53995ac05ea1439065ca86db0b14d4399b11c27229fc2085578378eb2af6ad0d036a97dfe18a4c012b5924cfa7b9a4a25168f83408b1c5fcb59d51ac5562c4bef8f910746d4d4b91 ++
    bytesOfNat 80
      0x3b4462edb6f98e55db7fa4b847024394f9f946f2e31fb20c5b85f88503dac6b1fc0dfe2f167337a3ef6b1184d2c6425bd31fb2c51c07f222a55354b319fb3ee4591c46e9bddb616fa1a5a3327dfef084 ++
    bytesOfNat 80
      0x8e3bb05f8eecb2f045891689770e154ad16209298b15c4b3ab984e4b482493b958477a41a3ca2fd0b2e720384050dd1ebf30992328c3ec17baa98bf4fd499b201c4e649db533727b5457730c91ced773 ++
    bytesOfNat 80
      0x9a060c4c47b055fa095308a9544f404d531a437a00ae1dc433b29c2f8b0bbf9dedafcabfdc1f2739fc71bb6aeb52afc768a69019b544bf616a983723c0db44101eb6c97a51f9f58ca084cb71aa5815b1 ++
    bytesOfNat 80
      0xd9b885a6c7ec63cb631e9c098430103b73ff92fcef3fffd6317cfc93fc06eb66361ff1a440e234cdc34516c86df36e78743dae1a0b9e55ed539ec3f0d54b53d55230abc56db91d6b93236c097050045f ++
    bytesOfNat 47
      0x726a6db7c05438692b91f6ee7e7e726affbefbb9260362bd28f76749bbbc62db3c1c8abfa53d0f0455a0d0c1a82446

/-! ### Other crates -/

/-- The texts that make up the claims of a grant. -/
def claimsTexts (c : GrantClaims) : List Text :=
  [c.iss.z32, c.clientId.asStr, Capabilities.toText ⟨c.caps⟩, c.cnf.z32, c.jti.asStr,
    Nat.toDigits 10 c.iat.toNat, Nat.toDigits 10 c.exp.toNat]

def claimsOfTexts : List Text → Option GrantClaims
  | [iss, clientId, caps, cnf, jti, iat, exp] => do
    let iss ← PublicKey.ofZ32 iss
    let clientId ← (ClientId.new clientId).toOption
    let caps ← (Capabilities.fromStr caps).toOption
    let cnf ← PublicKey.ofZ32 cnf
    let jti ← (RandomId.parse jti).toOption
    let iat ← Text.parseUnsigned 64 iat
    let exp ← Text.parseUnsigned 64 exp
    return ⟨iss, clientId, caps.toVec, cnf, jti, .ofNat iat, .ofNat exp⟩
  | _ => none

theorem claimsOfTexts_claimsTexts {c : GrantClaims}
    (h : ∀ cap ∈ c.caps, Capability.fromStr cap.toText = .ok cap) :
    claimsOfTexts (claimsTexts c) = some c := by
  have hcaps : Capabilities.fromStr (Capabilities.toText ⟨c.caps⟩) = .ok ⟨c.caps⟩ :=
    Capabilities.fromStr_toText fun cap hcap => Capability.wellFormed_of_fromStr (h cap hcap)
  simp [claimsTexts, claimsOfTexts, PublicKey.ofZ32_z32, hcaps, Except.toOption,
    Text.parseUnsigned_toDigits c.iat.toNat_lt, Text.parseUnsigned_toDigits c.exp.toNat_lt]

/-- The texts that make up an approval. -/
def envelopeTexts (w : WireEnvelope) : List Text :=
  w.grant :: w.encryptionKeys.flatMap fun e => [e.scope.asStr, base64Url.encode e.secret.bytes]

def keysOfTexts : List Text → Option (List KeyEntry)
  | [] => some []
  | scope :: secret :: rest => do
    let scope ← (StoragePath.new scope).toOption
    let bytes ← base64Url.decode secret
    let keys ← keysOfTexts rest
    if h : bytes.length = 32 then some (⟨scope, bytes, h⟩ :: keys) else none
  | _ => none

def envelopeOfTexts : List Text → Option WireEnvelope
  | grant :: rest => (keysOfTexts rest).map (⟨grant, ·⟩)
  | [] => none

theorem envelopeOfTexts_envelopeTexts (w : WireEnvelope) :
    envelopeOfTexts (envelopeTexts w) = some w := by
  have hkeys : ∀ keys : List KeyEntry, keysOfTexts
      (keys.flatMap fun e => [e.scope.asStr, base64Url.encode e.secret.bytes]) = some keys := by
    intro keys
    induction keys with
    | nil => rfl
    | cons e keys ih =>
      simp [keysOfTexts, StoragePath.new_asStr, base64Url_decode_encode, ih, Except.toOption,
        e.secret.length_eq]
  simp [envelopeTexts, envelopeOfTexts, hkeys]

/-- A list of texts as bytes. -/
def textsBytes (ts : List Text) : Bytes := utf8 (jsonTexts ts)

def bytesTexts (bytes : Bytes) : Option (List Text) := (fromUtf8 bytes).bind readTexts

theorem bytesTexts_textsBytes (ts : List Text) : bytesTexts (textsBytes ts) = some ts := by
  simp [bytesTexts, textsBytes, fromUtf8_utf8, readTexts_jsonTexts]

theorem textsBytes_ne_toJson (ts : List Text) : textsBytes ts ≠ claims.toJson := by
  intro h
  have hhead := congrArg List.head? h
  rw [textsBytes, jsonTexts, List.cons_append, utf8_cons] at hhead
  exact absurd hhead (by
    rw [show String.utf8EncodeChar '[' = [91] from rfl, List.singleton_append, List.head?_cons]
    decide +kernel)

def publicKey (secret : Secret) : PublicKey :=
  if secret = aliceSecret then alice else ⟨secret.bytes, secret.length_eq⟩

/-- The signature of a key; alice has signed one token. -/
def signatureOf (key : PublicKey) (message : Bytes) : Signature :=
  if key = alice ∧ message = utf8 (base64Url.encode (headerJson token.typ) ++ '.' ::
      base64Url.encode token.payload) then
    ⟨token.signature, by simp [token, bytesOfNat]⟩
  else ⟨List.replicate 64 0, rfl⟩

/-- The other crates: alice's token has the JSON, signature and ciphertext that it really has. -/
def flow : FlowCrates Unit where
  toCrates :=
    { Crates.ofTokens [] [] [token] [] with
      grantFromJson := fun bytes =>
        if bytes = claims.toJson then .ok claims
        else ((bytesTexts bytes).bind claimsOfTexts).elim (.error []) .ok }
  verify key message signature := signature = signatureOf key message
  headerFromJson bytes :=
    ([.grant, .pop, .customPop, .approval].find? fun t : JwsType => headerJson t.typ = bytes).map
      fun t => ⟨eddsa, t.typ⟩
  customPopFromJson _ := none
  approvalGrantFromJson bytes :=
    ((bytesTexts bytes).bind envelopeOfTexts).map WireEnvelope.grant
  envelopeFromJson bytes := (bytesTexts bytes).bind envelopeOfTexts
  hkdf := ⟨id, fun secret _ => secret⟩
  grantToJson c := if c = claims then claims.toJson else textsBytes (claimsTexts c)
  envelopeToJson w := textsBytes (envelopeTexts w)
  publicKey := publicKey
  sign secret := signatureOf (publicKey secret)
  boxEncrypt key nonce message :=
    if key = channelSecret ∧ nonce = draws.nonce ∧ message = utf8 token.compact then ciphertext
    else 0 :: message
  boxDecrypt key nonce bytes :=
    if key = channelSecret ∧ nonce = draws.nonce ∧ bytes = ciphertext then some (utf8 token.compact)
    else some bytes.tail
  hpkePublicKey secret := ⟨secret.bytes, secret.length_eq⟩
  hpkeSeal _ key message := some (key.bytes, 0 :: message)
  hpkeOpen _ _ bytes := some bytes.tail

theorem head?_ciphertext : ciphertext.head? = some 0xcb := by decide +kernel

theorem lawful_flow : flow.Lawful where
  dot_not_mem := dot_not_mem_base64Url
  decode_encode bytes := decodeSegment_encode [] bytes
  headerFromJson_toJson t := by cases t <;> decide +kernel
  jwtDecodeHeader_typ := by
    intro m t payload signature header hsplit hheader
    have hfound : ∀ typ ∈ [grantJwsTyp, popJwsTyp].find? fun typ =>
        base64Url.encode (headerJson typ) = base64Url.encode (headerJson t.typ), typ = t.typ := by
      cases t <;> decide +kernel
    simp only [flow, Crates.ofTokens] at hsplit hheader
    rw [hsplit] at hheader
    obtain ⟨typ, htyp, rfl⟩ := Option.map_eq_some_iff.1 hheader
    exact congrArg some (hfound typ htyp)
  encode_nil := rfl
  headerToJson_ne_nil typ := by simp [flow, Crates.ofTokens, headerJson, jsonObject, utf8_cons]
  envelopeToJson_ne_nil w := by simp [flow, textsBytes, jsonTexts, utf8_cons]
  grantToJson_ne_nil c := by
    simp only [flow]
    split
    · simp [GrantClaims.toJson, jsonObject, utf8_cons]
    · simp [textsBytes, jsonTexts, utf8_cons]
  grantFromJson_toJson c hcaps := by
    simp only [flow]
    split
    · rename_i hc
      rw [if_pos rfl, hc]
    · rw [if_neg (textsBytes_ne_toJson _), bytesTexts_textsBytes, Option.bind_some,
        claimsOfTexts_claimsTexts hcaps]
      rfl
  envelopeFromJson_toJson w := by
    simp [flow, bytesTexts_textsBytes, envelopeOfTexts_envelopeTexts]
  approvalGrantFromJson_toJson w := by
    simp [flow, bytesTexts_textsBytes, envelopeOfTexts_envelopeTexts]
  grant_eq bytes grant wire hgrant hwire := by
    simp only [flow] at hgrant hwire
    rw [hwire] at hgrant
    exact Option.some.inj hgrant
  verify_sign secret message := by simp [flow]
  boxDecrypt_encrypt key nonce message _ := by
    simp only [flow]
    split
    · rename_i h
      rw [if_pos ⟨h.1, h.2.1, rfl⟩, h.2.2]
    · rw [if_neg]
      · rfl
      · rintro ⟨-, -, h⟩
        have hhead := head?_ciphertext
        rw [← h] at hhead
        rw [List.head?_cons] at hhead
        exact absurd hhead (by decide)
  hpkeOpen_seal randomness secret message encapped ciphertext h := by
    cases h
    exact ⟨secret.length_eq, by simp, rfl⟩

theorem wellFormed_requested : requested.WellFormed :=
  Capability.wellFormed_of_withActions (by simp)
    (show Capability.readWrite "/pub/app/".toList = .ok requested by decide +kernel)

theorem wellFormed_narrowed : narrowed.WellFormed :=
  Capability.wellFormed_of_withActions (by simp)
    (show Capability.read "/pub/app/".toList = .ok narrowed by decide +kernel)

/-- Alice answers with less than was requested. -/
def answer : Bytes :=
  encrypt flow draws.nonce (utf8 (approvalPayload flow aliceSecret
    (issuedClaims flow aliceSecret ⟨[narrowed]⟩ params now draws) .bareGrant)) channelSecret

theorem approveAuth_narrowed :
    approveAuth flow aliceSecret request (some ⟨[narrowed]⟩) now draws = .ok answer := by
  have hsigner : (some alice).any (· ≠ flow.publicKey aliceSecret) = false := by decide +kernel
  have hselect : selectCapabilities params.capabilities (some ⟨[narrowed]⟩) = .ok ⟨[narrowed]⟩ := by
    decide +kernel
  simp only [approveAuth, request, DeepLink.grantRequest, Option.okOr, bind, Except.bind, hsigner,
    hselect]
  rfl

end SampleFlow

open SampleFlow in
/-- The app accepts alice's answer and has gained nothing that it had not asked for. -/
theorem approval_only_narrows_sample :
    ∃ message approval, relayMessage flow params.relayChannel answer = some message ∧
      decodeAndValidateApproval flow message request none = .ok approval ∧
      ∀ (path : StoragePath) (action : Action),
        (Capabilities.mk approval.claims.caps).permits path action →
          params.capabilities.permits path action := by
  have hrequested : ∀ cap ∈ params.capabilities.toVec, cap.WellFormed := by
    intro cap hcap
    obtain rfl := List.mem_singleton.1 hcap
    exact wellFormed_requested
  have hnarrowed : ∀ cs ∈ some (Capabilities.mk [narrowed]), ∀ cap ∈ cs.toVec, cap.WellFormed := by
    rintro cs hcs cap hcap
    obtain rfl := Option.mem_some.1 hcs
    obtain rfl := List.mem_singleton.1 hcap
    exact wellFormed_narrowed
  obtain ⟨message, approval, hmessage, haccepted⟩ :=
    (approval_only_narrows flow lawful_flow).2 aliceSecret request params _ _ now draws answer none rfl
      hrequested hnarrowed rfl approveAuth_narrowed
  obtain ⟨params', expected, hrequest, -, -, -, -, hpermits, -⟩ :=
    (approval_only_narrows flow lawful_flow).1 message request none approval haccepted
  cases hrequest
  exact ⟨message, approval, hmessage, haccepted, hpermits⟩

end Pubky.Sdk

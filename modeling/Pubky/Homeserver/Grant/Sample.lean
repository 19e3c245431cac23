import Mathlib.Data.Rat.Floor
import Pubky.Homeserver.Grant.Calls

/-!
# Sample tokens

Keys, tokens and a concrete instance of `Crates` that knows them, for runs of the service on a
rational clock. The tokens are signed with the Ed25519 secret keys `01…01` (alice), `02…02` (the
homeserver) and `03…03` (the client), and carry the valid signatures.
-/

namespace Pubky.Homeserver.Grant.Sample

open Conc

def alice : PublicKey :=
  .ofNat 0x8a88e3dd7409f195fd52db2d3cba5d72ca6709bf1d94121bf3748801b40f6f5c

def homeserver : PublicKey :=
  .ofNat 0x8139770ea87d175f56a35466c34c7ecccb8d8a91b4ee37a25df60f5b8fc9b394

def client : PublicKey :=
  .ofNat 0xed4928c628d1c2c6eae90338905995612959273a5c63f93636c14614ac8737d1

/-! ## Claims -/

def randomId (s : Text) (h : s ≠ [] ∧ s.byteLen ≤ randomIdMaxLength ∧ s.all isBase64Url) :
    RandomId :=
  ⟨s, h.1, h.2.1, h.2.2⟩

/-- `app.example` may read and write `/pub/app/` for alice. -/
def grantClaims (jti : GrantId) : GrantClaims where
  iss := alice
  clientId := ⟨"app.example".toList, by decide, by decide⟩
  caps := [⟨⟨"/pub/app/".toList, by decide⟩, [.read, .write], by decide⟩]
  cnf := client
  jti := jti
  iat := 1700000000
  exp := 1731536000

def popClaims (gid : GrantId) (nonce : PopNonce) (iat : UInt64) : PopProofClaims where
  aud := homeserver
  gid := gid
  nonce := nonce
  iat := iat

def jtiA : GrantId := randomId "grant-a".toList (by decide)
def jtiB : GrantId := randomId "grant-b".toList (by decide)
def jtiS : GrantId := randomId "grant-s".toList (by decide)

/-- Alice lets `pubky.signup` create their account. -/
def signupClaims : GrantClaims where
  iss := alice
  clientId := ⟨"pubky.signup".toList, by decide, by decide⟩
  caps := [.root]
  cnf := client
  jti := jtiS
  iat := 1700000000
  exp := 1700000300

def popClaimsA : PopProofClaims :=
  popClaims jtiA (randomId "nonce-1".toList (by decide)) 1700000180

def popClaimsA' : PopProofClaims :=
  popClaims jtiA (randomId "nonce-2".toList (by decide)) 1700000000

def popClaimsB : PopProofClaims :=
  popClaims jtiB (randomId "nonce-3".toList (by decide)) 1700000000

def popClaimsS : PopProofClaims :=
  popClaims jtiS (randomId "nonce-4".toList (by decide)) 1700000000

def popClaimsS' : PopProofClaims :=
  popClaims jtiS (randomId "nonce-5".toList (by decide)) 1700000000

/-! ## Tokens -/

def grantA : SignedToken where
  key := alice
  typ := grantJwsTyp
  payload := (grantClaims jtiA).toJson
  signature := bytesOfNat 64
    0x86894d32f7d1672a9edbf90c24d25d61fc6d850b2bf043891d0028d3b9f0d9299278c525a5078f6877947f85aad6f104e88c3151aa0fbc47ed695158fe437e01

def grantB : SignedToken where
  key := alice
  typ := grantJwsTyp
  payload := (grantClaims jtiB).toJson
  signature := bytesOfNat 64
    0x674ca9761ce743f8b07d2a63838b87700672372691e7ab2422a4ff725dfecb4c3406a110d75ceeebfb430f6c2566d2422fb1fead9d3b0754ba947ca0b6687f08

def signupGrant : SignedToken where
  key := alice
  typ := grantJwsTyp
  payload := signupClaims.toJson
  signature := bytesOfNat 64
    0xc03a8ad6c21d6785996d5524fe708340914780cb7848d4b8baa10257920d5d12f9d7e4f301f5ad6390487e5c1417e09aa160b5da620105e9dde52002a8c1b806

def popA : SignedToken where
  key := client
  typ := popJwsTyp
  payload := popClaimsA.toJson
  signature := bytesOfNat 64
    0xa6ec40ee3e54da870905fe88590119e44fc2f6068ba98593e55911f262604f99cf1b339da04c70fb58a4ffdc1fb22934a1449da685c3dc002360581ad0411f0c

def popA' : SignedToken where
  key := client
  typ := popJwsTyp
  payload := popClaimsA'.toJson
  signature := bytesOfNat 64
    0x4c413cd9f41d795eadaa29b941a5be9713babc5b2a8da3479492fe81c02fa39cd0c2316773095ac936c1d0bfca1c447a4e9849827f3ca849c1bfb04f15790c0c

def popB : SignedToken where
  key := client
  typ := popJwsTyp
  payload := popClaimsB.toJson
  signature := bytesOfNat 64
    0xab3e431cf6f8434bfb36a6a54010bf9ae17e001a6db6ee1f98136621b48615ba7403c13674ef419f221d37aae2501c66eeccaf1a260b362f1b7a5e97b2513204

def popS : SignedToken where
  key := client
  typ := popJwsTyp
  payload := popClaimsS.toJson
  signature := bytesOfNat 64
    0x444c5091316b44cb8ed1d221618512e2a6b303a7906d7546691aecc31625cfc5d418ba412a0ecdc6ec39f231c7c34900f2f4e5406ed033ef95ce2548ab081b06

def popS' : SignedToken where
  key := client
  typ := popJwsTyp
  payload := popClaimsS'.toJson
  signature := bytesOfNat 64
    0x03569a1cea56818898da99f2b3c05ca65bf47c57a155502061fac145cce4621a2083a8d34c410432eaca357c1f799d6b59d34012d9ae6491575a91874b999d0e

/-! ## The service -/

def bearer₁ : SessionBearer := ⟨base64Url.encode (List.replicate 32 7)⟩

def bearer₂ : SessionBearer := ⟨base64Url.encode (List.replicate 32 8)⟩

def signedTokens : List SignedToken :=
  [grantA, grantB, signupGrant, popA, popA', popB, popS, popS']

def crates : Crates :=
  .ofTokens [grantClaims jtiA, grantClaims jtiB, signupClaims]
    [popClaimsA, popClaimsA', popClaimsB, popClaimsS, popClaimsS'] signedTokens
    [(utf8 bearer₁.asStr,
        bytesOfNat 32 0xdc4bf80c77473d130fa0de86ba4018fe98bb214005e6a5891d12ba91446f9e81),
      (utf8 bearer₂.asStr,
        bytesOfNat 32 0xce9ec58122164c824a43e0452ffbba3da694694b44563b5c548942dbb8ab8e14)]

def service : GrantAuthService := ⟨homeserver, false⟩

/-- The token as the service receives it. -/
def compact (t : SignedToken) : JwsCompact where
  asStr := t.compact
  three_parts := by rw [t.splitn_compact]; rfl

/-! ## Runs -/

/-- An instant, in half seconds. -/
def instant (n : ℕ) (h : n < 2 * endOfTime) : Instant ℚ where
  secs := n / 2
  nonneg := by positivity
  lt_endOfTime := by
    rw [div_lt_iff₀ two_pos, mul_comm]
    exact_mod_cast h

/-- The state at a given time with the given users and nothing else. -/
def start (t : Instant ℚ) (users : List UserRow) :
    Pool (State ℚ) (Op ℚ) Call (Out ℚ) (Op.Res ℚ) where
  world :=
    { state :=
        { clock := t
          users := ⟨users, [], []⟩
          quotas := ⟨[], [], []⟩
          signupCodes := ⟨[], [], []⟩
          grants := ⟨[], [], []⟩
          sessions := ⟨[], [], []⟩
          popNonces := []
          nextUserId := 1
          pending := []
          wal := []
          minted := []
          readings := [] }
      hist := [] }
  threads := fun _ => none

theorem initial_start (t : Instant ℚ) (users : List UserRow) : Initial (start t users) := by
  constructor <;> simp [start]

/-- The state at the time at which the grants were issued. -/
def morning (users : List UserRow) : Pool (State ℚ) (Op ℚ) Call (Out ℚ) (Op.Res ℚ) :=
  start (instant (2 * 1700000000) (by decide)) users

/-- Alice has an account. -/
def aliceRow : UserRow := ⟨0, alice.z32⟩

/-- The session of a bearer that was issued at that time. -/
def sessionOf (jti : GrantId) (bearer : SessionBearer) : GrantSession where
  userKey := alice
  capabilities := ⟨(grantClaims jti).caps⟩
  grantId := jti
  tokenExpiresAt := 1700003600
  tokenHash := bearer.hash crates

/-- The next `n` operations of a call succeed. -/
def proceed (i n : ℕ) : List (Conc.Action Choice (Env ℚ) Call) :=
  List.replicate n (.run i .done)

/-- A complete grant exchange, which draws the given bytes as its bearer. -/
def exchange (i : ℕ) (grant pop : SignedToken) (bytes : Bytes) :
    List (Conc.Action Choice (Env ℚ) Call) :=
  .call i (.createGrantSession (compact grant) (compact pop)) :: proceed i 10 ++ .run i (.random bytes) ::
    proceed i 8

def resolve (i : ℕ) (bearer : SessionBearer) : List (Conc.Action Choice (Env ℚ) Call) :=
  .call i (.resolveGrantSessionByBearer bearer) :: proceed i 4

end Pubky.Homeserver.Grant.Sample

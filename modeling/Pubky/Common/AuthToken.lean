import Mathlib.Data.UInt
import Pubky.Common.Encodings

/-!
# Auth tokens

`pubky-common/src/auth/auth_token.rs`: a token names a user, a time and capabilities, and carries
the user's signature. It is read with postcard, whose wire format of the fixed-size fields at the
front of a token is spelled out here: 64 bytes of signature, 10 bytes of namespace, one byte of
version. The decoding of the other fields and the verification of signatures are parameters.

* `authToken_verify_eq_ok` says what an accepted token is.
* `authToken_verify_set_nameSpace`: the first byte of the namespace is neither signed nor compared,
  so it can be replaced in every accepted token.
* `checkTime_exact_iff`: the time check casts both times to `i64` before it subtracts them, so that
  it is exact only between times in the same half of `u64`.
-/

namespace Pubky

/-! ## The model -/

/-- Microseconds since the Unix epoch. -/
abbrev Timestamp := UInt64

inductive AuthTokenError where
  | unknownVersion
  | tooFarInTheFuture
  | expired
  | invalidSignature
  | parsing
  | alreadyUsed
  /-- A panic in an arm marked `unreachable!()`. -/
  | unreachable
  deriving DecidableEq, Repr

structure AuthToken where
  signature : Bytes
  nameSpace : Bytes
  version : UInt8
  timestamp : Timestamp
  publicKey : PublicKey
  capabilities : Capabilities
  deriving DecidableEq

/-- What the module uses of other crates. The decoders are those of `postcard` for the given type;
they return the bytes they leave over. -/
structure AuthCrates where
  timestampFromPostcard : Bytes → Option (Timestamp × Bytes)
  publicKeyFromPostcard : Bytes → Option (PublicKey × Bytes)
  stringFromPostcard : Bytes → Option (Text × Bytes)
  /-- `pkarr::PublicKey::verify` on a message and a signature -/
  verify : PublicKey → Bytes → Bytes → Bool

/-- Namespace used by the Pubky Auth protocol. -/
def pubkyAuth : Bytes := utf8 "PUBKY:AUTH".toList

def currentVersion : UInt8 := 0

/-- Three minutes in the past or the future. -/
def timestampWindow : Int64 := 180 * 1000000

/-- A tuple of `n` bytes in postcard. -/
def takeBytes (n : ℕ) (bytes : Bytes) : Option (Bytes × Bytes) :=
  if n ≤ bytes.length then some (bytes.take n, bytes.drop n) else none

def AuthToken.deserialize (A : AuthCrates) (bytes : Bytes) : Option AuthToken := do
  let (signature, bytes) ← takeBytes 64 bytes
  let (nameSpace, bytes) ← takeBytes 10 bytes
  let (version, bytes) ← takeBytes 1 bytes
  let (timestamp, bytes) ← A.timestampFromPostcard bytes
  let (publicKey, bytes) ← A.publicKeyFromPostcard bytes
  let (text, _) ← A.stringFromPostcard bytes
  let capabilities ← (Capabilities.fromStr text).toOption
  return ⟨signature, nameSpace, version.headD 0, timestamp, publicKey, capabilities⟩

/-- The bytes that the signature is made over. -/
def AuthToken.signable (bytes : Bytes) : Bytes :=
  bytes.drop 65

/-- Parse and verify a token at time `now`. -/
def AuthToken.verify (A : AuthCrates) (now : Timestamp) (bytes : Bytes) :
    Except AuthTokenError AuthToken :=
  match bytes[74]? with
  | none => .error .parsing
  | some version =>
    if currentVersion < version then .error .unknownVersion
    else
      match AuthToken.deserialize A bytes with
      | none => .error .parsing
      | some token =>
        if token.version = 0 then
          let diff := token.timestamp.toInt64 - now.toInt64
          if timestampWindow < diff then .error .tooFarInTheFuture
          else if diff < -timestampWindow then .error .expired
          else if A.verify token.publicKey (AuthToken.signable bytes) token.signature then .ok token
          else .error .invalidSignature
        else .error .unreachable

/-! ## What is accepted -/

section Accepted

variable {A : AuthCrates} {now : Timestamp} {bytes : Bytes} {token : AuthToken}

/-- The timestamp of a token is in the window around `now`. -/
def AuthToken.InWindow (token : AuthToken) (now : Timestamp) : Prop :=
  ¬ timestampWindow < token.timestamp.toInt64 - now.toInt64 ∧
    ¬ token.timestamp.toInt64 - now.toInt64 < -timestampWindow

theorem version_eq_zero {v : UInt8} (h : ¬ currentVersion < v) : v = 0 := by
  have hle := UInt8.le_iff_toNat_le.1 (UInt8.not_lt.1 h)
  exact UInt8.toNat_inj.1 (Nat.le_zero.1 hle)

/-- The conditions under which a token is accepted. -/
theorem authToken_verify_eq_ok :
    AuthToken.verify A now bytes = .ok token ↔
      bytes[74]? = some 0 ∧ AuthToken.deserialize A bytes = some token ∧ token.version = 0 ∧
      token.InWindow now ∧
      A.verify token.publicKey (AuthToken.signable bytes) token.signature = true := by
  constructor
  · intro h
    rw [AuthToken.verify] at h
    split at h
    · cases h
    · rename_i v hv
      split at h
      · cases h
      · rename_i hle
        split at h
        · cases h
        · rename_i t ht
          split at h
          · rename_i hzero
            simp only at h
            split at h
            · cases h
            · rename_i hfuture
              split at h
              · cases h
              · rename_i hpast
                split at h
                · rename_i hsig
                  cases h
                  exact ⟨by rw [hv, version_eq_zero hle], ht, hzero, ⟨hfuture, hpast⟩, hsig⟩
                · cases h
          · cases h
  · rintro ⟨hv, ht, hzero, ⟨hfuture, hpast⟩, hsig⟩
    have hle : ¬ currentVersion < (0 : UInt8) := by decide
    simp only [AuthToken.verify, hv, hle, ht, hzero, hfuture, hpast, hsig, if_true, if_false]

/-! ## Malleability -/

section Malleable

variable {signature rest : Bytes} {x y : UInt8}

/-- The first byte of the namespace only goes into the namespace of the decoded token. -/
theorem deserialize_set_nameSpace (hsig : signature.length = 64) :
    AuthToken.deserialize A (signature ++ y :: rest) =
      (AuthToken.deserialize A (signature ++ x :: rest)).map
        fun t => { t with nameSpace := y :: t.nameSpace.tail } := by
  have hfront : ∀ z, takeBytes 64 (signature ++ z :: rest) = some (signature, z :: rest) := by
    intro z
    have hle : 64 ≤ (signature ++ z :: rest).length := by
      rw [List.length_append]
      omega
    rw [takeBytes, if_pos hle, List.take_left' hsig, List.drop_left' hsig]
  have hname : ∀ z, takeBytes 10 (z :: rest) =
      (takeBytes 9 rest).map fun p => (z :: p.1, p.2) := by
    intro z
    by_cases hle : 9 ≤ rest.length
    · simp [takeBytes, hle]
    · simp [takeBytes, hle]
  simp only [AuthToken.deserialize, hfront, hname, Option.bind_eq_bind, Option.bind_some]
  -- the fields behind the namespace are decoded from the same bytes
  cases takeBytes 9 rest with
  | none => rfl
  | some p =>
    simp only [Option.map_some, Option.bind_some]
    cases takeBytes 1 p.2 with
    | none => rfl
    | some v =>
      simp only [Option.bind_some]
      cases A.timestampFromPostcard v.2 with
      | none => rfl
      | some t =>
        simp only [Option.bind_some]
        cases A.publicKeyFromPostcard t.2 with
        | none => rfl
        | some k =>
          simp only [Option.bind_some]
          cases A.stringFromPostcard k.2 with
          | none => rfl
          | some u =>
            simp only [Option.bind_some]
            cases (Capabilities.fromStr u.1).toOption with
            | none => rfl
            | some caps => rfl

/-- The first byte of the namespace is neither signed nor compared. -/
theorem authToken_verify_set_nameSpace (hsig : signature.length = 64)
    (h : AuthToken.verify A now (signature ++ x :: rest) = .ok token) :
    AuthToken.verify A now (signature ++ y :: rest) =
      .ok { token with nameSpace := y :: token.nameSpace.tail } := by
  obtain ⟨hversion, htoken, hzero, hwindow, hverify⟩ := authToken_verify_eq_ok.1 h
  refine authToken_verify_eq_ok.2 ⟨?_, ?_, hzero, hwindow, ?_⟩
  · rw [List.getElem?_append_right (by omega)] at hversion ⊢
    simpa [hsig] using hversion
  · rw [deserialize_set_nameSpace (x := x) hsig, htoken]
    rfl
  · have hsignable : ∀ z, AuthToken.signable (signature ++ z :: rest) = rest := by
      intro z
      rw [AuthToken.signable, List.drop_append, hsig]
      simp [hsig]
    rw [hsignable] at hverify ⊢
    exact hverify

end Malleable

/-- What a signature is meant to give for an accepted token: it belongs to the protocol, and nobody
can change a byte outside of the signature and have it accepted for the same user. -/
def AuthToken.Authentic (A : AuthCrates) (now : Timestamp) (bytes : Bytes) (token : AuthToken) :
    Prop :=
  token.nameSpace = pubkyAuth ∧
    ∀ bytes' token', bytes'.take 64 = bytes.take 64 → bytes' ≠ bytes →
      AuthToken.verify A now bytes' = .ok token' → token'.publicKey ≠ token.publicKey

/-- No accepted token is authentic in this sense. -/
theorem authToken_never_authentic (h : AuthToken.verify A now bytes = .ok token) :
    ¬ token.Authentic A now bytes := by
  rintro ⟨-, hunique⟩
  obtain ⟨hversion, -⟩ := authToken_verify_eq_ok.1 h
  have hlen : 74 < bytes.length := (List.getElem?_eq_some_iff.1 hversion).1
  obtain ⟨signature, x, rest, hsig, rfl⟩ :
      ∃ signature x rest, signature.length = 64 ∧ bytes = signature ++ x :: rest := by
    refine ⟨bytes.take 64, bytes[64], bytes.drop 65, ?_, ?_⟩
    · rw [List.length_take]
      omega
    · rw [← List.drop_eq_getElem_cons, List.take_append_drop]
  -- put another byte at the front of the namespace
  have hother : x + 1 ≠ x := by
    intro heq
    have hnat := congrArg UInt8.toNat heq
    have hlt := x.toNat_lt
    rw [UInt8.toNat_add] at hnat
    simp only [UInt8.toNat_one] at hnat
    omega
  have haccepted := authToken_verify_set_nameSpace (y := x + 1) hsig h
  refine hunique _ _ ?_ ?_ haccepted rfl
  · rw [List.take_left' hsig, List.take_left' hsig]
  · intro heq
    exact hother (List.cons.inj (List.append_cancel_left heq)).1

end Accepted

/-! ## The time check -/

section Time

/-- `timestamp as i64 - now as i64` with overflow checks; `none` is a panic. -/
def checkedDiff (timestamp now : Timestamp) : Option ℤ :=
  let diff := timestamp.toInt64.toInt - now.toInt64.toInt
  if -2 ^ 63 ≤ diff ∧ diff < 2 ^ 63 then some diff else none

/-- The time check of `AuthToken::verify` with overflow checks. -/
def checkTime (timestamp now : Timestamp) : Option (Except AuthTokenError Unit) :=
  (checkedDiff timestamp now).map fun diff =>
    if timestampWindow.toInt < diff then .error .tooFarInTheFuture
    else if diff < (-timestampWindow).toInt then .error .expired
    else .ok ()

/-- What the time check is meant to be, in integers. -/
def exactTimeCheck (timestamp now : ℤ) : Except AuthTokenError Unit :=
  if now + timestampWindow.toInt < timestamp then .error .tooFarInTheFuture
  else if timestamp + timestampWindow.toInt < now then .error .expired
  else .ok ()

variable {timestamp now : Timestamp}

theorem toInt_toInt64 (c : UInt64) : c.toInt64.toInt = (c.toNat : ℤ).bmod (2 ^ 64) := by
  rw [← Int64.toInt_toBitVec, BitVec.toInt_eq_toNat_bmod]
  rfl

/-- The lower half of the times is kept by the cast to `i64`. -/
theorem toInt_of_lt {c : UInt64} (h : c.toNat < 2 ^ 63) : c.toInt64.toInt = c.toNat := by
  rw [toInt_toInt64, Int.bmod_def]
  split <;> omega

/-- The upper half becomes negative. -/
theorem toInt_of_le {c : UInt64} (h : 2 ^ 63 ≤ c.toNat) :
    c.toInt64.toInt = (c.toNat : ℤ) - 2 ^ 64 := by
  have hlt := c.toNat_lt
  rw [toInt_toInt64, Int.bmod_def]
  split <;> omega

theorem checkedDiff_eq_some {diff : ℤ} (h : checkedDiff timestamp now = some diff) :
    diff = timestamp.toInt64.toInt - now.toInt64.toInt ∧ -2 ^ 63 ≤ diff ∧ diff < 2 ^ 63 := by
  simp only [checkedDiff] at h
  split at h
  · rename_i hrange
    cases h
    exact ⟨rfl, hrange⟩
  · cases h

/-- Between times in the same half the difference is exact. -/
theorem checkedDiff_of_iff (h : timestamp.toNat < 2 ^ 63 ↔ now.toNat < 2 ^ 63) :
    checkedDiff timestamp now = some ((timestamp.toNat : ℤ) - now.toNat) := by
  have ht := timestamp.toNat_lt
  have hn := now.toNat_lt
  have hdiff : timestamp.toInt64.toInt - now.toInt64.toInt =
      (timestamp.toNat : ℤ) - now.toNat := by
    by_cases hlow : timestamp.toNat < 2 ^ 63
    · rw [toInt_of_lt hlow, toInt_of_lt (h.1 hlow)]
    · rw [toInt_of_le (by omega), toInt_of_le (by omega)]
      omega
  have hrange : -2 ^ 63 ≤ (timestamp.toNat : ℤ) - now.toNat ∧
      (timestamp.toNat : ℤ) - now.toNat < 2 ^ 63 := by
    omega
  simp only [checkedDiff, hdiff, if_pos hrange]

/-- Between times in different halves it overflows or has the wrong sign, so that the check does
not find a token too old, or too far in the future, that is. -/
theorem checkTime_ne_of_halves (h : ¬ (timestamp.toNat < 2 ^ 63 ↔ now.toNat < 2 ^ 63)) :
    checkTime timestamp now ≠ some (exactTimeCheck timestamp.toNat now.toNat) := by
  have hpos : timestampWindow.toInt = 180000000 := by decide
  have hneg : (-timestampWindow).toInt = -180000000 := by decide
  have ht := timestamp.toNat_lt
  have hn := now.toNat_lt
  intro hcheck
  obtain ⟨diff, hdiff, hresult⟩ := Option.map_eq_some_iff.1 hcheck
  obtain ⟨hdiff, hlow, hhigh⟩ := checkedDiff_eq_some hdiff
  rw [hpos, hneg, exactTimeCheck, hpos] at hresult
  by_cases hside : timestamp.toNat < 2 ^ 63
  · -- the token is old, and the difference is positive
    rw [toInt_of_lt hside, toInt_of_le (by omega)] at hdiff
    rw [if_neg (by omega : ¬ ((now.toNat : ℤ) + 180000000 < timestamp.toNat)),
      if_pos (by omega : (timestamp.toNat : ℤ) + 180000000 < now.toNat)] at hresult
    split at hresult
    · cases hresult
    · rw [if_neg (by omega)] at hresult
      cases hresult
  · -- the token is from the future, and the difference is negative
    rw [toInt_of_le (by omega), toInt_of_lt (by omega)] at hdiff
    rw [if_pos (by omega : (now.toNat : ℤ) + 180000000 < timestamp.toNat),
      if_neg (by omega : ¬ (180000000 < diff))] at hresult
    split at hresult <;> cases hresult

/-- The time check is exact and does not overflow if and only if both times are in the same half
of the range of `u64`. -/
theorem checkTime_exact_iff (timestamp now : Timestamp) :
    checkTime timestamp now = some (exactTimeCheck timestamp.toNat now.toNat) ↔
      (timestamp.toNat < 2 ^ 63 ↔ now.toNat < 2 ^ 63) := by
  refine ⟨fun hcheck => not_imp_not.1 checkTime_ne_of_halves hcheck, fun h => ?_⟩
  have hpos : timestampWindow.toInt = 180000000 := by decide
  have hneg : (-timestampWindow).toInt = -180000000 := by decide
  have hfuture : 180000000 < (timestamp.toNat : ℤ) - now.toNat ↔
      (now.toNat : ℤ) + 180000000 < timestamp.toNat := by omega
  have hpast : (timestamp.toNat : ℤ) - now.toNat < -180000000 ↔
      (timestamp.toNat : ℤ) + 180000000 < now.toNat := by omega
  rw [checkTime, checkedDiff_of_iff h, Option.map_some, exactTimeCheck, hpos, hneg]
  simp only [hfuture, hpast]

/-- Under a clock of the year 2023 the last timestamp of all counts as expired; at the epoch it
counts as valid; and two times can overflow the subtraction. -/
theorem checkTime_not_exact :
    exactTimeCheck (2 ^ 64 - 1) 1700000000000000 = .error .tooFarInTheFuture ∧
      checkTime (2 ^ 64 - 1) 1700000000000000 = some (.error .expired) ∧
      exactTimeCheck (2 ^ 64 - 1) 0 = .error .tooFarInTheFuture ∧
      checkTime (2 ^ 64 - 1) 0 = some (.ok ()) ∧ checkTime (2 ^ 63) 1 = none := by
  decide +kernel

end Time

/-! ## A sample token -/

/-- The crates as they behave on short ASCII capabilities, where exactly the given messages have
been signed. -/
def AuthCrates.ofSigned (signed : List (PublicKey × Bytes × Bytes)) : AuthCrates where
  timestampFromPostcard bytes := do
    let (front, rest) ← takeBytes 8 bytes
    return (UInt64.ofNat (front.foldl (fun n b => 256 * n + b.toNat) 0), rest)
  publicKeyFromPostcard bytes :=
    if h : 32 ≤ bytes.length then
      some (⟨bytes.take 32, by rw [List.length_take]; omega⟩, bytes.drop 32)
    else none
  stringFromPostcard
    | [] => none
    | n :: bytes => (takeBytes n.toNat bytes).map fun p => (p.1.map fun b => Char.ofNat b.toNat, p.2)
  verify key message signature := signed.contains (key, message, signature)

namespace SampleToken

/-- The Ed25519 public key of the secret key `01…01`. -/
def alice : PublicKey :=
  .ofNat 0x8a88e3dd7409f195fd52db2d3cba5d72ca6709bf1d94121bf3748801b40f6f5c

def now : Timestamp := 1700000000000000

def signature : Bytes := bytesOfNat 64
  0xbbd5283dec94a2f4116d0a0ea2874e5a700450273ca16cfa5836a170d5854a80a338203330837d14fa4b477ec035820be9d660dbaf85f387c0a6998403fb2208

/-- What is signed: the namespace without its first byte, version, time, key and capabilities. -/
def message : Bytes :=
  utf8 "UBKY:AUTH".toList ++ 0 :: (bytesOfNat 8 now.toNat ++ (alice.bytes ++ 4 :: utf8 "/:rw".toList))

def crates : AuthCrates := .ofSigned [(alice, message, signature)]

/-- Alice's token with root capability, with `x` as the first byte of its namespace. -/
def token (x : UInt8) : AuthToken where
  signature := signature
  nameSpace := x :: utf8 "UBKY:AUTH".toList
  version := 0
  timestamp := now
  publicKey := alice
  capabilities := ⟨[.root]⟩

end SampleToken

open SampleToken in
theorem authToken_never_authentic_sample :
    AuthToken.verify crates now (signature ++ 80 :: message) = .ok (token 80) ∧
      ¬ (token 80).Authentic crates now (signature ++ 80 :: message) :=
  have hverify : AuthToken.verify crates now (signature ++ 80 :: message) = .ok (token 80) := by
    decide +kernel
  ⟨hverify, authToken_never_authentic hverify⟩

open SampleToken in
/-- The signature of alice's token also makes a token of the namespace `QUBKY:AUTH` valid. -/
theorem authToken_nameSpace_forged :
    (token 80).nameSpace = pubkyAuth ∧
      AuthToken.verify crates now (signature ++ 80 :: message) = .ok (token 80) ∧
      AuthToken.verify crates now (signature ++ 81 :: message) = .ok (token 81) ∧
      (token 81).publicKey = (token 80).publicKey ∧ (token 81).nameSpace ≠ pubkyAuth := by
  decide +kernel

end Pubky

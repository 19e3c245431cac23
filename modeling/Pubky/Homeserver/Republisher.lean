import Mathlib.Data.Char
import Mathlib.Data.List.Lex
import Pubky.Common.Encodings

/-!
# Republishing the records of users

`republishers/pkarr_republisher/republisher.rs` and `user_keys_republisher.rs`: the homeserver keeps
the packets of its users alive in the network. An attempt for a user looks the packet up in the
cache and in the network, takes the more recent one, and publishes it again if it names this
homeserver.

* `republish_cases`: everything that an attempt can do.
* `republish_sound`: it never spreads a stale packet or one that names another homeserver.
-/

namespace Pubky.Homeserver.Republisher

/-! ## Packets -/

/-- `RData`, as far as it is told apart. -/
inductive RData where
  | svcb (target : Text)
  | https (target : Text)
  | other
  deriving DecidableEq

/-- `pkarr::SignedPacket` -/
structure Pkarr where
  SignedPacket : Type
  timestamp : SignedPacket → UInt64
  /-- `SignedPacket::resource_records`, the data of the records of a name -/
  resourceRecords : SignedPacket → Text → List RData
  moreRecentThan : SignedPacket → SignedPacket → Bool

/-- What is assumed of `SignedPacket::more_recent_than`: it orders the packets of a key by their
timestamps, those of one timestamp by their content. -/
structure Pkarr.Lawful (K : Pkarr) : Prop where
  timestamp_le {p q : K.SignedPacket} (h : K.moreRecentThan p q = true) :
    K.timestamp q ≤ K.timestamp p
  le_timestamp {p q : K.SignedPacket} (h : K.moreRecentThan p q = false) :
    K.timestamp p ≤ K.timestamp q
  asymm {p q : K.SignedPacket} (h : K.moreRecentThan p q = true) : K.moreRecentThan q p = false
  tie {p q : K.SignedPacket} (h : K.moreRecentThan p q = false)
    (h' : K.moreRecentThan q p = false) : K.resourceRecords p = K.resourceRecords q

/-- `ResolveError`, as far as it is told apart. -/
inductive ResolveError where
  | notFound
  | invalidSignedPacket (seq : Int64)
  | other
  deriving DecidableEq

/-- `PublishError`, as far as it is told apart. -/
inductive PublishError where
  | notMostRecent
  | other
  deriving DecidableEq

inductive RepublishError where
  | insufficientlyPublished (publishedNodesCount : ℕ)
  | publish (e : PublishError)
  | resolve (e : ResolveError)
  deriving DecidableEq

inductive RepublishOutcome where
  | published
  | skipped
  | missing
  | invalidSignedPacket
  deriving DecidableEq

variable {K : Pkarr}

/-- What the client answers during an attempt: to the lookup in the cache, to the lookup in the
network, and to a packet that is published. -/
structure Client (K : Pkarr) where
  cacheOnly : Except ResolveError K.SignedPacket
  networkOnly : Except ResolveError K.SignedPacket
  publish : K.SignedPacket → Except PublishError ℕ

structure RepublisherSettings (K : Pkarr) where
  minSufficientNodePublishCount : ℕ
  republishCondition : Option (K.SignedPacket → Bool)

/-! ## An attempt -/

/-- A computation of the attempt, with the packets that it has handed to the network. -/
abbrev Attempt (K : Pkarr) := ExceptT RepublishError (StateM (List K.SignedPacket))

section

variable (settings : RepublisherSettings K) (client : Client K)

def resolveCached : Option K.SignedPacket :=
  match client.cacheOnly with
  | .ok packet => some packet
  | .error _ => none

def shouldRepublish (packet : K.SignedPacket) : Bool :=
  match settings.republishCondition with
  | none => true
  | some condition => condition packet

/-- The cached packet is not published for the time being. -/
def tryPublishCached (packet : K.SignedPacket) : Attempt K Bool :=
  if !shouldRepublish settings packet then return false
  else return false

def publish (packet : K.SignedPacket) : Attempt K Unit := do
  modify (· ++ [packet])
  match client.publish packet with
  | .error e => throw (.publish e)
  | .ok publishedNodesCount =>
    if publishedNodesCount < settings.minSufficientNodePublishCount then
      throw (.insufficientlyPublished publishedNodesCount)

/-- The packet that is published if it meets the condition. -/
def latest : Option K.SignedPacket → Option K.SignedPacket → Option K.SignedPacket
  | some network, some cached =>
    if K.moreRecentThan cached network then some cached else some network
  | some network, none => some network
  | none, cached => cached

def republishPacket : Option K.SignedPacket → Attempt K RepublishOutcome
  | none => return .missing
  | some packet => do
    if !shouldRepublish settings packet then return .skipped
    publish settings client packet
    return .published

/-- A cached packet covers an invalid one with a sequence number up to its timestamp. -/
def covers (cached : Option K.SignedPacket) (seq : Int64) : Bool :=
  cached.any fun packet => seq ≤ (K.timestamp packet).toInt64

def republishLatest (cached : Option K.SignedPacket) : Attempt K RepublishOutcome :=
  match client.networkOnly with
  | .ok network => republishPacket settings client (latest (some network) cached)
  | .error .notFound => republishPacket settings client (latest none cached)
  | .error (.invalidSignedPacket seq) =>
    if covers cached seq then republishPacket settings client (latest none cached)
    else return .invalidSignedPacket
  | .error .other => throw (.resolve .other)

/-- Republish a single public key. -/
def republish : Attempt K RepublishOutcome := do
  let cached := resolveCached client
  if let some packet := cached then
    if ← tryPublishCached settings packet then
      return .published
  republishLatest settings client cached

end

/-! ## The packets of the users -/

/-- The target of a record that names a homeserver. -/
def RData.target : RData → Option Text
  | .svcb target => some target
  | .https target => some target
  | .other => none

def packetPointsToHomeserver (C : Crates) (homeserverPublicKey : PublicKey)
    (packet : K.SignedPacket) : Bool :=
  (((K.resourceRecords packet "_pubky".toList).findSome? RData.target).bind C.fromZ32).any
    (· = homeserverPublicKey)

/-- The settings with which `republish_impl` goes through the users. -/
def userKeysSettings (C : Crates) (homeserverPublicKey : PublicKey) (minCount : ℕ) :
    RepublisherSettings K where
  minSufficientNodePublishCount := minCount
  republishCondition := some (packetPointsToHomeserver C homeserverPublicKey)

/-! ## What an attempt can do -/

/-- The results of an attempt that has chosen a packet, with the packets that were published. -/
inductive Ran (settings : RepublisherSettings K) (client : Client K) : Option K.SignedPacket →
    Except RepublishError RepublishOutcome × List K.SignedPacket → Prop
  | missing : Ran settings client none (.ok .missing, [])
  | skipped {packet : K.SignedPacket} (hcondition : shouldRepublish settings packet = false) :
      Ran settings client (some packet) (.ok .skipped, [])
  | failed {packet : K.SignedPacket} (hcondition : shouldRepublish settings packet = true)
      (e : RepublishError) : Ran settings client (some packet) (.error e, [packet])
  | published {packet : K.SignedPacket} (hcondition : shouldRepublish settings packet = true)
      {count : ℕ} (hstored : client.publish packet = .ok count)
      (hcount : settings.minSufficientNodePublishCount ≤ count) :
      Ran settings client (some packet) (.ok .published, [packet])

variable {settings : RepublisherSettings K} {client : Client K}

theorem republishPacket_ran (packet : Option K.SignedPacket) :
    Ran settings client packet ((republishPacket settings client packet).run.run []) := by
  cases packet with
  | none => exact .missing
  | some packet =>
    cases hcondition : shouldRepublish settings packet with
    | false =>
      have hrun : (republishPacket settings client (some packet)).run.run [] =
          (.ok .skipped, []) := by
        simp only [republishPacket, hcondition]
        rfl
      exact hrun ▸ .skipped hcondition
    | true =>
      cases hpublish : client.publish packet with
      | error e =>
        have hrun : (republishPacket settings client (some packet)).run.run [] =
            (.error (.publish e), [packet]) := by
          simp only [republishPacket, hcondition, publish, hpublish]
          rfl
        exact hrun ▸ .failed hcondition _
      | ok count =>
        by_cases hcount : count < settings.minSufficientNodePublishCount
        · have hrun : (republishPacket settings client (some packet)).run.run [] =
              (.error (.insufficientlyPublished count), [packet]) := by
            simp only [republishPacket, hcondition, publish, hpublish, hcount, if_true]
            rfl
          exact hrun ▸ .failed hcondition _
        · have hrun : (republishPacket settings client (some packet)).run.run [] =
              (.ok .published, [packet]) := by
            simp only [republishPacket, hcondition, publish, hpublish, hcount, if_false]
            rfl
          exact hrun ▸ .published hcondition hpublish (not_lt.1 hcount)

/-- The packets that the attempt knows of. -/
def Client.known (client : Client K) : List K.SignedPacket :=
  client.cacheOnly.toOption.toList ++ client.networkOnly.toOption.toList

/-- The attempt comes to the packets that it knows of if the network has a packet or none, or an
invalid one that the cached packet covers. -/
def Client.Decides (client : Client K) : Prop :=
  match client.networkOnly with
  | .ok _ => True
  | .error .notFound => True
  | .error (.invalidSignedPacket seq) => covers (resolveCached client) seq = true
  | .error .other => False

theorem resolveCached_eq : resolveCached client = client.cacheOnly.toOption := by
  rw [resolveCached]
  cases client.cacheOnly <;> rfl

/-- Looking at the cached packet first changes nothing. -/
theorem republish_eq :
    republish settings client = republishLatest settings client (resolveCached client) := by
  have htry : ∀ packet, tryPublishCached settings packet = pure false := by
    intro packet
    rw [tryPublishCached, ite_self]
  rw [republish]
  cases resolveCached client with
  | none => rfl
  | some packet => simp [htry]

/-- An attempt publishes nothing, or it has chosen the latest packet. -/
theorem republish_cases :
    (client.Decides ∧ Ran settings client
        (latest client.networkOnly.toOption client.cacheOnly.toOption)
        ((republish settings client).run.run [])) ∨
      ¬ client.Decides ∧ ∃ r, (republish settings client).run.run [] = (r, []) ∧
        r ≠ .ok .published := by
  rw [republish_eq, ← resolveCached_eq]
  unfold republishLatest Client.Decides
  match client.networkOnly with
  | .ok network => exact .inl ⟨trivial, republishPacket_ran _⟩
  | .error .notFound => exact .inl ⟨trivial, republishPacket_ran _⟩
  | .error .other => exact .inr ⟨id, _, rfl, nofun⟩
  | .error (.invalidSignedPacket seq) =>
    cases hcovers : covers (resolveCached client) seq with
    | true =>
      simp only [hcovers, if_true]
      exact .inl ⟨trivial, republishPacket_ran _⟩
    | false =>
      simp only [hcovers]
      exact .inr ⟨nofun, _, rfl, nofun⟩

/-! ## Recency -/

section Recency

variable (hK : K.Lawful)

include hK

/-- The latest packet is one of those that are known, and none of them is more recent. -/
theorem latest_spec {network cached : Option K.SignedPacket} {packet : K.SignedPacket}
    (h : latest network cached = some packet) :
    packet ∈ cached.toList ++ network.toList ∧ ∀ q ∈ cached.toList ++ network.toList,
      K.timestamp q ≤ K.timestamp packet ∧ K.moreRecentThan q packet = false := by
  have hrefl : ∀ p, K.moreRecentThan p p = false := by
    intro p
    by_contra hp
    have hp : K.moreRecentThan p p = true := by simpa using hp
    exact absurd (hK.asymm hp) (by simp [hp])
  have hself : ∀ p, K.timestamp p ≤ K.timestamp p ∧ K.moreRecentThan p p = false := fun p =>
    ⟨UInt64.le_refl _, hrefl p⟩
  match network, cached with
  | none, none => cases h
  | none, some cached =>
    obtain rfl := Option.some.inj h
    simpa using hself cached
  | some network, none =>
    obtain rfl := Option.some.inj h
    simpa using hself network
  | some network, some cached =>
    cases hmore : K.moreRecentThan cached network with
    | true =>
      rw [latest, if_pos hmore] at h
      obtain rfl := Option.some.inj h
      simpa using ⟨hrefl cached, hK.timestamp_le hmore, hK.asymm hmore⟩
    | false =>
      rw [latest, if_neg (by simp [hmore])] at h
      obtain rfl := Option.some.inj h
      simpa using ⟨⟨hK.le_timestamp hmore, hmore⟩, hrefl network⟩

end Recency

/-- The cast of a timestamp to a signed number can only make it smaller. -/
theorem le_of_covers {cached : K.SignedPacket} {seq : Int64} (h : covers (some cached) seq = true) :
    seq.toInt ≤ (K.timestamp cached).toNat := by
  have hle : seq.toInt ≤ (K.timestamp cached).toInt64.toInt := by
    have : seq ≤ (K.timestamp cached).toInt64 := by simpa [covers] using h
    exact Int64.le_iff_toInt_le.1 this
  refine hle.trans ?_
  have htoInt : (K.timestamp cached).toInt64.toInt = (K.timestamp cached).toBitVec.toInt := rfl
  rw [htoInt, BitVec.toInt_eq_toNat_cond]
  have hnat : (K.timestamp cached).toBitVec.toNat = (K.timestamp cached).toNat := rfl
  split <;> omega

/-! ## Records -/

/-- The first record of `_pubky` that has a target has this homeserver for one. -/
def NamesHomeserver (C : Crates) (homeserver : PublicKey) (packet : K.SignedPacket) : Prop :=
  ∃ before record after target,
    K.resourceRecords packet "_pubky".toList = before ++ record :: after ∧
      (∀ r ∈ before, r.target = none) ∧ record.target = some target ∧
      C.fromZ32 target = some homeserver

theorem packetPointsToHomeserver_iff {C : Crates} {homeserver : PublicKey}
    {packet : K.SignedPacket} :
    packetPointsToHomeserver C homeserver packet ↔ NamesHomeserver C homeserver packet := by
  rw [packetPointsToHomeserver, Option.any_eq_true]
  constructor
  · rintro ⟨key, hkey, heq⟩
    obtain rfl : key = homeserver := by simpa using heq
    obtain ⟨target, hfind, htarget⟩ := Option.bind_eq_some_iff.1 hkey
    obtain ⟨before, record, after, hrecords, hrecord, hbefore⟩ := List.findSome?_eq_some_iff.1 hfind
    exact ⟨before, record, after, target, hrecords, hbefore, hrecord, htarget⟩
  · rintro ⟨before, record, after, target, hrecords, hbefore, hrecord, htarget⟩
    refine ⟨homeserver, Option.bind_eq_some_iff.2 ⟨target, ?_, htarget⟩, by simp⟩
    exact List.findSome?_eq_some_iff.2 ⟨before, record, after, hrecords, hrecord, hbefore⟩

/-- The latest packet, if it is the one that is published. -/
theorem published_latest (hK : K.Lawful) {C : Crates} {homeserver : PublicKey} {client : Client K}
    {packet : K.SignedPacket}
    (hlatest : latest client.networkOnly.toOption client.cacheOnly.toOption = some packet)
    (hnames : NamesHomeserver C homeserver packet) :
    (∀ p ∈ [packet], NamesHomeserver C homeserver p ∧ ∀ q ∈ client.known,
      K.timestamp q ≤ K.timestamp p ∧ K.moreRecentThan q p = false) ∧
    ∀ p ∈ client.known, (∀ q ∈ client.known, K.moreRecentThan q p = false) →
      ¬ NamesHomeserver C homeserver p → [packet] = [] := by
  obtain ⟨hknown, hrecent⟩ := latest_spec hK hlatest
  refine ⟨fun p hp => ?_, fun p hp hmost hother => ?_⟩
  · rw [List.mem_singleton.1 hp]
    exact ⟨hnames, hrecent⟩
  · -- neither is more recent than the other, so they have the same records
    have hrecords := hK.tie (hmost packet hknown) (hrecent p hp).2
    rw [NamesHomeserver, ← hrecords] at hother
    exact absurd hnames hother

/-- If the attempt decides although the network holds an invalid packet, the cached packet is not
older than that. -/
theorem le_of_decides {client : Client K} (hdecides : client.Decides) {seq : Int64}
    (hseq : client.networkOnly = .error (.invalidSignedPacket seq)) :
    ∃ cached, client.cacheOnly = .ok cached ∧ seq.toInt ≤ (K.timestamp cached).toNat := by
  rw [Client.Decides, hseq, resolveCached] at hdecides
  cases hcached : client.cacheOnly with
  | error e => simp [hcached, covers] at hdecides
  | ok cached =>
    rw [hcached] at hdecides
    exact ⟨cached, rfl, le_of_covers hdecides⟩

/-- An attempt for a user publishes at most one packet. It names this homeserver, and no packet that
the attempt knows of is more recent. Nothing is published if the most recent of them names another
homeserver, or if the network holds an invalid packet that is newer than the cached one. It
reports success only if enough nodes have stored the packet. -/
theorem republish_sound (hK : K.Lawful) (C : Crates) (homeserver : PublicKey) (minCount : ℕ)
    (client : Client K) (result : Except RepublishError RepublishOutcome)
    (published : List K.SignedPacket)
    (hrun : (republish (userKeysSettings C homeserver minCount) client).run.run [] =
      (result, published)) :
    published.length ≤ 1 ∧
      (∀ packet ∈ published, NamesHomeserver C homeserver packet ∧
        ∀ q ∈ client.known, K.timestamp q ≤ K.timestamp packet ∧
          K.moreRecentThan q packet = false) ∧
      (∀ packet ∈ client.known, (∀ q ∈ client.known, K.moreRecentThan q packet = false) →
        ¬ NamesHomeserver C homeserver packet → published = []) ∧
      (∀ seq, client.networkOnly = .error (.invalidSignedPacket seq) →
        (∀ cached, client.cacheOnly = .ok cached →
          ((K.timestamp cached).toNat : ℤ) < seq.toInt) → published = []) ∧
      (result = .ok .published → ∃ packet ∈ published, ∃ count,
        client.publish packet = .ok count ∧ minCount ≤ count) := by
  have hnames : ∀ packet : K.SignedPacket,
      shouldRepublish (userKeysSettings C homeserver minCount) packet →
        NamesHomeserver C homeserver packet := fun _ => packetPointsToHomeserver_iff.1
  obtain ⟨hdecides, hran⟩ | ⟨-, r, hr, hne⟩ :=
    @republish_cases K (userKeysSettings C homeserver minCount) client
  · rw [hrun] at hran
    have hinvalid : ∀ seq, client.networkOnly = .error (.invalidSignedPacket seq) →
        (∀ cached, client.cacheOnly = .ok cached →
          ((K.timestamp cached).toNat : ℤ) < seq.toInt) → published = [] := by
      intro seq hseq hnewer
      obtain ⟨cached, hcached, hle⟩ := le_of_decides hdecides hseq
      exact absurd (hnewer cached hcached) (not_lt.2 hle)
    generalize hlatest : latest client.networkOnly.toOption client.cacheOnly.toOption = chosen
      at hran
    cases hran with
    | missing => exact ⟨by simp, nofun, fun _ _ _ _ => rfl, hinvalid, nofun⟩
    | skipped _ => exact ⟨by simp, nofun, fun _ _ _ _ => rfl, hinvalid, nofun⟩
    | failed hcondition e =>
      obtain ⟨hrecent, hmost⟩ := published_latest hK hlatest (hnames _ hcondition)
      exact ⟨le_rfl, hrecent, hmost, hinvalid, nofun⟩
    | published hcondition hstored hcount =>
      obtain ⟨hrecent, hmost⟩ := published_latest hK hlatest (hnames _ hcondition)
      exact ⟨le_rfl, hrecent, hmost, hinvalid, fun _ => ⟨_, by simp, _, hstored, hcount⟩⟩
  · rw [hrun] at hr
    obtain ⟨rfl, rfl⟩ := Prod.mk.inj hr
    exact ⟨by simp, nofun, fun _ _ _ _ => rfl, fun _ _ _ => rfl, fun h => absurd h hne⟩

section Sample

/-- Packets that hold nothing but a record of `_pubky`. -/
structure SamplePacket where
  timestamp : UInt64
  target : Text
  deriving DecidableEq

/-- Later packets are more recent; of two packets with one timestamp the greater one is. -/
def SamplePacket.moreRecentThan (p q : SamplePacket) : Bool :=
  q.timestamp.toNat < p.timestamp.toNat ∨
    q.timestamp.toNat = p.timestamp.toNat ∧ q.target < p.target

def samplePkarr : Pkarr where
  SignedPacket := SamplePacket
  timestamp := SamplePacket.timestamp
  resourceRecords p name := if name = "_pubky".toList then [.other, .svcb p.target] else []
  moreRecentThan := SamplePacket.moreRecentThan

theorem SamplePacket.le_of_moreRecentThan {p q : SamplePacket} (h : p.moreRecentThan q = true) :
    q.timestamp ≤ p.timestamp := by
  rw [moreRecentThan, decide_eq_true_iff] at h
  exact UInt64.le_iff_toNat_le.2 (by omega)

theorem SamplePacket.le_of_not_moreRecentThan {p q : SamplePacket}
    (h : p.moreRecentThan q = false) : p.timestamp ≤ q.timestamp := by
  rw [moreRecentThan, decide_eq_false_iff_not] at h
  exact UInt64.le_iff_toNat_le.2 (by omega)

theorem SamplePacket.moreRecentThan_asymm {p q : SamplePacket} (h : p.moreRecentThan q = true) :
    q.moreRecentThan p = false := by
  rw [moreRecentThan, decide_eq_true_iff] at h
  rw [moreRecentThan, decide_eq_false_iff_not]
  rintro (hlt | ⟨heq, hlt⟩)
  · omega
  · exact h.elim (fun h => by omega) fun h => lt_asymm hlt h.2

theorem SamplePacket.eq_of_tie {p q : SamplePacket} (h : p.moreRecentThan q = false)
    (h' : q.moreRecentThan p = false) : p = q := by
  rw [moreRecentThan, decide_eq_false_iff_not, not_or, not_and] at h h'
  have htime : p.timestamp = q.timestamp := UInt64.toNat_inj.1 (by omega)
  have htarget : p.target = q.target :=
    le_antisymm (not_lt.1 (h.2 (congrArg _ htime.symm))) (not_lt.1 (h'.2 (congrArg _ htime)))
  cases p
  cases q
  exact congrArg₂ SamplePacket.mk htime htarget

theorem samplePkarr_lawful : samplePkarr.Lawful where
  timestamp_le := SamplePacket.le_of_moreRecentThan
  le_timestamp := SamplePacket.le_of_not_moreRecentThan
  asymm := SamplePacket.moreRecentThan_asymm
  tie h h' := congrArg samplePkarr.resourceRecords (SamplePacket.eq_of_tie h h')

def sampleHomeserver : PublicKey := ⟨List.replicate 32 5, rfl⟩

/-- The cached packet is newer than the one in the network, which names another homeserver. -/
def sampleClient : Client samplePkarr where
  cacheOnly := .ok ⟨11, sampleHomeserver.z32⟩
  networkOnly := .ok ⟨10, "elsewhere".toList⟩
  publish _ := .ok 12

def sampleRun : Except RepublishError RepublishOutcome × List SamplePacket :=
  (republish (userKeysSettings (.ofTokens [] [] [] []) sampleHomeserver 10) sampleClient).run.run []

theorem sampleRun_eq : sampleRun = (.ok .published, [⟨11, sampleHomeserver.z32⟩]) := by
  decide +kernel

theorem republish_sound_sample :
    NamesHomeserver (K := samplePkarr) (.ofTokens [] [] [] []) sampleHomeserver
      (⟨11, sampleHomeserver.z32⟩ : SamplePacket) :=
  ((republish_sound samplePkarr_lawful (.ofTokens [] [] [] []) sampleHomeserver 10 sampleClient _ _
    sampleRun_eq).2.1 _ (List.mem_singleton_self _)).1

end Sample

end Pubky.Homeserver.Republisher

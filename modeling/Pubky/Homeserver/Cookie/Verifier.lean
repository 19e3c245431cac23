import Mathlib.Data.Int.Notation
import Pubky.Common.AuthToken

/-!
# Single use of auth tokens

`client_server/auth/cookie/verifier.rs`: the verifier keeps the ids of the tokens it has accepted in
a sorted list, looks ids up by binary search and drops those that are too old to be replayed.

* `ReplayGuard.gc` and `ReplayGuard.checkAndTrack` keep the list strictly sorted.
* `Guarded` relates the list to the tokens accepted so far: an id that was dropped is older than
  any token that can still be accepted.
* `tokens_single_use`: over any sequence of calls, no two accepted tokens have the same id.
-/

namespace Pubky.Homeserver.Cookie

/-! ## The model -/

/-- Uniquely identifies a token by its timestamp and public key. -/
structure TokenId where
  timestamp : Timestamp
  publicKey : PublicKey
  deriving DecidableEq

/-- Ids are ordered by time, then by the bytes of the key. -/
def TokenId.cmp : TokenId → TokenId → Ordering :=
  compareLex (compareOn TokenId.timestamp) (compareOn fun id => id.publicKey.bytes)

/-- Twice the timestamp window, in microseconds. -/
def replayWindow : UInt64 := 2 * timestampWindow.toUInt64

/-- The set of ids that have already been used, as a list. -/
structure ReplayGuard where
  seen : List TokenId := []

/-- Record an id and reject it if it was already seen. -/
def ReplayGuard.checkAndTrack (g : ReplayGuard) (id : TokenId) :
    Except AuthTokenError Unit × ReplayGuard :=
  match Sorted.binarySearchBy (fun x => x.cmp id) g.seen with
  | .ok _ => (.error .alreadyUsed, g)
  | .error index => (.ok (), ⟨Sorted.insertAt g.seen index id⟩)

/-- Remove the ids that can no longer be replayed. -/
def ReplayGuard.gc (g : ReplayGuard) (now : Timestamp) : ReplayGuard :=
  let cutoff := now - replayWindow
  ⟨g.seen.drop (Sorted.partitionPoint (fun id => id.timestamp < cutoff) g.seen)⟩

/-- A reading of the system clock: at least six minutes after the epoch, and so far from the end of
the range of `u64` that no deadline wraps around. -/
structure Reading where
  timestamp : Timestamp
  after_epoch : replayWindow.toNat ≤ timestamp.toNat
  in_range : timestamp.toNat + timestampWindow.toUInt64.toNat < 2 ^ 64

/-- A call of the verifier: its input and the two times at which it looks at the clock, for the
check of the token and, holding the lock, for the collection of old ids. -/
structure Attempt where
  bytes : Bytes
  checkedAt : Reading
  collectedAt : Reading
  checked_le : checkedAt.timestamp ≤ collectedAt.timestamp
  collected_le : collectedAt.timestamp.toNat ≤
    checkedAt.timestamp.toNat + timestampWindow.toUInt64.toNat

def tokenId (token : AuthToken) : TokenId := ⟨token.timestamp, token.publicKey⟩

/-- `CookieAuthVerifier::verify` -/
def CookieAuthVerifier.verify (A : AuthCrates) (a : Attempt) (g : ReplayGuard) :
    Except AuthTokenError AuthToken × ReplayGuard :=
  match AuthToken.verify A a.checkedAt.timestamp a.bytes with
  | .error e => (.error e, g)
  | .ok token =>
    match (g.gc a.collectedAt.timestamp).checkAndTrack (tokenId token) with
    | (.error e, g') => (.error e, g')
    | (.ok (), g') => (.ok token, g')

/-- Calls one after the other, in the order in which they hold the lock. -/
def CookieAuthVerifier.verifyAll (A : AuthCrates) :
    List Attempt → ReplayGuard → List (Except AuthTokenError AuthToken) × ReplayGuard
  | [], g => ([], g)
  | a :: as, g =>
    let (result, g') := CookieAuthVerifier.verify A a g
    let (results, g'') := CookieAuthVerifier.verifyAll A as g'
    (result :: results, g'')

/-- The ids of the accepted tokens. -/
def accepted (results : List (Except AuthTokenError AuthToken)) : List TokenId :=
  results.filterMap fun r => r.toOption.map tokenId

/-! ## The order of ids -/

instance : Std.TransCmp TokenId.cmp :=
  inferInstanceAs (Std.TransCmp (compareLex _ _))

theorem TokenId.timestamp_le_of_cmp {a b : TokenId} (h : a.cmp b = .lt) :
    a.timestamp ≤ b.timestamp := by
  rw [TokenId.cmp, compareLex, Ordering.then_eq_lt] at h
  rcases h with hlt | ⟨heq, -⟩
  · exact UInt64.le_of_lt (Std.compare_eq_lt.1 hlt)
  · have htime : a.timestamp = b.timestamp := Std.LawfulEqCmp.eq_of_compare heq
    exact UInt64.le_of_eq htime

/-! ## The guard keeps its list sorted -/

/-- The list is strictly sorted by id. -/
def StrictlySorted (l : List TokenId) : Prop :=
  l.Pairwise fun a b => a.cmp b = .lt

theorem StrictlySorted.sortedFor {l : List TokenId} (h : StrictlySorted l) (id : TokenId) :
    Sorted.SortedFor (fun x => x.cmp id) l := by
  refine List.Pairwise.imp ?_ h
  intro a b hab
  constructor
  · intro hb
    exact Std.TransCmp.lt_trans hab hb
  · intro ha
    have hba : b.cmp a = .gt := Std.OrientedCmp.gt_of_lt hab
    exact Std.TransCmp.gt_trans hba ha

/-- Collection drops exactly the ids before the cutoff. -/
theorem ReplayGuard.mem_gc {g : ReplayGuard} (h : StrictlySorted g.seen) {now : Timestamp}
    {id : TokenId} :
    id ∈ (g.gc now).seen ↔ id ∈ g.seen ∧ ¬ id.timestamp < now - replayWindow := by
  have hmono : g.seen.Pairwise fun a b =>
      decide (b.timestamp < now - replayWindow) = true →
        decide (a.timestamp < now - replayWindow) = true := by
    refine List.Pairwise.imp ?_ h
    intro a b hab hb
    have hle := TokenId.timestamp_le_of_cmp hab
    simp only [decide_eq_true_eq] at hb ⊢
    exact UInt64.lt_of_le_of_lt hle hb
  obtain ⟨hold, hkept⟩ := Sorted.partitionPoint_spec hmono
  constructor
  · intro hid
    refine ⟨List.mem_of_mem_drop hid, ?_⟩
    simpa using hkept id hid
  · rintro ⟨hid, hnew⟩
    rw [← List.take_append_drop (Sorted.partitionPoint
      (fun id => id.timestamp < now - replayWindow) g.seen) g.seen, List.mem_append] at hid
    rcases hid with hid | hid
    · exact absurd (by simpa using hold id hid) hnew
    · exact hid

theorem ReplayGuard.sorted_gc {g : ReplayGuard} (h : StrictlySorted g.seen) (now : Timestamp) :
    StrictlySorted (g.gc now).seen :=
  List.Pairwise.sublist (List.drop_sublist _ _) h

/-- An id is accepted only if it has not been seen, and it has been seen from then on. -/
theorem ReplayGuard.checkAndTrack_eq_ok {g g' : ReplayGuard} {id : TokenId}
    (h : StrictlySorted g.seen) (hok : g.checkAndTrack id = (.ok (), g')) :
    id ∉ g.seen ∧ StrictlySorted g'.seen ∧ ∀ x, x ∈ g'.seen ↔ x = id ∨ x ∈ g.seen := by
  rw [ReplayGuard.checkAndTrack] at hok
  split at hok
  · cases hok
  · rename_i index hsearch
    obtain ⟨-, rfl⟩ := Prod.mk.inj hok
    obtain ⟨hlow, hhigh⟩ := Sorted.binarySearchBy_error (h.sortedFor id) hsearch
    refine ⟨?_, ?_, fun x => Sorted.mem_insertAt⟩
    · intro hid
      rw [← List.take_append_drop index g.seen, List.mem_append] at hid
      have hrefl : id.cmp id = .eq := Std.ReflCmp.compare_self
      rcases hid with hid | hid
      · simpa [hrefl] using hlow id hid
      · simpa [hrefl] using hhigh id hid
    · refine Sorted.pairwise_insertAt h hlow ?_
      intro x hx
      exact Std.OrientedCmp.lt_of_gt (hhigh x hx)

theorem ReplayGuard.checkAndTrack_eq_error {g g' : ReplayGuard} {id : TokenId}
    {e : AuthTokenError} (h : g.checkAndTrack id = (.error e, g')) : g' = g := by
  rw [ReplayGuard.checkAndTrack] at h
  split at h
  · exact (Prod.mk.inj h).2.symm
  · cases h

/-! ## The window -/

/-- The signed difference of two times, which wraps around. -/
theorem toInt_sub_toInt64 (a b : UInt64) :
    (a.toInt64 - b.toInt64).toInt = ((a.toNat : ℤ) - b.toNat).bmod (2 ^ 64) := by
  rw [Int64.toInt_sub, toInt_toInt64, toInt_toInt64]
  simp

/-- A token that was accepted at a reading of the clock is not older than the window. -/
theorem Reading.le_of_inWindow {token : AuthToken} {r : Reading} (h : token.InWindow r.timestamp) :
    r.timestamp.toNat ≤ token.timestamp.toNat + timestampWindow.toUInt64.toNat := by
  obtain ⟨hfuture, hpast⟩ := h
  have hafter := r.after_epoch
  have hrange := r.in_range
  have hlt := token.timestamp.toNat_lt
  have hwindow : timestampWindow.toUInt64.toNat = 180000000 := by decide
  have hreplay : replayWindow.toNat = 360000000 := by decide
  have hpos : timestampWindow.toInt = 180000000 := by decide
  have hneg : (-timestampWindow).toInt = -180000000 := by decide
  rw [Int64.lt_iff_toInt_lt, toInt_sub_toInt64, Int.bmod_def] at hfuture hpast
  -- the difference does not wrap, because the clock is neither too early nor too late
  split at hfuture <;> omega

theorem Reading.toNat_cutoff (r : Reading) :
    (r.timestamp - replayWindow).toNat = r.timestamp.toNat - replayWindow.toNat :=
  UInt64.toNat_sub_of_le _ _ (UInt64.le_iff_toNat_le.2 r.after_epoch)

/-! ## Single use -/

/-- The guard remembers every accepted id, unless it is too old to be accepted at time `now`. -/
structure Guarded (g : ReplayGuard) (used : List TokenId) (now : ℕ) : Prop where
  sorted : StrictlySorted g.seen
  nodup : used.Nodup
  remembered : ∀ id ∈ used, id ∈ g.seen ∨ id.timestamp.toNat + replayWindow.toNat < now

variable {A : AuthCrates} {a : Attempt} {g g' : ReplayGuard} {used : List TokenId} {now : ℕ}

theorem Guarded.mono (h : Guarded g used now) {later : ℕ} (hle : now ≤ later) :
    Guarded g used later := by
  refine ⟨h.sorted, h.nodup, ?_⟩
  intro id hid
  rcases h.remembered id hid with hseen | hold
  · exact .inl hseen
  · exact .inr (by omega)

/-- Collecting old ids keeps what is to be remembered. -/
theorem Guarded.gc (h : Guarded g used now) {r : Reading} (hle : now ≤ r.timestamp.toNat) :
    Guarded (g.gc r.timestamp) used r.timestamp.toNat := by
  refine ⟨ReplayGuard.sorted_gc h.sorted _, h.nodup, ?_⟩
  intro id hid
  rcases h.remembered id hid with hseen | hold
  · by_cases hcutoff : id.timestamp < r.timestamp - replayWindow
    · have hlt := UInt64.lt_iff_toNat_lt.1 hcutoff
      rw [r.toNat_cutoff] at hlt
      exact .inr (by omega)
    · exact .inl ((ReplayGuard.mem_gc h.sorted).2 ⟨hseen, hcutoff⟩)
  · exact .inr (by omega)

/-- One call keeps the guard's promise. -/
theorem Guarded.verify (h : Guarded g used now) {result : Except AuthTokenError AuthToken}
    (hle : now ≤ a.collectedAt.timestamp.toNat)
    (hv : CookieAuthVerifier.verify A a g = (result, g')) :
    Guarded g' (used ++ accepted [result]) a.collectedAt.timestamp.toNat := by
  rw [CookieAuthVerifier.verify] at hv
  split at hv
  · obtain ⟨rfl, rfl⟩ := Prod.mk.inj hv
    exact (List.append_nil used).symm ▸ h.mono hle
  · rename_i token htoken
    have hgc := h.gc hle
    split at hv
    · rename_i e g'' htrack
      obtain ⟨rfl, rfl⟩ := Prod.mk.inj hv
      rw [ReplayGuard.checkAndTrack_eq_error htrack]
      exact (List.append_nil used).symm ▸ hgc
    · rename_i g'' htrack
      obtain ⟨rfl, rfl⟩ := Prod.mk.inj hv
      obtain ⟨hnew, hsorted, hmem⟩ := ReplayGuard.checkAndTrack_eq_ok hgc.sorted htrack
      -- the token is so young that the guard would remember it
      have hyoung :
          ¬ token.timestamp.toNat + replayWindow.toNat < a.collectedAt.timestamp.toNat := by
        obtain ⟨-, -, -, hwindow, -⟩ := authToken_verify_eq_ok.1 htoken
        have hchecked := Reading.le_of_inWindow hwindow
        have hcollected := a.collected_le
        have hreplay : replayWindow.toNat =
            timestampWindow.toUInt64.toNat + timestampWindow.toUInt64.toNat := by decide
        omega
      have hunused : tokenId token ∉ used := by
        intro hused
        rcases hgc.remembered _ hused with hseen | hold
        · exact hnew hseen
        · exact hyoung hold
      have haccepted : accepted [.ok token] = [tokenId token] := rfl
      rw [haccepted]
      refine ⟨hsorted, ?_, ?_⟩
      · refine List.nodup_append.2 ⟨h.nodup, List.nodup_singleton _, ?_⟩
        intro x hx y hy heq
        exact hunused (List.mem_singleton.1 hy ▸ heq ▸ hx)
      · intro id hid
        rcases List.mem_append.1 hid with hid | hid
        · exact (hgc.remembered id hid).imp_left fun hseen => (hmem id).2 (.inr hseen)
        · exact .inl ((hmem id).2 (.inl (List.mem_singleton.1 hid)))

theorem accepted_cons (result : Except AuthTokenError AuthToken)
    (results : List (Except AuthTokenError AuthToken)) :
    accepted (result :: results) = accepted [result] ++ accepted results := by
  simp [accepted, List.filterMap_cons]
  cases result.toOption <;> rfl

/-- A whole run keeps the guard's promise. -/
theorem Guarded.verifyAll {attempts : List Attempt} (h : Guarded g used now)
    (hstart : ∀ a ∈ attempts, now ≤ a.collectedAt.timestamp.toNat)
    (hclock : attempts.Pairwise fun a b => a.collectedAt.timestamp ≤ b.collectedAt.timestamp) :
    ∃ later, Guarded (CookieAuthVerifier.verifyAll A attempts g).2
      (used ++ accepted (CookieAuthVerifier.verifyAll A attempts g).1) later := by
  induction attempts generalizing g used now with
  | nil => exact ⟨now, (List.append_nil used).symm ▸ h⟩
  | cons a attempts ih =>
    obtain ⟨hfirst, hrest⟩ := List.pairwise_cons.1 hclock
    have hstep := h.verify (A := A) (hstart a List.mem_cons_self) rfl
    have hlater : ∀ b ∈ attempts,
        a.collectedAt.timestamp.toNat ≤ b.collectedAt.timestamp.toNat := by
      intro b hb
      exact UInt64.le_iff_toNat_le.1 (hfirst b hb)
    obtain ⟨later, hrun⟩ := ih hstep hlater hrest
    refine ⟨later, ?_⟩
    rw [List.append_assoc, ← accepted_cons] at hrun
    exact hrun

/-- Auth tokens are single use. Over any sequence of calls with a clock that does not go back, no
two calls accept tokens with the same timestamp and key, and the list of seen ids stays strictly
sorted. -/
theorem tokens_single_use (A : AuthCrates) (attempts : List Attempt)
    (hclock : attempts.Pairwise fun a b => a.collectedAt.timestamp ≤ b.collectedAt.timestamp) :
    (accepted (CookieAuthVerifier.verifyAll A attempts {}).1).Nodup ∧
      StrictlySorted (CookieAuthVerifier.verifyAll A attempts {}).2.seen := by
  have hinit : Guarded {} [] 0 := ⟨List.Pairwise.nil, List.nodup_nil, by simp⟩
  obtain ⟨later, hrun⟩ := hinit.verifyAll (A := A) (fun _ _ => Nat.zero_le _) hclock
  exact ⟨by simpa using hrun.nodup, hrun.sorted⟩

/-- A call at one reading of the clock. -/
def Attempt.at (bytes : Bytes) (r : Reading) : Attempt :=
  ⟨bytes, r, r, UInt64.le_refl _, Nat.le_add_right _ _⟩

/-- Alice's token, presented twice. -/
def sampleTwice : List Attempt :=
  let a := Attempt.at (SampleToken.signature ++ 80 :: SampleToken.message)
    ⟨SampleToken.now, by decide, by decide⟩
  [a, a]

open SampleToken in
theorem tokens_single_use_sample :
    (CookieAuthVerifier.verifyAll crates sampleTwice {}).1 = [.ok (token 80), .error .alreadyUsed] ∧
      (accepted (CookieAuthVerifier.verifyAll crates sampleTwice {}).1).Nodup ∧
      StrictlySorted (CookieAuthVerifier.verifyAll crates sampleTwice {}).2.seen :=
  ⟨by decide +kernel, tokens_single_use crates sampleTwice (by simp [sampleTwice])⟩

end Pubky.Homeserver.Cookie

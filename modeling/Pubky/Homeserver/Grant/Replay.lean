import Pubky.Homeserver.Grant.Sample

/-!
# Replay of proofs of possession

A proof of possession is meant to be accepted once: `check_nonce_replay` remembers its nonce for
twice the width of the timestamp window. The window is checked on whole seconds and the nonces are
collected on a finer clock, some time after that check, so a proof that is older than the window
when its nonce is tracked can be accepted a second time. `proof_accepted_once` excludes exactly
those steps.
-/

namespace Pubky.Homeserver.Grant

open Sql Conc Conc.Logic

variable {τ : Type} [Field τ] [LinearOrder τ] {C : Crates} {svc : GrantAuthService} {i j : ℕ}
  {s s' : State τ} {o : Op τ} {w w' : Wld τ} {p : JwsCompact} {raw : PopProofClaims}

/-! ## Accepted proofs -/

/-- The proof of possession that a call presents. -/
def Call.popJws : Call → Option JwsCompact
  | .createGrantSession _ p | .signupGrantAccount _ p _ | .signoutWithProof _ p => some p
  | _ => none

/-- The claims in the proof that a call presents. -/
def Call.popClaims (C : Crates) (c : Call) : Option PopProofClaims :=
  c.popJws.bind fun p => (decodeJwsPayload C C.popFromJson p.asStr).toOption

/-- Call `i` presents the proof `p`. -/
def presents (w : Wld τ) (i : ℕ) (p : JwsCompact) : Bool :=
  w.hist.any fun
    | .call j c => j = i && c.popJws = some p
    | .ret _ _ => false

theorem presents_iff : presents w i p = true ↔ ∃ c, .call i c ∈ w.hist ∧ c.popJws = some p := by
  rw [presents, List.any_eq_true]
  constructor
  · rintro ⟨e, he, h⟩
    cases e with
    | call j c =>
      simp only [Bool.and_eq_true, decide_eq_true_eq] at h
      exact ⟨c, h.1 ▸ he, h.2⟩
    | ret j a => cases h
  · rintro ⟨c, hc, hp⟩
    exact ⟨_, hc, by simp [hp]⟩

def Stmt.isTrackNonce : Stmt τ → Bool
  | .trackNonce _ => true
  | _ => false

/-- The calls that have tracked a nonce, oldest first. -/
def tracking (wal : List (ℕ × List (Stmt τ))) : List ℕ :=
  (wal.filter fun e => e.2.any Stmt.isTrackNonce).map Prod.fst

/-- The calls that accepted the proof `p`: they presented it, it passed `PopProof::verify`, and
`check_nonce_replay` found its nonce to be new. -/
def acceptedBy (w : Wld τ) (p : JwsCompact) : List ℕ :=
  (tracking w.state.wal).filter fun i => presents w i p

/-! ## What the operations do to the nonces -/

omit [Field τ] [LinearOrder τ] in
theorem tracking_append (wal : List (ℕ × List (Stmt τ))) (i : ℕ) (stmts : List (Stmt τ)) :
    tracking (wal ++ [(i, stmts)]) =
      tracking wal ++ if stmts.any Stmt.isTrackNonce then [i] else [] := by
  by_cases h : stmts.any Stmt.isTrackNonce <;> simp [tracking, h]

theorem acceptedBy_setState (h : tracking s'.wal = tracking w.state.wal ++ [i]) :
    acceptedBy (w.setState s') p = acceptedBy w p ++ if presents w i p then [i] else [] := by
  rw [acceptedBy, World.setState_state, h, List.filter_append, acceptedBy]
  congr 1
  cases hp : presents w i p <;> simp [presents] at hp ⊢ <;> simpa using hp

/-- No nonce is tracked within a transaction. -/
def NoneTracked (s : State τ) : Prop :=
  ∀ e ∈ s.pending, e.2.isTrackNonce = false

theorem NoneTracked.issue (h : NoneTracked s) {stmt : Stmt τ} (hs : stmt.isTrackNonce = false) :
    NoneTracked (s.issue i stmt) := by
  intro e he
  rcases List.mem_append.1 he with he | he
  · exact h e he
  · obtain rfl := List.mem_singleton.1 he
    exact hs

theorem NoneTracked.effect (h : NoneTracked s) (e : Effect C i s o s') : NoneTracked s' := by
  cases e with
  | commit | rollback => exact fun e he => h e (List.mem_of_mem_filter he)
  | createUser | setQuota | markAsUsed | revokeNone | revoke | deleteSessions | insertSession | notifyGrant =>
    exact NoneTracked.issue h rfl
  | same | now | mint | userConflict | createGrant | lockGrant | garbageCollect | trackNonce =>
    exact h

theorem NoneTracked.pendingOf (h : NoneTracked s) (i : ℕ) :
    (s.pendingOf i).any Stmt.isTrackNonce = false := by
  refine List.any_eq_false.2 fun stmt hstmt => ?_
  obtain ⟨e, he, rfl⟩ := List.mem_map.1 hstmt
  simp [h e (List.mem_of_mem_filter he)]

/-- The log of committed transactions only gets entries of the call that moves. -/
theorem Effect.mem_wal (e : Effect C i s o s') {t : ℕ × List (Stmt τ)} (h : t ∈ s'.wal) :
    t ∈ s.wal ∨ t.1 = i := by
  cases e with
  | commit | createGrant | trackNonce =>
    rcases List.mem_append.1 h with h | h
    · exact .inl h
    · exact .inr (by rw [List.mem_singleton.1 h])
  | same | now | mint | rollback | userConflict | createUser | setQuota | markAsUsed | revokeNone | revoke
  | lockGrant | deleteSessions | insertSession | garbageCollect | notifyGrant => exact .inl h

/-- Only `check_nonce_replay` changes the nonces. -/
theorem Effect.nonces (e : Effect C i s o s') (h : NoneTracked s) :
    (tracking s'.wal = tracking s.wal ∧ s'.clock = s.clock ∧ (s'.popNonces = s.popNonces ∨
      ∃ cutoff, o = .garbageCollect cutoff ∧
        s'.popNonces = s.popNonces.filter fun r => ¬ r.createdAt < cutoff)) ∨
    ∃ n, o = .trackNonce n ∧ (∀ r ∈ s.popNonces, r.nonce ≠ n.asStr) ∧
      tracking s'.wal = tracking s.wal ++ [i] ∧ s'.clock = s.clock ∧
      s'.popNonces = s.popNonces ++ [⟨n.asStr, s.clock.secs⟩] := by
  cases e with
  | trackNonce n hnew => exact .inr ⟨n, rfl, hnew, tracking_append _ _ _, rfl, rfl⟩
  | garbageCollect cutoff => exact .inl ⟨rfl, rfl, .inr ⟨cutoff, rfl, rfl⟩⟩
  | commit =>
    refine .inl ⟨?_, rfl, .inl rfl⟩
    rw [State.commit, tracking_append, h.pendingOf i]
    simp
  | createGrant => exact .inl ⟨(tracking_append _ _ _).trans (List.append_nil _), rfl, .inl rfl⟩
  | same | now | mint | rollback | userConflict | createUser | setQuota | markAsUsed | revokeNone | revoke
  | lockGrant | deleteSessions | insertSession | notifyGrant => exact .inl ⟨rfl, rfl, .inl rfl⟩

/-! ## The invariant -/

/-- At time `t` the proof that call `i` presents is not older than the window. -/
def InTime (C : Crates) (t : τ) (i : ℕ) : Event Call (Out τ) → Prop
  | .call j c => j = i → ∀ raw ∈ c.popClaims C, t ≤ raw.iat.toNat + popMaxAgeSecs.toNat
  | .ret _ _ => True

instance (t : τ) (i : ℕ) (e : Event Call (Out τ)) : Decidable (InTime C t i e) :=
  match e with
  | .call j c => inferInstanceAs (Decidable (j = i → ∀ raw ∈ c.popClaims C, _))
  | .ret _ _ => inferInstanceAs (Decidable True)

/-- The call that tracks a nonce in a step. -/
def tracker : Label (Op τ) Choice (Env τ) Call (Out τ) → Option ℕ
  | .op i (.trackNonce _) _ => some i
  | _ => none

/-- The condition on the steps of a run: a proof is not older than the window when its nonce is
tracked. -/
def TracksInTime (C : Crates) (w : Wld τ) (l : Label (Op τ) Choice (Env τ) Call (Out τ)) : Prop :=
  ∀ i ∈ tracker l, ∀ e ∈ w.hist, InTime C w.state.clock.secs i e

instance (w : Wld τ) (l : Label (Op τ) Choice (Env τ) Call (Out τ)) :
    Decidable (TracksInTime C w l) :=
  inferInstanceAs (Decidable (∀ i ∈ tracker l, _))

/-- The nonce of the proof is stored, not earlier than the window allows, or the window has
passed. -/
def Remembered (s : State τ) (raw : PopProofClaims) : Prop :=
  (∃ row ∈ s.popNonces, row.nonce = raw.nonce.asStr ∧
    (raw.iat.toNat : τ) ≤ row.createdAt + popMaxAgeSecs.toNat) ∨
  (raw.iat.toNat : τ) + popMaxAgeSecs.toNat < s.clock.secs

structure ReplayInv (C : Crates) (w : Wld τ) : Prop where
  pending : NoneTracked w.state
  started : ∀ e ∈ w.state.wal, w.Started e.1
  unique : ∀ i c c', .call i c ∈ w.hist → .call i c' ∈ w.hist → c = c'
  once : ∀ p, (acceptedBy w p).length ≤ 1
  remembered : ∀ i ∈ tracking w.state.wal, ∀ c raw, .call i c ∈ w.hist →
    c.popClaims C = some raw → Remembered w.state raw

/-- What call `i` has to establish before it issues an operation. -/
def ReplayPre (C : Crates) (i : ℕ) : Op τ → Wld τ → Prop
  | .garbageCollect cutoff, w => cutoff + popNonceGcThresholdSecs.toNat ≤ w.state.clock.secs
  | .trackNonce n, w => ∃ c raw, .call i c ∈ w.hist ∧ c.popClaims C = some raw ∧ raw.nonce = n ∧
      (raw.iat.toNat : τ) ≤ w.state.clock.secs + popMaxAgeSecs.toNat
  | _, _ => True

/-- Operations that do not touch the nonces. -/
def Op.KeepsNonces : Op τ → Prop
  | .garbageCollect _ | .trackNonce _ => False
  | _ => True

omit [Field τ] [LinearOrder τ] in
theorem Op.Quiet.keepsNonces (h : o.Quiet) : o.KeepsNonces := by
  cases o <;> first | exact h.elim | trivial

theorem Op.KeepsNonces.pre (h : o.KeepsNonces) : ReplayPre C i o w := by
  cases o <;> first | exact h.elim | trivial

theorem popClaims_eq {c c' : Call} (h : c.popJws = c'.popJws) : c.popClaims C = c'.popClaims C := by
  rw [Call.popClaims, Call.popClaims, h]

/-- A proof that has been accepted is not accepted again while it is not older than the window. -/
theorem ReplayInv.acceptedBy_eq_nil (h : ReplayInv C w) {c : Call} {n : PopNonce}
    (hc : .call i c ∈ w.hist) (hraw : c.popClaims C = some raw) (hn : raw.nonce = n)
    (hp : c.popJws = some p) (hnew : ∀ r ∈ w.state.popNonces, r.nonce ≠ n.asStr)
    (htime : ∀ e ∈ w.hist, InTime C w.state.clock.secs i e) : acceptedBy w p = [] := by
  refine List.eq_nil_iff_forall_not_mem.2 fun k hk => ?_
  obtain ⟨hk, hpres⟩ := List.mem_filter.1 hk
  obtain ⟨c', hc', hp'⟩ := presents_iff.1 hpres
  have hraw' : c'.popClaims C = some raw := (popClaims_eq (hp'.trans hp.symm)).trans hraw
  rcases h.remembered k hk c' raw hc' hraw' with ⟨row, hrow, hnonce, -⟩ | hlate
  · exact hnew row hrow (hnonce.trans (congrArg _ hn))
  · exact absurd (htime _ hc rfl raw hraw) (not_le_of_gt hlate)

theorem Remembered.mono (h : Remembered s raw) (hclock : s.clock.secs ≤ s'.clock.secs)
    (hs : ∀ r ∈ s.popNonces, r ∈ s'.popNonces) : Remembered s' raw :=
  h.imp (fun ⟨row, hrow, h⟩ => ⟨row, hs row hrow, h⟩) fun hlate => hlate.trans_le hclock

theorem ReplayInv.call (h : ReplayInv C w) (hi : ¬ w.Started i) (c : Call) :
    ReplayInv C (w.log (.call i c)) := by
  have hne : ∀ k ∈ tracking w.state.wal, k ≠ i := by
    rintro k hk rfl
    obtain ⟨e, he, rfl⟩ := List.mem_map.1 hk
    exact hi (h.started e (List.mem_of_mem_filter he))
  refine ⟨h.pending, fun e he => World.started_log_call.2 (.inr (h.started e he)),
    fun k c' c'' hc' hc'' => ?_, fun p => ?_, fun k hk c' raw hc' hraw => ?_⟩
  · by_cases hk : k = i
    · subst hk
      have hnew : ∀ d, .call k d ∈ (w.log (.call k c)).hist → d = c := fun d hd =>
        (List.mem_cons.1 hd).elim (fun heq => (Event.call.inj heq).2) fun hd => absurd ⟨d, hd⟩ hi
      rw [hnew c' hc', hnew c'' hc'']
    · exact h.unique k c' c'' (by simpa [hk] using hc') (by simpa [hk] using hc'')
  · have hsame : acceptedBy (w.log (.call i c)) p = acceptedBy w p := by
      refine List.filter_congr fun k hk => ?_
      simp [presents, Ne.symm (hne k hk)]
    exact hsame ▸ h.once p
  · exact h.remembered k hk c' raw (by simpa [hne k hk] using hc') hraw

theorem ReplayInv.ret (h : ReplayInv C w) (a : Out τ) : ReplayInv C (w.log (.ret i a)) where
  pending := h.pending
  started := fun e he => World.started_log_ret.2 (h.started e he)
  unique := fun k c c' hc hc' => h.unique k c c' (by simpa using hc) (by simpa using hc')
  once := fun p => by
    have hsame : acceptedBy (w.log (.ret i a)) p = acceptedBy w p :=
      List.filter_congr fun k _ => by simp [presents]
    exact hsame ▸ h.once p
  remembered := fun k hk c raw hc hraw => h.remembered k hk c raw (by simpa using hc) hraw

theorem ReplayInv.env {e : Env τ} (h : ReplayInv C w) (he : env e w.state = some s') :
    ReplayInv C (w.setState s') ∧ w.state.clock.secs ≤ s'.clock.secs := by
  rcases env_cases he with ⟨t, hle, rfl⟩ | ⟨row, -, -, rfl⟩
  · exact ⟨⟨h.pending, h.started, h.unique, h.once, fun k hk c raw hc hraw =>
      (h.remembered k hk c raw hc hraw).mono hle fun _ hr => hr⟩, hle⟩
  · exact ⟨⟨h.pending, h.started, h.unique, h.once, h.remembered⟩, le_rfl⟩

section Ordered

variable [IsStrictOrderedRing τ]

/-- Collecting nonces never loses one whose proof is still in the window. -/
theorem Remembered.garbageCollect {cutoff : τ} (h : Remembered s raw)
    (hcutoff : cutoff + popNonceGcThresholdSecs.toNat ≤ s.clock.secs) (hclock : s'.clock = s.clock)
    (hs : s'.popNonces = s.popNonces.filter fun r => ¬ r.createdAt < cutoff) :
    Remembered s' raw := by
  rcases h with ⟨row, hrow, hnonce, hcreated⟩ | hlate
  · by_cases hold : row.createdAt < cutoff
    · -- the row goes, but then the window has passed
      have hthreshold : (popNonceGcThresholdSecs.toNat : τ) =
          popMaxAgeSecs.toNat + popMaxAgeSecs.toNat := by
        exact_mod_cast (rfl : popNonceGcThresholdSecs.toNat =
          popMaxAgeSecs.toNat + popMaxAgeSecs.toNat)
      refine .inr ?_
      rw [hclock]
      linarith
    · exact .inl ⟨row, hs ▸ List.mem_filter.2 ⟨hrow, by simpa using hold⟩, hnonce, hcreated⟩
  · exact .inr (hclock ▸ hlate)

theorem ReplayInv.effect (h : ReplayInv C w) (hi : w.Started i) (hpre : ReplayPre C i o w)
    {inp : Choice} (hal : TracksInTime C w (.op i o inp)) (e : Effect C i w.state o s') :
    ReplayInv C (w.setState s') := by
  have hstarted : ∀ e ∈ s'.wal, (w.setState s').Started e.1 := fun t ht =>
    (e.mem_wal ht).elim (h.started t) fun heq => heq ▸ hi
  rcases e.nonces h.pending with ⟨htrack, hclock, hnonces⟩ | ⟨n, rfl, hnew, htrack, hclock, hnonces⟩
  · refine ⟨h.pending.effect e, hstarted, h.unique, fun p => ?_, fun k hk c raw hc hraw => ?_⟩
    · rw [acceptedBy, World.setState_state, htrack]
      exact h.once p
    · have hrem := h.remembered k (htrack ▸ hk) c raw hc hraw
      rcases hnonces with hsame | ⟨cutoff, rfl, hs⟩
      · exact hrem.mono (by rw [World.setState_state, hclock]) fun r hr => by simpa [hsame] using hr
      · exact hrem.garbageCollect hpre hclock hs
  · obtain ⟨c, raw, hc, hraw, hn, hfresh⟩ := hpre
    refine ⟨h.pending.effect e, hstarted, h.unique, fun p => ?_, fun k hk c' raw' hc' hraw' => ?_⟩
    · rw [acceptedBy_setState htrack]
      by_cases hpres : presents w i p = true
      · obtain ⟨c', hc', hp⟩ := presents_iff.1 hpres
        obtain rfl := h.unique i c c' hc hc'
        rw [h.acceptedBy_eq_nil hc hraw hn hp hnew (hal i rfl), if_pos hpres]
        exact le_rfl
      · rw [if_neg hpres, List.append_nil]
        exact h.once p
    · rcases List.mem_append.1 (htrack ▸ hk) with hk | hk
      · refine (h.remembered k hk c' raw' hc' hraw').mono (by rw [World.setState_state, hclock])
          fun r hr => ?_
        rw [World.setState_state, hnonces]
        exact List.mem_append_left _ hr
      · obtain rfl := List.mem_singleton.1 hk
        obtain rfl := h.unique k c c' hc hc'
        obtain rfl := Option.some.inj (hraw.symm.trans hraw')
        refine .inl ⟨⟨n.asStr, w.state.clock.secs⟩, ?_, by rw [hn], hfresh⟩
        rw [World.setState_state, hnonces]
        exact List.mem_append_right _ (List.mem_singleton_self _)

/-! ## The logic -/

/-- What a call may count on: time passes and events are added. -/
structure ReplayRely (w w' : Wld τ) : Prop where
  clock : w.state.clock.secs ≤ w'.state.clock.secs
  hist : w.hist <:+ w'.hist

theorem ReplayPre.mono {n : PopNonce} (h : ReplayPre C i (.trackNonce n) w) (hr : ReplayRely w w') :
    ReplayPre C i (.trackNonce n) w' := by
  obtain ⟨c, raw, hc, hraw, hn, hfresh⟩ := h
  exact ⟨c, raw, hr.hist.subset hc, hraw, hn, hfresh.trans (by simpa using hr.clock)⟩

variable [FloorRing τ]

variable (τ C svc) in
/-- The logic of nonces, for runs in which proofs are tracked in time. -/
def replayLogic : Logic (machine τ C svc) (TracksInTime C) where
  Inv := ReplayInv C
  Rely := fun _ => ReplayRely
  Pre := ReplayPre C
  Post := fun _ _ _ => True
  rely_refl := fun _ _ => ⟨le_rfl, List.suffix_rfl⟩
  rely_trans := fun h h' => ⟨h.clock.trans h'.clock, h.hist.trans h'.hist⟩
  op_ok := fun h hi hpre hal hx =>
    ⟨h.effect hi hpre hal (exec_effect hx),
      fun _ _ => ⟨(congrArg _ (exec_effect hx).clock_eq).ge, List.suffix_rfl⟩⟩
  call_ok := fun h hi _ => ⟨h.call hi _, fun _ _ => ⟨le_rfl, List.suffix_cons _ _⟩⟩
  ret_ok := fun h _ _ _ => ⟨h.ret _, fun _ _ => ⟨le_rfl, List.suffix_cons _ _⟩⟩
  drop_ok := fun {w i} h hi _ =>
    have e : Effect C i w.state (.rollback : Op τ) (w.state.rollback i) := .rollback _ (.inr rfl)
    have hal : TracksInTime C w (.op i .rollback .done) := nofun
    ⟨h.effect (o := .rollback) hi trivial hal e,
      fun _ _ => ⟨le_rfl, List.suffix_rfl⟩⟩
  env_ok := fun h _ he => ⟨(h.env he).1, fun _ => ⟨(h.env he).2, List.suffix_rfl⟩⟩

/-! ## The calls -/

variable {ε α : Type} {c : Call}

theorem safe_keepsNonces {q : Prog (Op τ) (Op.Res τ) α} (hq : q.Uses Op.KeepsNonces) :
    (replayLogic τ C svc).Safe i q (fun _ _ => True) w :=
  Safe.of_uses (R := fun _ => True) hq (fun _ _ _ _ => trivial)
    (fun _ _ ho _ _ => ⟨ho.pre, fun _ _ _ _ _ => trivial⟩) trivial

/-- Procedures that only read leave the call in the history. -/
theorem safe_reads_call {q : Proc τ ε α} (hq : q.run.Uses Op.Reads) (hc : .call i c ∈ w.hist) :
    (replayLogic τ C svc).SafeE i q (fun _ w' => .call i c ∈ w'.hist) w :=
  Safe.mono (Safe.of_uses (R := fun w' => .call i c ∈ w'.hist) hq
    (fun _ _ hr hmem => hr.hist.subset hmem)
    (fun _ _ ho _ hmem => ⟨ho.quiet.keepsNonces.pre, fun _ _ _ _ _ => hmem⟩) hc)
    fun _ _ _ hmem _ _ => hmem

omit [IsStrictOrderedRing τ] in
theorem Instant.toNat_timestampU64 (t : Instant τ) : t.timestampU64.toNat = ⌊t.secs⌋.toNat := by
  have hnonneg : 0 ≤ ⌊t.secs⌋ := Int.floor_nonneg.2 t.nonneg
  have hlt : ⌊t.secs⌋ < (endOfTime : ℤ) := Int.floor_lt.2 (by exact_mod_cast t.lt_endOfTime)
  have hmod : t.timestampU64.toNat = (⌊t.secs⌋ % 2 ^ 64).toNat := by
    rw [Instant.timestampU64, Instant.timestamp, ← UInt64.toNat_toBitVec,
      Int64.toBitVec_toUInt64, Int64.toBitVec_ofInt, BitVec.toNat_ofInt]
    rfl
  rw [hmod, Int.emod_eq_of_lt hnonneg (hlt.trans (by decide))]

omit [IsStrictOrderedRing τ] in
/-- Whole seconds never run ahead of the clock. -/
theorem Instant.timestampU64_le (t : Instant τ) : (t.timestampU64.toNat : τ) ≤ t.secs := by
  have hcast : ((⌊t.secs⌋.toNat : ℕ) : τ) = (⌊t.secs⌋ : τ) := by
    exact_mod_cast congrArg (Int.cast (R := τ)) (Int.toNat_of_nonneg (Int.floor_nonneg.2 t.nonneg))
  rw [t.toNat_timestampU64, hcast]
  exact Int.floor_le t.secs

/-- A proof in the window was not issued too far in the future. -/
theorem iat_le_of_checkTimestamp {t : Instant τ}
    (h : checkTimestamp raw t.timestampU64 = .ok ()) :
    (raw.iat.toNat : τ) ≤ t.secs + popMaxAgeSecs.toNat := by
  have hnat : raw.iat.toNat ≤ t.timestampU64.toNat + popMaxAgeSecs.toNat := by
    simp only [checkTimestamp] at h
    split at h
    · cases h
    · rename_i hdiff
      have hdiff := UInt64.le_iff_toNat_le.1 (UInt64.not_lt.1 hdiff)
      simp only [absDiff] at hdiff
      split at hdiff
      · rename_i hlt
        rw [UInt64.toNat_sub_of_le _ _ (UInt64.le_of_lt hlt)] at hdiff
        omega
      · rename_i hlt
        have := UInt64.le_iff_toNat_le.1 (UInt64.not_lt.1 hlt)
        omega
  calc (raw.iat.toNat : τ) ≤ (t.timestampU64.toNat : τ) + popMaxAgeSecs.toNat := by
        exact_mod_cast hnat
    _ ≤ t.secs + popMaxAgeSecs.toNat := by simpa using t.timestampU64_le

/-- The proof passed `PopProof::verify`, so it is not younger than the window. -/
theorem verifyPopProof_fresh (hC : C.DecodesPayload) {grant : GrantClaims}
    (hc : .call i c ∈ w.hist) (hp : c.popJws = some p) :
    (replayLogic τ C svc).SafeE i (verifyPopProof C svc p grant)
      (fun pop w' => ReplayPre C i (.trackNonce pop.nonce) w') w := by
  refine safe_check_bind fun raw hraw => safe_utcNow_bind fun w₁ hr₁ _ => ⟨trivial, fun _ => ?_⟩
  refine safe_check fun pop hpop w₂ hr₂ _ => ?_
  obtain ⟨bytes, hjwt, hjson⟩ := verifyClaims_signature hraw
  have hdecode := decodeJwsPayload_of_verified hC p.three_parts hjwt hjson
  simp only [PopProof.verifyFresh, Except.bind_ok_iff] at hpop
  obtain ⟨_, htime, hparse⟩ := hpop
  have hnonce : pop.nonce = raw.nonce := by
    simp only [parseVerifiedPop] at hparse
    split at hparse
    · rw [← Except.ok.inj hparse]
    · cases hparse
  refine ReplayPre.mono ?_ hr₂
  exact ⟨c, raw, hr₁.hist.subset hc, by simp [Call.popClaims, hp, hdecode, Except.toOption],
    hnonce.symm, iat_le_of_checkTimestamp htime⟩

theorem checkNonceReplay_tracks {pop : PopProof} (h : ReplayPre C i (.trackNonce pop.nonce) w) :
    (replayLogic τ C svc).SafeE i (checkNonceReplay pop) (fun _ _ => True) w := by
  refine safe_utcNow_bind fun w₁ hr₁ _ => ⟨trivial, fun _ => ?_⟩
  refine safe_lift_bind fun w₂ hr₂ _ => ⟨?_, fun _ _ s _ hx => ?_⟩
  · change _ - _ + _ ≤ _
    rw [sub_add_cancel]
    exact hr₂.clock
  · have hclock := (exec_effect hx).clock_eq
    refine safe_sql_bind rfl fun w₃ hr₃ _ => ⟨?_, fun _ _ _ _ _ _ _ => ?_⟩
    · refine ((h.mono hr₁).mono ⟨hr₂.clock, hr₂.hist⟩).mono ⟨?_, hr₃.hist⟩
      exact (congrArg Instant.secs hclock).ge.trans hr₃.clock
    · exact (safe_keepsNonces (uses_unless uses_pure)).mono fun _ _ _ _ _ _ => trivial

/-- The check of a proof, followed by operations that do not touch the nonces. -/
theorem checkProof_safe (hC : C.DecodesPayload) {grant : GrantClaims}
    {k : Proc τ AuthServiceError α} (hc : .call i c ∈ w.hist) (hp : c.popJws = some p)
    (hk : k.run.Uses Op.KeepsNonces) :
    (replayLogic τ C svc).SafeE i (do
      let pop ← verifyPopProof C svc p grant
      checkNonceReplay pop
      k) (fun _ _ => True) w := by
  refine SafeE.bind ((verifyPopProof_fresh hC hc hp).mono fun pop w₁ _ hpre => ?_)
  refine SafeE.bind ((checkNonceReplay_tracks hpre).mono fun _ w₂ _ _ => ?_)
  exact (safe_keepsNonces hk).mono fun _ _ _ _ _ _ => trivial

/-- Operations after the check of a proof. -/
theorem SafeE.bind_keepsNonces {β : Type} {q : Proc τ ε α} {k : α → Proc τ ε β}
    (hq : (replayLogic τ C svc).SafeE i q (fun _ _ => True) w)
    (hk : ∀ a, (k a).run.Uses Op.KeepsNonces) :
    (replayLogic τ C svc).SafeE i (q >>= k) (fun _ _ => True) w :=
  SafeE.bind (hq.mono fun a _ _ _ => (safe_keepsNonces (hk a)).mono fun _ _ _ _ _ _ => trivial)

theorem verifyGrantAndPop_once (hC : C.DecodesPayload) {g : JwsCompact}
    (hc : .call i c ∈ w.hist) (hp : c.popJws = some p) :
    (replayLogic τ C svc).SafeE i (verifyGrantAndPop C svc g p) (fun _ _ => True) w := by
  refine SafeE.bind ((safe_reads_call (verifyGrant_uses g) hc).mono fun claims w₁ _ hc₁ => ?_)
  refine SafeE.bind ((safe_reads_call (checkGrantNotRevoked_uses claims) hc₁).mono
    fun _ w₂ _ hc₂ => ?_)
  exact checkProof_safe hC hc₂ hp uses_pure

theorem createGrantSession_once (hC : C.DecodesPayload) {g : JwsCompact}
    (hc : .call i (.createGrantSession g p) ∈ w.hist) :
    (replayLogic τ C svc).SafeE i (createGrantSession C svc g p) (fun _ _ => True) w := by
  refine SafeE.bind_keepsNonces (verifyGrantAndPop_once hC hc rfl) fun claims => ?_
  refine uses_bind ((findUser_uses claims).mono fun _ h => h.quiet.keepsNonces) fun user => ?_
  refine uses_bind (uses_sql (uses_perform trivial)) fun _ => ?_
  refine uses_bind ((requireStoredGrantMatches_uses claims).mono fun _ h => h.quiet.keepsNonces)
    fun _ => ?_
  exact (mintSession_uses claims).mono fun _ h => h.quiet.keepsNonces

theorem verifySignupGrantAndPop_once (hC : C.DecodesPayload) {g : JwsCompact}
    (hc : .call i c ∈ w.hist) (hp : c.popJws = some p) :
    (replayLogic τ C svc).SafeE i (verifySignupGrantAndPop C svc g p) (fun _ _ => True) w := by
  refine SafeE.bind ((safe_reads_call (verifyGrant_uses g) hc).mono fun claims w₁ _ hc₁ => ?_)
  refine safe_check_bind fun _ _ => safe_check_bind fun _ _ => ?_
  refine SafeE.bind ((safe_reads_call (uses_utcNow trivial) hc₁).mono fun now w₂ _ hc₂ => ?_)
  refine safe_check_bind fun _ _ => ?_
  exact checkProof_safe hC hc₂ hp uses_pure

theorem signupGrantAccount_once (hC : C.DecodesPayload) {g : JwsCompact}
    {token : Option SignupCode} (hc : .call i (.signupGrantAccount g p token) ∈ w.hist) :
    (replayLogic τ C svc).SafeE i (signupGrantAccount C svc g p token) (fun _ _ => True) w := by
  refine SafeE.bind_keepsNonces (verifySignupGrantAndPop_once hC hc rfl) fun claims => ?_
  refine uses_bind (uses_inTransaction trivial trivial trivial (uses_adapt ?_)) fun _ => uses_pure
  exact (createUserInTx_uses _ _).mono fun _ => Op.Quiet.keepsNonces

theorem signoutWithProof_once (hC : C.DecodesPayload) {g : JwsCompact}
    (hc : .call i (.signoutWithProof g p) ∈ w.hist) :
    (replayLogic τ C svc).SafeE i (signoutWithProof C svc g p) (fun _ _ => True) w := by
  refine safe_check_bind fun claims _ => checkProof_safe hC hc rfl ?_
  refine uses_bind ((getGrant_uses _).mono fun _ h => h.quiet.keepsNonces) fun _ => uses_unless ?_
  exact (revokeGrant_uses _).mono fun _ h => h.quiet.keepsNonces

theorem replayLogic_callSafe (hC : C.DecodesPayload) : (replayLogic τ C svc).CallSafe := by
  intro w i c _ _ _
  have hc : .call i c ∈ (w.log (.call i c)).hist := List.mem_cons_self ..
  by_cases hpres : c.Presents
  · cases c with
    | createGrantSession g p =>
      exact Safe.map (Safe.mono (createGrantSession_once hC hc) fun _ _ _ _ => trivial)
    | signupGrantAccount g p t =>
      exact Safe.map (Safe.mono (signupGrantAccount_once hC hc) fun _ _ _ _ => trivial)
    | signoutWithProof g p =>
      exact Safe.map (Safe.mono (signoutWithProof_once hC hc) fun _ _ _ _ => trivial)
    | _ => exact hpres.elim
  · exact safe_keepsNonces ((callProgram_quiet hpres).mono fun _ => Op.Quiet.keepsNonces)

/-! ## Runs -/

variable {q q₀ : Pool (State τ) (Op τ) Call (Out τ) (Op.Res τ)}

omit [FloorRing τ] [IsStrictOrderedRing τ] in
theorem Initial.replayInv (h : Initial q) : ReplayInv C q.world where
  pending := fun e he => by simp [h.pending] at he
  started := fun e he => by simp [h.wal] at he
  unique := fun i c c' hc => by simp [h.hist] at hc
  once := fun p => by simp [acceptedBy, tracking, h.wal]
  remembered := fun i hi => by simp [tracking, h.wal] at hi

/-- A proof of possession is accepted at most once, in every run in which no proof is older than
the window when its nonce is tracked. -/
theorem proof_accepted_once (hC : C.DecodesPayload) (h₀ : Initial q₀)
    (hrun : Steps (machine τ C svc) (TracksInTime C) q₀ q) (p : JwsCompact) :
    (acceptedBy q.world p).length ≤ 1 := by
  have hsafe : (replayLogic τ C svc).PoolSafe q₀ := .initial h₀.replayInv h₀.threads h₀.hist
  exact (steps_safe (replayLogic_callSafe hC) hsafe hrun).inv.once p

open Sample in
/-- The second exchange with the same proof is refused. -/
theorem proof_accepted_once_sample :
    ∃ q : Pool (State ℚ) (Op ℚ) Call (Out ℚ) (Op.Res ℚ),
      Steps (machine ℚ crates service) (TracksInTime crates) (morning [aliceRow]) q ∧
      .ret 1 (.created (.error .nonceReplay)) ∈ q.world.hist ∧
      acceptedBy q.world (compact popA) = [0] ∧
      (acceptedBy q.world (compact popA)).length ≤ 1 := by
  have hrun : ((morning [aliceRow]).run (machine ℚ crates service) (TracksInTime crates)
      (exchange 0 grantA popA (List.replicate 32 7) ++
        .call 1 (.createGrantSession (compact grantA) (compact popA)) :: proceed 1 7)).any
      fun q => .ret 1 (.created (.error .nonceReplay)) ∈ q.world.hist &&
        acceptedBy q.world (compact popA) = [0] := by
    decide +kernel
  obtain ⟨q, hq, h⟩ := Pool.exists_steps_of_run _ _ hrun
  simp only [Bool.and_eq_true, decide_eq_true_eq] at h
  exact ⟨q, hq, h.1, h.2, proof_accepted_once Crates.ofTokens_decodesPayload (initial_start _ _)
    hq (compact popA)⟩

/-- A call has opened a session. -/
def opened (i : ℕ) : Event Call (Out ℚ) → Bool
  | .ret j (.created (.ok _)) => j = i
  | _ => false

open Sample in
/-- A proof that was issued 180 seconds ahead of the clock is accepted at once, and again 360.5
seconds later: its timestamp is 180 whole seconds old, and its nonce has been collected. -/
theorem proof_accepted_twice :
    ∃ q : Pool (State ℚ) (Op ℚ) Call (Out ℚ) (Op.Res ℚ), Reachable crates service q ∧
      acceptedBy q.world (compact popA) = [0, 1] ∧
      (∃ resp, .ret 0 (.created (.ok resp)) ∈ q.world.hist) ∧
      ∃ resp, .ret 1 (.created (.ok resp)) ∈ q.world.hist := by
  have hrun : ((morning [aliceRow]).run (machine ℚ crates service) (fun _ _ => True)
      (exchange 0 grantA popA (List.replicate 32 7) ++
        .env (.tick (instant (2 * 1700000360 + 1) (by decide))) ::
        exchange 1 grantA popA (List.replicate 32 8))).any fun q =>
      acceptedBy q.world (compact popA) = [0, 1] &&
        [0, 1].all fun i => q.world.hist.any (opened i) := by
    decide +kernel
  obtain ⟨q, hq, h⟩ := Pool.exists_steps_of_run _ _ hrun
  simp only [Bool.and_eq_true, decide_eq_true_eq, List.all_eq_true] at h
  have hreturned : ∀ i ∈ [0, 1], ∃ resp, .ret i (.created (.ok resp)) ∈ q.world.hist := by
    intro i hi
    obtain ⟨e, he, hret⟩ := List.any_eq_true.1 (h.2 i hi)
    unfold opened at hret
    split at hret
    · exact ⟨_, by simpa [of_decide_eq_true hret] using he⟩
    · cases hret
  exact ⟨q, ⟨_, initial_start _ _, hq⟩, h.1, hreturned 0 (by simp), hreturned 1 (by simp)⟩

end Ordered

end Pubky.Homeserver.Grant

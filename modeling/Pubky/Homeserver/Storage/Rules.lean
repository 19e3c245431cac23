import Pubky.Homeserver.Storage.Environment

/-!
# Rules for the programs of the storage

Assertions of a call come in two kinds:

* A `Frame` holds whatever happens to the call's transaction: which file the call is about and
  that it may touch it, that it is not in a transaction, which generation it has read.
* Knowledge about the rows is good as long as the transaction is alive. It is written
  `During s i (K s)`, where `K` is `Stable`: nobody else invalidates it meanwhile.

`stmt_during` is the rule for a statement in a transaction, `transaction_safe` the one for a
whole transaction, and `plain_safe` disposes of programs that only read.
-/

namespace Pubky.Homeserver.Storage

open Sql Conc Conc.Proc Conc.Logic

variable {cfg : Config} {C : StorageCrates} {hC : C.Lawful} {strict steady : Prop} {i j : ℕ}
  {w w' : Wld} {s s' : State} {o : Op} {c : Choice} {ε ε' α β : Type}

/-- `SafeX` in the logic of the storage. -/
abbrev Safely (cfg : Config) {C : StorageCrates} (hC : C.Lawful) (strict steady : Prop) (i : ℕ)
    (p : Proc ε α) (E : ε → Wld → Prop) (Q : α → Wld → Prop) (w : Wld) : Prop :=
  (storageLogic cfg hC strict steady).SafeX i p E Q w

/-! ## Assertions -/

/-- An assertion of call `i` that neither the others nor its own statements invalidate. -/
structure Frame (C : StorageCrates) (steady : Prop) (i : ℕ) (F : Wld → Prop) : Prop where
  rely : ∀ {w w'}, Rely steady i w w' → F w → F w'
  own : ∀ {w s'}, Grows w.state s' → s'.txs = w.state.txs → F w → F (w.setState s')
  unlocked : ∀ {w}, F w → Unlocked C w.hist w.state.unlocked i

/-- What the others leave of the state while the transaction of `i` is alive. -/
structure Carries (steady : Prop) (i : ℕ) (s s' : State) : Prop where
  grows : Grows s s'
  txs : ∀ n, (∃ a, ⟨i, n, a⟩ ∈ s'.txs) ↔ ∃ a, ⟨i, n, a⟩ ∈ s.txs
  acquired : ∀ n, (∃ a, ⟨i, n, a⟩ ∈ s.txs) → .acquired n ∉ s.journal → .acquired n ∉ s'.journal
  same : Same steady i s s'

/-- Knowledge of a transaction that the others do not invalidate. -/
def Stable (steady : Prop) (i : ℕ) (K : State → Prop) : Prop :=
  ∀ s s', Carries steady i s s' → K s → K s'

theorem Rely.carries (h : Rely steady i w w') (ha : w'.state.alive i = true) :
    Carries steady i w.state w'.state :=
  ⟨h.grows, h.txs, h.acquired, (h.same ha).2⟩

/-- A transaction does not come back to life. -/
theorem During.rely {K : State → Prop} (hK : Stable steady i K) (hr : Rely steady i w w')
    (h : During w.state i (K w.state)) : During w'.state i (K w'.state) := by
  rcases h with hl | ⟨ha, hk⟩
  · exact .inl (hr.lost hl)
  · obtain ⟨n, hn⟩ := State.alive_iff.1 ha
    obtain ⟨a, ha'⟩ := (hr.txs n).2 ⟨true, hn⟩
    cases a with
    | false => exact .inl (State.lost_iff.2 ⟨n, ha'⟩)
    | true =>
      have halive := State.alive_iff.2 ⟨n, ha'⟩
      exact .inr ⟨halive, hK _ _ (hr.carries halive) hk⟩

theorem During.mono {P Q : Prop} (h : During s i P) (hpq : P → Q) : During s i Q :=
  h.imp_right fun ⟨ha, hp⟩ => ⟨ha, hpq hp⟩

theorem not_lost_of_alive (h : (s.txs.map Tx.thread).Nodup) (ha : s.alive i = true) :
    s.lost i = false := by
  obtain ⟨n, hn⟩ := State.alive_iff.1 ha
  rw [← Bool.not_eq_true, State.lost_iff]
  rintro ⟨m, hm⟩
  have := List.inj_on_of_nodup_map h hn hm rfl
  cases this

theorem Outside.rely (hr : Rely steady i w w') (h : Outside w.state i) : Outside w'.state i := by
  intro t ht hth
  obtain ⟨thread, number, alive⟩ := t
  obtain rfl : thread = i := hth
  obtain ⟨a, ha⟩ := (hr.txs number).1 ⟨alive, ht⟩
  exact h _ ha rfl

/-! ## Statements -/

/-- Operations that neither begin nor end a transaction. -/
def Op.IsStatement : Op → Prop
  | .begin | .commit | .rollback => False
  | _ => True

theorem effect_txs_eq (ho : o.IsStatement) (h : Effect cfg C i s o s') : s'.txs = s.txs := by
  cases h with
  | begin hnew => exact ho.elim
  | commit ha => exact ho.elim
  | rollback o ho' => rcases ho' with rfl | rfl <;> exact ho.elim
  | carriedOut request hmeets => rw [carriedOut_eq]
  | _ => rfl

theorem answer_lost {x : Option (Except SqlError α × State)} {r : Except SqlError α}
    (hl : s.lost i = true) (h : answer c i s x = some (r, s')) : r = .error .database := by
  unfold answer at h
  rw [if_pos hl] at h
  exact (Prod.mk.inj (Option.some.inj h)).1.symm

section

variable {F : Wld → Prop} {K : State → Prop} {f : SqlError → ε} {E : ε → Wld → Prop}
  {Q : α → Wld → Prop} {p : Prog Op Op.Res (Except SqlError α)} {g : o.Res → Except SqlError α}

/-- A statement in a transaction that may add to what is known for good. An error of the
database teaches nothing. -/
theorem stmt_during_frame (F' : Except SqlError α → Wld → Prop)
    (K' : Except SqlError α → State → Prop) (hF : Frame C steady i F)
    (hF' : ∀ r, Frame C steady i (F' r))
    (hK : Stable steady i K) (hK' : ∀ r, Stable steady i (K' r))
    (hp : p = .op o fun r => .ret (g r)) (ho : o.IsStatement)
    (hlost : ∀ {s c r s'}, s.lost i = true → exec cfg C i o c s = some (r, s') →
      g r = .error .database)
    (hpre : ∀ w, Inv C steady w → F w → During w.state i (K w.state) →
      OpPre cfg C strict steady i w o)
    (hpost : ∀ w c r s', Inv C steady w → F w → F (w.setState s') → w.state.alive i = true →
      K w.state → exec cfg C i o c w.state = some (r, s') → g r ≠ .error .database →
      F' (g r) (w.setState s') ∧ K' (g r) s')
    (hok : ∀ a w, Inv C steady w → F' (.ok a) w → During w.state i (K' (.ok a) w.state) → Q a w)
    (herr : ∀ e w, Inv C steady w → e = .database ∧ F w ∨ (F' (.error e) w ∧
      During w.state i (K' (.error e) w.state)) → E (f e) w)
    (h : F w) (hd : During w.state i (K w.state)) :
    Safely cfg hC strict steady i (stmt f p) E Q w := by
  refine SafeX.stmt hp fun w₁ hr₁ hi₁ => ?_
  have h₁ := hF.rely hr₁ h
  have hd₁ := hd.rely hK hr₁
  have hpre₁ := hpre w₁ hi₁ h₁ hd₁
  refine ⟨⟨.inr (hF.unlocked h₁), hpre₁⟩, fun c r s ha hx w₂ hr₂ hi₂ => ?_⟩
  have heff : Effect cfg C i w₁.state o s := exec_effect hx
  have htxs := effect_txs_eq ho heff
  have h₂ : F (w₁.setState s) := hF.own (effect_grows hi₁ hpre₁ heff) htxs h₁
  by_cases hdb : g r = .error .database
  · refine ⟨fun a heq => ?_, fun e heq => ?_⟩
    · rw [hdb] at heq
      cases heq
    · obtain rfl := Except.error.inj (hdb.symm.trans heq)
      exact herr _ w₂ hi₂ (.inl ⟨rfl, hF.rely hr₂ h₂⟩)
  · rcases hd₁ with hl | ⟨halive, hk⟩
    · exact absurd (hlost hl hx) hdb
    · obtain ⟨hf', hk'⟩ := hpost w₁ c r s hi₁ h₁ h₂ halive hk hx hdb
      have halive' : s.alive i = true := by
        rw [State.alive, htxs]
        exact halive
      have hd₂ : During (w₁.setState s).state i (K' (g r) s) := .inr ⟨halive', hk'⟩
      have hf₂ := (hF' (g r)).rely hr₂ hf'
      have hd₃ := hd₂.rely (hK' (g r)) hr₂
      refine ⟨fun a heq => ?_, fun e heq => ?_⟩
      · rw [heq] at hf₂ hd₃
        exact hok a w₂ hi₂ hf₂ hd₃
      · rw [heq] at hf₂ hd₃
        exact herr e w₂ hi₂ (.inr ⟨hf₂, hd₃⟩)

/-- A statement in a transaction. -/
theorem stmt_during (K' : Except SqlError α → State → Prop) (hF : Frame C steady i F)
    (hK : Stable steady i K)
    (hK' : ∀ r, Stable steady i (K' r)) (hp : p = .op o fun r => .ret (g r))
    (ho : o.IsStatement)
    (hlost : ∀ {s c r s'}, s.lost i = true → exec cfg C i o c s = some (r, s') →
      g r = .error .database)
    (hpre : ∀ w, Inv C steady w → F w → During w.state i (K w.state) →
      OpPre cfg C strict steady i w o)
    (hpost : ∀ w c r s', Inv C steady w → F w → w.state.alive i = true →
      K w.state → exec cfg C i o c w.state = some (r, s') → g r ≠ .error .database → K' (g r) s')
    (h : F w) (hd : During w.state i (K w.state)) :
    Safely cfg hC strict steady i (stmt f p) (fun _ => F)
      (fun a w => F w ∧ During w.state i (K' (.ok a) w.state)) w :=
  stmt_during_frame (fun _ => F) K' hF (fun _ => hF) hK hK' hp ho hlost hpre
    (fun w c r s' hi hf hf' ha hk hx hne => ⟨hf', hpost w c r s' hi hf ha hk hx hne⟩)
    (fun _ _ _ hf hd => ⟨hf, hd⟩) (fun _ _ _ hf => hf.elim And.right And.left) h hd

end

/-! ## Programs that only read -/

/-- Operations that change nothing but caches and tasks. -/
def Op.Plain : Op → Prop
  | .getUser _ | .getEntry _ | .hasCollision _ | .statementTimestamp | .newToken | .stat _
  | .upload | .createDir _ | .cachedQuota _ | .cacheQuota _ _ | .uncacheQuota _
  | .stopKeepAlive _ => True
  | _ => False

theorem plain_effect (ho : o.Plain) (h : Effect cfg C i s o s') :
    ∃ quotaCache keepAlives, s' = { s with quotaCache := quotaCache, keepAlives := keepAlives } := by
  cases h with
  | same => exact ⟨s.quotaCache, s.keepAlives, rfl⟩
  | quotaCache o q => exact ⟨q, s.keepAlives, rfl⟩
  | stopKeepAlive thread => exact ⟨s.quotaCache, _, rfl⟩
  | rollback o ho' => rcases ho' with rfl | rfl <;> exact ho.elim
  | writeUser o userId f ho' =>
    cases o with
    | updateUser user => exact ho.elim
    | setQuota userId quota => exact ho.elim
    | _ => cases ho'
  | _ => exact ho.elim

theorem plain_pre (ho : o.Plain) : OpPre cfg C strict steady i w o := by
  cases o with
  | getUser | getEntry | hasCollision | statementTimestamp | newToken | stat | upload | createDir
  | cachedQuota | cacheQuota | uncacheQuota | stopKeepAlive => trivial
  | _ => exact ho.elim

/-- An assertion about the state that neither the others nor plain operations invalidate. -/
structure Settled (steady : Prop) (i : ℕ) (X : State → Prop) : Prop where
  rely : ∀ {w w' : Wld}, Rely steady i w w' → X w.state → X w'.state
  plain : ∀ {s : State} {quotaCache keepAlives}, X s →
    X { s with quotaCache := quotaCache, keepAlives := keepAlives }

theorem outside_settled : Settled steady i fun s => Outside s i where
  rely := fun hr h => Outside.rely hr h
  plain := fun h => h

theorem during_settled {K : State → Prop} (hK : Stable steady i K) :
    Settled steady i fun s => During s i (K s) where
  rely := fun hr h => h.rely hK hr
  plain := fun {s _ _} h => h.mono (hK _ _ ⟨{ Grows.refl s with }, fun _ => Iff.rfl,
    fun _ _ h => h, { Same.refl steady i s with }⟩)

/-- A program that issues plain operations only. -/
theorem plain_safe {F : Wld → Prop} {X : State → Prop} {p : Proc ε α} (hF : Frame C steady i F)
    (hX : Settled steady i X) (hp : p.run.Uses Op.Plain) (h : F w) (hx : X w.state) :
    Safely cfg hC strict steady i p (fun _ w => F w ∧ X w.state) (fun _ w => F w ∧ X w.state) w := by
  refine SafeX.of_uses (R := fun w => F w ∧ X w.state) hp
    (fun w w' hr hw => ⟨hF.rely hr hw.1, hX.rely hr hw.2⟩) (fun o w ho hi hw => ?_) ⟨h, hx⟩
  have hpre : OpPre cfg C strict steady i w o := plain_pre ho
  refine ⟨⟨.inr (hF.unlocked hw.1), hpre⟩, fun c r s _ hx' => ?_⟩
  have heff : Effect cfg C i w.state o s := exec_effect hx'
  have hgrows := effect_grows hi hpre heff
  obtain ⟨quotaCache, keepAlives, rfl⟩ := plain_effect ho heff
  exact ⟨hF.own hgrows rfl hw.1, hX.plain hw.2⟩

/-! ## Transactions -/

/-- The pending writes of call `i`. -/
structure Wrote (i : ℕ) (us : List (Write UserRow Text)) (es : List (Write EntryRow ℕ))
    (evs : List (Write EventRow ℕ)) (s : State) : Prop where
  users : s.users.writesOf i = us
  entries : s.entries.writesOf i = es
  events : s.events.writesOf i = evs
  entryLocks : s.entryLocks.writesOf i = []

/-- Nothing has happened in the transaction yet. -/
structure Fresh (i : ℕ) (s : State) : Prop extends Wrote i [] [] [] s where
  held : ∀ h ∈ s.held, h.thread ≠ i
  acquired : ∀ n, (∃ a, ⟨i, n, a⟩ ∈ s.txs) → .acquired n ∉ s.journal

theorem Wrote.stable {us : List (Write UserRow Text)} {es : List (Write EntryRow ℕ)}
    {evs : List (Write EventRow ℕ)} : Stable steady i (Wrote i us es evs) :=
  fun _ _ hc h => ⟨hc.same.users.trans h.users, hc.same.entries.trans h.entries,
    hc.same.events.trans h.events, hc.same.entryLocks.trans h.entryLocks⟩

theorem Fresh.stable : Stable steady i (Fresh i) :=
  fun _ _ hc h => { Wrote.stable _ _ hc h.toWrote with
    held := hc.same.noHeld h.held
    acquired := fun n hn => hc.acquired n ((hc.txs n).1 hn) (h.acquired n ((hc.txs n).1 hn)) }

theorem fresh_of_begin (hi : Inv C steady w) (hout : Outside w.state i) :
    Fresh i { w.state with
      txs := ⟨i, w.state.nextTx, true⟩ :: w.state.txs
      nextTx := w.state.nextTx + 1 } where
  users := (hi.idle i hout.dead).users
  entries := (hi.idle i hout.dead).entries
  events := (hi.idle i hout.dead).events
  entryLocks := (hi.idle i hout.dead).entryLocks
  held := (hi.idle i hout.dead).held
  acquired := by
    rintro n ⟨a, ha⟩ hacq
    rcases List.mem_cons.1 ha with heq | hmem
    · obtain ⟨-, rfl, -⟩ := Tx.mk.inj heq
      exact Nat.lt_irrefl _ (hi.txs.recorded _ (.inl hacq))
    · exact hout _ hmem rfl

theorem outside_finish (txs : List Tx) (s : State) :
    Outside (s.finish i (txs.filter fun t => t.thread ≠ i)) i := by
  intro t ht
  simpa using (List.mem_filter.1 ht).2

theorem outside_of_end (ho : o = .commit ∨ o = .rollback) {r : o.Res}
    (h : exec cfg C i o c s = some (r, s')) : Outside s' i := by
  rcases ho with rfl | rfl
  · simp only [exec] at h
    split at h
    · cases c with
      | done =>
        cases h
        exact outside_finish _ _
      | failed kind =>
        cases h
        exact outside_finish _ _
      | lost kind =>
        cases h
        exact outside_finish _ _
      | late kind => cases h
      | token t => cases h
    · cases h
      exact outside_finish _ _
  · cases c with
    | done =>
      cases h
      exact outside_finish _ _
    | failed kind =>
      cases h
      exact outside_finish _ _
    | lost kind => cases h
    | late kind => cases h
    | token t => cases h

section

variable {F : Wld → Prop}

/-- A frame that also survives the beginning and the end of transactions. -/
structure Outer (C : StorageCrates) (steady : Prop) (i : ℕ) (F : Wld → Prop) : Prop
    extends Frame C steady i F where
  grows : ∀ {w s'}, Grows w.state s' → F w → F (w.setState s')

theorem begin_safe (hF : Outer C steady i F) {f : SqlError → ε} (h : F w)
    (hout : Outside w.state i) :
    Safely cfg hC strict steady i (stmt f (perform .begin))
      (fun _ w => F w ∧ Outside w.state i)
      (fun _ w => F w ∧ During w.state i (Fresh i w.state)) w := by
  refine SafeX.stmt (o := Op.begin) (g := fun r => r) rfl fun w₁ hr₁ hi₁ => ?_
  have h₁ := hF.rely hr₁ h
  have hout₁ := hout.rely hr₁
  refine ⟨⟨.inr (hF.unlocked h₁), trivial⟩, fun c r s ha hx w₂ hr₂ _ => ?_⟩
  cases c with
  | done =>
    simp only [machine, exec] at hx
    split at hx
    · cases hx
    · cases hx
      refine ⟨fun _ _ => ⟨hF.rely hr₂ (hF.grows { Grows.refl w₁.state with } h₁), ?_⟩,
        fun _ h => by cases h⟩
      refine During.rely Fresh.stable hr₂ (.inr ⟨State.alive_iff.2 ⟨_, List.mem_cons_self⟩, ?_⟩)
      exact fresh_of_begin hi₁ hout₁
  | failed kind =>
    cases hx
    exact ⟨fun _ h => (by cases h), fun _ _ => ⟨hF.rely hr₂ h₁, hout₁.rely hr₂⟩⟩
  | lost kind => cases hx
  | late kind => cases hx
  | token t => cases hx

/-- The end of a transaction, however it answers. -/
theorem end_safe (hF : Outer C steady i F) (ho : o = .commit ∨ o = .rollback)
    {p : Prog Op Op.Res (Except SqlError Unit)} {g : o.Res → Except SqlError Unit}
    (hp : p = .op o fun r => .ret (g r)) {f : SqlError → ε}
    (hpre : ∀ w', Rely steady i w w' → Inv C steady w' → OpPre cfg C strict steady i w' o)
    (h : F w) :
    Safely cfg hC strict steady i (stmt f p) (fun _ w => F w ∧ Outside w.state i)
      (fun _ w => F w ∧ Outside w.state i) w := by
  refine SafeX.stmt hp fun w₁ hr₁ hi₁ => ?_
  have h₁ := hF.rely hr₁ h
  refine ⟨⟨.inr (hF.unlocked h₁), hpre w₁ hr₁ hi₁⟩, fun c r s ha hx w₂ hr₂ _ => ?_⟩
  have hx : exec cfg C i o c w₁.state = some (r, s) := hx
  have hend : F w₂ ∧ Outside w₂.state i :=
    ⟨hF.rely hr₂ (hF.grows (effect_grows hi₁ (hpre w₁ hr₁ hi₁) (exec_effect hx)) h₁),
      Outside.rely hr₂ (outside_of_end ho hx)⟩
  exact ⟨fun _ _ => hend, fun _ _ => hend⟩

theorem rollback_safe (hF : Outer C steady i F) {E : ε → Wld → Prop} (h : F w) :
    Safely cfg hC strict steady i (always (perform .rollback)) E
      (fun _ w => F w ∧ Outside w.state i) w := by
  refine SafeX.always (o := Op.rollback) (g := fun r => r) rfl fun w₁ hr₁ hi₁ => ?_
  have h₁ := hF.rely hr₁ h
  have hpre : OpPre cfg C strict steady i w₁ .rollback := trivial
  refine ⟨⟨.inr (hF.unlocked h₁), hpre⟩, fun c r s ha hx w₂ hr₂ _ => ?_⟩
  have hx : exec cfg C i .rollback c w₁.state = some (r, s) := hx
  exact ⟨hF.rely hr₂ (hF.grows (effect_grows hi₁ hpre (exec_effect hx)) h₁),
    Outside.rely hr₂ (outside_of_end (.inr rfl) hx)⟩

/-- A transaction. Its body ends with knowledge `K` under which the commit is a change of the
ledger; `R` is what its answer satisfies whatever happens to the transaction. -/
theorem transaction_result {R : α → Prop} (hF : Outer C steady i F) {begins ends : SqlError → ε}
    {commits : α → Bool} {body : Proc ε α} {K : α → State → Prop}
    (hK : ∀ a, Stable steady i (K a))
    (hbody : ∀ w, F w → During w.state i (Fresh i w.state) →
      Safely cfg hC strict steady i body (fun _ => F)
        (fun a w => (F w ∧ (commits a = true → During w.state i (K a w.state))) ∧ R a) w)
    (hcommit : ∀ a w, Inv C steady w → F w → commits a = true → w.state.alive i = true →
      K a w.state → Change strict w.state.ledger (w.state.ledgerOf i) ∧ HoldsLock C w i)
    (h : F w) (hout : Outside w.state i) :
    Safely cfg hC strict steady i (inTransaction begins ends commits body)
      (fun _ w => F w ∧ Outside w.state i) (fun a w => (F w ∧ Outside w.state i) ∧ R a) w := by
  have hstable : ∀ (e : ε) w w', Rely steady i w w' → Inv C steady w' →
      F w ∧ Outside w.state i → F w' ∧ Outside w'.state i :=
    fun _ w w' hr _ hw => ⟨hF.rely hr hw.1, hw.2.rely hr⟩
  have hret : ∀ (a : α) w, R a → F w ∧ Outside w.state i → Safely cfg hC strict steady i
      (pure a : Proc ε α) (fun _ w => F w ∧ Outside w.state i)
      (fun a w => (F w ∧ Outside w.state i) ∧ R a) w :=
    fun a w ha hw => SafeX.pure fun w' hr _ => ⟨⟨hF.rely hr hw.1, hw.2.rely hr⟩, ha⟩
  refine SafeX.seq hstable (begin_safe hF h hout) fun _ w₁ _ hw₁ => ?_
  refine SafeX.seq hstable (SafeX.attempt (hbody w₁ hw₁.1 hw₁.2)) fun r w₂ _ hw₂ => ?_
  cases r with
  | ok a =>
    obtain ⟨⟨h₂, hk⟩, ha⟩ := hw₂
    show Safely cfg hC strict steady i (if commits a = true then _ else _) _ _ w₂
    by_cases hc : commits a = true
    · rw [if_pos hc]
      refine SafeX.seq hstable (end_safe (o := .commit) (g := fun r => r) hF (.inl rfl) rfl ?_ h₂)
        fun _ w₃ _ hw₃ => hret a w₃ ha hw₃
      intro w₃ hr₃ hi₃ halive
      rcases (hk hc).rely (hK a) hr₃ with hl | ⟨-, hk₃⟩
      · rw [not_lost_of_alive hi₃.txs.threads halive] at hl
        cases hl
      · exact hcommit a w₃ hi₃ (hF.rely hr₃ h₂) hc halive hk₃
    · rw [if_neg hc]
      exact SafeX.seq hstable (end_safe (o := .rollback) (g := fun r => r) hF (.inr rfl) rfl
        (fun _ _ _ => trivial) h₂) fun _ w₃ _ hw₃ => hret a w₃ ha hw₃
  | error e =>
    refine SafeX.seq hstable (rollback_safe hF hw₂) fun _ w₃ _ hw₃ => ?_
    exact SafeX.throw fun w₄ hr₄ _ => ⟨hF.rely hr₄ hw₃.1, hw₃.2.rely hr₄⟩

/-- A transaction whose answer does not matter. -/
theorem transaction_safe (hF : Outer C steady i F) {begins ends : SqlError → ε}
    {commits : α → Bool} {body : Proc ε α} {K : α → State → Prop}
    (hK : ∀ a, Stable steady i (K a))
    (hbody : ∀ w, F w → During w.state i (Fresh i w.state) →
      Safely cfg hC strict steady i body (fun _ => F)
        (fun a w => F w ∧ (commits a = true → During w.state i (K a w.state))) w)
    (hcommit : ∀ a w, Inv C steady w → F w → commits a = true → w.state.alive i = true →
      K a w.state → Change strict w.state.ledger (w.state.ledgerOf i) ∧ HoldsLock C w i)
    (h : F w) (hout : Outside w.state i) :
    Safely cfg hC strict steady i (inTransaction begins ends commits body)
      (fun _ w => F w ∧ Outside w.state i) (fun _ w => F w ∧ Outside w.state i) w := by
  refine SafeX.mono (transaction_result (R := fun _ => True) hF hK (fun w hf hd => ?_) hcommit h
    hout) (fun _ _ _ hw => hw) fun _ _ _ hw => hw.1
  exact SafeX.mono (hbody w hf hd) (fun _ _ _ hf => hf) fun _ _ _ hw => ⟨hw, trivial⟩

end

end Pubky.Homeserver.Storage

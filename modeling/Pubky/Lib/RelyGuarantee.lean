import Pubky.Lib.Machine

/-!
# Rely-guarantee reasoning for thread pools

A `Logic` for a machine fixes an invariant of the shared world, for every thread
`i` the changes `Rely i` that the rest of the system may make behind its back,
and for every operation the precondition `Pre` under which it keeps both. The
operations are verified once, in the fields of the structure; what is left for a
program is to establish the preconditions of the operations it issues.

* `Logic.Safe` is the weakest precondition of a program; it is closed under the
  steps of all other threads by construction.
* `Safe.bind`, `Safe.map`, `Safe.op`, `Safe.mono`, `Safe.and` and `Safe.of_uses` are the rules
  of the logic, `SafeE` is the version for programs that can fail.
* `Logic.steps_safe` and `Logic.ret_spec` are adequacy: what has been shown of the
  single calls holds in every run of any number of interleaved calls.
-/

namespace Conc

variable {σ Op Inp Env Call Out : Type} {Res : Op → Type}

/-- An invariant, a rely condition and operation preconditions that fit together. -/
structure Logic (M : Machine σ Op Inp Env Call Out Res)
    (allow : World σ Call Out → Label Op Inp Env Call Out → Prop) where
  /-- Holds between any two operations. -/
  Inv : World σ Call Out → Prop
  /-- What thread `i` may count on when anyone else moves. -/
  Rely : ℕ → World σ Call Out → World σ Call Out → Prop
  /-- What thread `i` has to establish before it issues an operation. -/
  Pre : ℕ → Op → World σ Call Out → Prop
  /-- What thread `i` has to establish before it returns. -/
  Post : ℕ → Out → World σ Call Out → Prop
  rely_refl : ∀ i w, Rely i w w
  rely_trans : ∀ {i w₁ w₂ w₃}, Rely i w₁ w₂ → Rely i w₂ w₃ → Rely i w₁ w₃
  op_ok : ∀ {w i o inp r s}, Inv w → w.Started i → Pre i o w → allow w (.op i o inp) →
    M.exec i o inp w.state = some (r, s) →
    Inv (w.setState s) ∧ ∀ j, j ≠ i → Rely j w (w.setState s)
  call_ok : ∀ {w i c}, Inv w → ¬ w.Started i → allow w (.call i c) →
    Inv (w.log (.call i c)) ∧ ∀ j, j ≠ i → Rely j w (w.log (.call i c))
  ret_ok : ∀ {w i a}, Inv w → w.Started i → Post i a w → allow w (.ret i a) →
    Inv (w.log (.ret i a)) ∧ ∀ j, j ≠ i → Rely j w (w.log (.ret i a))
  drop_ok : ∀ {w i}, Inv w → w.Started i → allow w (.drop i) →
    Inv (w.setState (M.abort i w.state)) ∧
      ∀ j, j ≠ i → Rely j w (w.setState (M.abort i w.state))
  env_ok : ∀ {w e s}, Inv w → allow w (.env e) → M.env e w.state = some s →
    Inv (w.setState s) ∧ ∀ j, Rely j w (w.setState s)

variable {M : Machine σ Op Inp Env Call Out Res}
  {allow : World σ Call Out → Label Op Inp Env Call Out → Prop}
  (L : Logic M allow) {i : ℕ} {α β ε : Type} {w w' : World σ Call Out}

namespace Logic

/-- `p`, run by thread `i` from world `w` on, meets the precondition of every operation it
issues and ends with `Q`, however the other threads interleave. -/
def Safe (i : ℕ) : Prog Op Res α → (α → World σ Call Out → Prop) → World σ Call Out → Prop
  | .ret a, Q, w => ∀ w', L.Rely i w w' → L.Inv w' → Q a w'
  | .op o k, Q, w => ∀ w', L.Rely i w w' → L.Inv w' → L.Pre i o w' ∧
      ∀ inp r s, allow w' (.op i o inp) → M.exec i o inp w'.state = some (r, s) →
        Safe i (k r) Q (w'.setState s)

variable {L}

theorem Safe.rely {p : Prog Op Res α} {Q : α → World σ Call Out → Prop} (h : L.Safe i p Q w)
    (hr : L.Rely i w w') : L.Safe i p Q w' := by
  cases p with
  | ret a => exact fun w'' hr' => h w'' (L.rely_trans hr hr')
  | op o k => exact fun w'' hr' => h w'' (L.rely_trans hr hr')

/-- The rest of the system may move before a program starts. -/
theorem Safe.of_rely {p : Prog Op Res α} {Q : α → World σ Call Out → Prop}
    (h : ∀ w', L.Rely i w w' → L.Inv w' → L.Safe i p Q w') : L.Safe i p Q w := by
  cases p with
  | ret a => exact fun w' hr hi => h w' hr hi w' (L.rely_refl i w') hi
  | op o k => exact fun w' hr hi => h w' hr hi w' (L.rely_refl i w') hi

theorem Safe.bind {p : Prog Op Res α} {f : α → Prog Op Res β} {Q : β → World σ Call Out → Prop}
    (h : L.Safe i p (fun a w' => L.Safe i (f a) Q w') w) : L.Safe i (p >>= f) Q w := by
  induction p generalizing w with
  | ret a => exact Safe.of_rely h
  | op o k ih =>
    intro w' hr hi
    obtain ⟨hpre, hk⟩ := h w' hr hi
    exact ⟨hpre, fun inp r s ha hx => ih r (hk inp r s ha hx)⟩

theorem Safe.map {p : Prog Op Res α} {f : α → β} {Q : β → World σ Call Out → Prop}
    (h : L.Safe i p (fun a w' => Q (f a) w') w) : L.Safe i (p >>= fun a => .ret (f a)) Q w := by
  induction p generalizing w with
  | ret a => exact h
  | op o k ih =>
    intro w' hr hi
    obtain ⟨hpre, hk⟩ := h w' hr hi
    exact ⟨hpre, fun inp r s ha hx => ih r (hk inp r s ha hx)⟩

theorem Safe.mono {p : Prog Op Res α} {Q Q' : α → World σ Call Out → Prop}
    (h : L.Safe i p Q w) (hq : ∀ a w', L.Inv w' → Q a w' → Q' a w') : L.Safe i p Q' w := by
  induction p generalizing w with
  | ret a => exact fun w' hr hi => hq a w' hi (h w' hr hi)
  | op o k ih =>
    intro w' hr hi
    obtain ⟨hpre, hk⟩ := h w' hr hi
    exact ⟨hpre, fun inp r s ha hx => ih r (hk inp r s ha hx)⟩

/-- Frame rule: an assertion that the other threads respect, and that every operation of
the program keeps, still holds at the end of the program. -/
theorem Safe.of_uses {p : Prog Op Res α} {P : Op → Prop} {R : World σ Call Out → Prop}
    (hp : p.Uses P) (hrely : ∀ w w', L.Rely i w w' → R w → R w')
    (hop : ∀ o w, P o → L.Inv w → R w → L.Pre i o w ∧
      ∀ inp r s, allow w (.op i o inp) → M.exec i o inp w.state = some (r, s) →
        R (w.setState s))
    (hw : R w) : L.Safe i p (fun _ w' => R w') w := by
  induction p generalizing w with
  | ret a => exact fun w' hr _ => hrely w w' hr hw
  | op o k ih =>
    intro w' hr hi
    obtain ⟨hpre, hk⟩ := hop o w' hp.1 hi (hrely w w' hr hw)
    exact ⟨hpre, fun inp r s ha hx => ih r (hp.2 r) (hk inp r s ha hx)⟩

/-! ## Programs that can fail -/

variable (L) in
/-- `Safe` for a fallible program, with a postcondition on its successful results only. -/
def SafeE (i : ℕ) (p : ExceptT ε (Prog Op Res) α) (Q : α → World σ Call Out → Prop)
    (w : World σ Call Out) : Prop :=
  L.Safe i p.run (fun r w' => ∀ a, r = .ok a → Q a w') w

theorem SafeE.bind {p : ExceptT ε (Prog Op Res) α} {f : α → ExceptT ε (Prog Op Res) β}
    {Q : β → World σ Call Out → Prop}
    (h : L.SafeE i p (fun a w' => L.SafeE i (f a) Q w') w) : L.SafeE i (p >>= f) Q w := by
  refine Safe.bind (h.mono ?_)
  intro r w' _ hr
  cases r with
  | error e =>
    intro w'' _ _ a ha
    cases ha
  | ok a => exact hr a rfl

theorem SafeE.pure {a : α} {Q : α → World σ Call Out → Prop}
    (h : ∀ w', L.Rely i w w' → L.Inv w' → Q a w') :
    L.SafeE i (Pure.pure a : ExceptT ε (Prog Op Res) α) Q w := by
  intro w' hr hi b hb
  cases hb
  exact h w' hr hi

theorem SafeE.throw {e : ε} {Q : α → World σ Call Out → Prop} :
    L.SafeE i (MonadExceptOf.throw e : ExceptT ε (Prog Op Res) α) Q w := by
  intro w' _ _ a ha
  cases ha

theorem SafeE.mono {p : ExceptT ε (Prog Op Res) α} {Q Q' : α → World σ Call Out → Prop}
    (h : L.SafeE i p Q w) (hq : ∀ a w', L.Inv w' → Q a w' → Q' a w') : L.SafeE i p Q' w :=
  Safe.mono h fun _ w' hi hr a ha => hq a w' hi (hr a ha)

theorem SafeE.rely {p : ExceptT ε (Prog Op Res) α} {Q : α → World σ Call Out → Prop}
    (h : L.SafeE i p Q w) (hr : L.Rely i w w') : L.SafeE i p Q w' :=
  Safe.rely h hr

theorem SafeE.of_rely {p : ExceptT ε (Prog Op Res) α} {Q : α → World σ Call Out → Prop}
    (h : ∀ w', L.Rely i w w' → L.Inv w' → L.SafeE i p Q w') : L.SafeE i p Q w :=
  Safe.of_rely h

/-! ## Adequacy -/

variable (L) in
/-- Every admitted call is safe when it starts. -/
def CallSafe : Prop :=
  ∀ w i c, L.Inv w → ¬ w.Started i → allow w (.call i c) →
    L.Safe i (M.prog c) (L.Post i) (w.log (.call i c))

variable (L) in
/-- The invariant holds and every running thread is safe. -/
structure PoolSafe (p : Pool σ Op Call Out Res) : Prop where
  inv : L.Inv p.world
  started : ∀ i q, p.threads i = some q → p.world.Started i
  returned : ∀ i a, .ret i a ∈ p.world.hist → p.world.Started i
  unique : ∀ i c c', .call i c ∈ p.world.hist → .call i c' ∈ p.world.hist → c = c'
  safe : ∀ i q, p.threads i = some q → L.Safe i q (L.Post i) p.world

/-- Before the first call only the invariant is to be shown. -/
theorem PoolSafe.initial {p : Pool σ Op Call Out Res} (hinv : L.Inv p.world)
    (hthreads : ∀ i, p.threads i = none) (hhist : p.world.hist = []) : L.PoolSafe p where
  inv := hinv
  started := fun i q hq => by simp [hthreads] at hq
  returned := fun i a ha => by simp [hhist] at ha
  unique := fun i c c' hc => by simp [hhist] at hc
  safe := fun i q hq => by simp [hthreads] at hq

variable (L) in
/-- The effect of one transition on the thread `j`: it is another thread's move that `j`
may rely on, or one of the four moves of `j` itself. -/
inductive Moves (j : ℕ) (p p' : Pool σ Op Call Out Res) : Prop where
  | other (hr : L.Rely j p.world p'.world) (ht : p'.threads j = p.threads j)
      (hh : ∀ e ∈ p'.world.hist, (∃ c, e = .call j c) ∨ (∃ a, e = .ret j a) → e ∈ p.world.hist)
  | call (c : Call) (hj : ¬ p.world.Started j) (ha : allow p.world (.call j c))
      (hw : p'.world = p.world.log (.call j c)) (ht : p'.threads j = some (M.prog c))
  | op (o : Op) (k : Res o → Prog Op Res Out) (inp : Inp) (r : Res o) (s : σ)
      (hj : p.threads j = some (.op o k)) (ha : allow p.world (.op j o inp))
      (hx : M.exec j o inp p.world.state = some (r, s)) (hw : p'.world = p.world.setState s)
      (ht : p'.threads j = some (k r))
  | ret (a : Out) (hj : p.threads j = some (.ret a)) (hw : p'.world = p.world.log (.ret j a))
      (ht : p'.threads j = none)
  | drop (hj : (p.threads j).isSome) (hw : p'.world = p.world.setState (M.abort j p.world.state))
      (ht : p'.threads j = none)

variable {p p' : Pool σ Op Call Out Res} {l : Label Op Inp Env Call Out}

/-- What a safe pool guarantees about one transition. -/
theorem PoolSafe.next (hp : L.PoolSafe p) (h : p.Next M l p') (ha : allow p.world l) :
    L.Inv p'.world ∧ ∀ j, L.Moves j p p' := by
  cases h with
  | call i c hi =>
    obtain ⟨hinv, hrely⟩ := L.call_ok hp.inv hi ha
    refine ⟨hinv, fun j => ?_⟩
    by_cases hj : j = i
    · subst hj
      exact .call c hi ha rfl (by simp)
    · refine .other (hrely j hj) (by simp [hj]) ?_
      rintro e he (⟨c', rfl⟩ | ⟨a, rfl⟩) <;> simpa [hj] using he
  | op i o k inp r s hi hx =>
    obtain ⟨hpre, -⟩ := hp.safe i _ hi p.world (L.rely_refl i _) hp.inv
    obtain ⟨hinv, hrely⟩ := L.op_ok hp.inv (hp.started i _ hi) hpre ha hx
    refine ⟨hinv, fun j => ?_⟩
    by_cases hj : j = i
    · subst hj
      exact .op o k inp r s hi ha hx rfl (by simp)
    · exact .other (hrely j hj) (by simp [hj]) fun e he _ => he
  | ret i a hi =>
    have hpost := hp.safe i _ hi p.world (L.rely_refl i _) hp.inv
    obtain ⟨hinv, hrely⟩ := L.ret_ok hp.inv (hp.started i _ hi) hpost ha
    refine ⟨hinv, fun j => ?_⟩
    by_cases hj : j = i
    · subst hj
      exact .ret a hi rfl (by simp)
    · refine .other (hrely j hj) (by simp [hj]) ?_
      rintro e he (⟨c', rfl⟩ | ⟨b, rfl⟩) <;> simpa [hj] using he
  | drop i t hi =>
    obtain ⟨hinv, hrely⟩ := L.drop_ok hp.inv (hp.started i _ hi) ha
    refine ⟨hinv, fun j => ?_⟩
    by_cases hj : j = i
    · subst hj
      exact .drop (by simp [hi]) rfl (by simp)
    · exact .other (hrely j hj) (by simp [hj]) fun e he _ => he
  | env e s hx =>
    obtain ⟨hinv, hrely⟩ := L.env_ok hp.inv ha hx
    exact ⟨hinv, fun j => .other (hrely j) rfl fun e he _ => he⟩

theorem PoolSafe.step (hL : L.CallSafe) (hp : L.PoolSafe p) (h : Step M allow p p') :
    L.PoolSafe p' := by
  obtain ⟨l, a, hn, ha⟩ := h
  have hnext := Pool.next_cases M hn
  obtain ⟨hinv, hmoves⟩ := hp.next hnext ha
  have hmono : ∀ j, p.world.Started j → p'.world.Started j := by
    rintro j ⟨c, hc⟩
    exact ⟨c, (hnext.hist_suffix M).subset hc⟩
  refine ⟨hinv, fun j t ht => ?_, fun j b hb => ?_, fun j c c' hc hc' => ?_, fun j t ht => ?_⟩
  · cases hmoves j with
    | other hr ht' hh => exact hmono j (hp.started j t (ht' ▸ ht))
    | call c hj ha hw ht' => exact ⟨c, by simp [hw]⟩
    | op o k inp r s hj ha hx hw ht' => exact hmono j (hp.started j _ hj)
    | ret a hj hw ht' => simp [ht'] at ht
    | drop hj hw ht' => simp [ht'] at ht
  · cases hmoves j with
    | other hr ht' hh => exact hmono j (hp.returned j b (hh _ hb (.inr ⟨b, rfl⟩)))
    | call c hj ha hw ht' => exact ⟨c, by simp [hw]⟩
    | op o k inp r s hj ha hx hw ht' => exact hmono j (hp.started j _ hj)
    | ret a hj hw ht' => exact hmono j (hp.started j _ hj)
    | drop hj hw ht' =>
      obtain ⟨t, ht⟩ := Option.isSome_iff_exists.1 hj
      exact hmono j (hp.started j t ht)
  · cases hmoves j with
    | other hr ht' hh =>
      exact hp.unique j c c' (hh _ hc (.inl ⟨c, rfl⟩)) (hh _ hc' (.inl ⟨c', rfl⟩))
    | call d hj ha hw ht' =>
      have hnew : ∀ e, .call j e ∈ p'.world.hist → e = d := by
        intro e he
        have : e = d ∨ .call j e ∈ p.world.hist := by simpa [hw] using he
        exact this.resolve_right fun h => hj ⟨e, h⟩
      rw [hnew c hc, hnew c' hc']
    | op o k inp r s hj ha hx hw ht' =>
      exact hp.unique j c c' (by simpa [hw] using hc) (by simpa [hw] using hc')
    | ret a hj hw ht' =>
      exact hp.unique j c c' (by simpa [hw] using hc) (by simpa [hw] using hc')
    | drop hj hw ht' =>
      exact hp.unique j c c' (by simpa [hw] using hc) (by simpa [hw] using hc')
  · cases hmoves j with
    | other hr ht' hh => exact (hp.safe j t (ht' ▸ ht)).rely hr
    | call c hj ha hw ht' =>
      obtain rfl := Option.some.inj (ht'.symm.trans ht)
      exact hw ▸ hL p.world j c hp.inv hj ha
    | op o k inp r s hj ha hx hw ht' =>
      obtain rfl := Option.some.inj (ht'.symm.trans ht)
      obtain ⟨-, hk⟩ := hp.safe j _ hj p.world (L.rely_refl j _) hp.inv
      exact hw ▸ hk inp r s ha hx
    | ret a hj hw ht' => simp [ht'] at ht
    | drop hj hw ht' => simp [ht'] at ht

/-- Adequacy: safety of the single calls carries over to every run. -/
theorem steps_safe (hL : L.CallSafe) (hp : L.PoolSafe p) (h : Steps M allow p p') :
    L.PoolSafe p' := by
  induction h with
  | refl => exact hp
  | tail _ hs ih => exact ih.step hL hs

/-- The precondition of an operation that a thread is about to issue. -/
theorem PoolSafe.pre (hp : L.PoolSafe p) {o : Op} {k : Res o → Prog Op Res Out}
    (hi : p.threads i = some (.op o k)) : L.Pre i o p.world :=
  (hp.safe i _ hi p.world (L.rely_refl i _) hp.inv).1

/-- A property of the worlds that every transition of a safe pool preserves, in runs that meet
the assumptions of the logic and possibly more. -/
theorem steps_invariant {allow' : World σ Call Out → Label Op Inp Env Call Out → Prop}
    {P : World σ Call Out → Prop} (hL : L.CallSafe) (hallow : ∀ w l, allow' w l → allow w l)
    (hstep : ∀ {p p' l}, L.PoolSafe p → p.Next M l p' → allow' p.world l → P p.world → P p'.world)
    (hp : L.PoolSafe p) (h₀ : P p.world) (h : Steps M allow' p p') : P p'.world := by
  induction h with
  | refl => exact h₀
  | tail hsteps hs ih =>
    obtain ⟨l, a, hn, ha⟩ := hs
    have hsafe := steps_safe hL hp (Steps.mono M _ hallow hsteps)
    exact hstep hsafe (Pool.next_cases M hn) ha ih

/-- A thread may rely on the transitions of all others. -/
theorem PoolSafe.rely {j : ℕ} (hp : L.PoolSafe p) (h : p.Next M l p') (ha : allow p.world l)
    (hj : l.thread ≠ some j) : L.Rely j p.world p'.world := by
  have hne : ∀ {i}, some i ≠ some j → j ≠ i := fun hi heq => hi (heq ▸ rfl)
  cases h with
  | call i c hi => exact (L.call_ok hp.inv hi ha).2 j (hne hj)
  | op i o k inp r s hi hx =>
    exact (L.op_ok hp.inv (hp.started i _ hi) (hp.pre hi) ha hx).2 j (hne hj)
  | ret i a hi =>
    have hpost := hp.safe i _ hi p.world (L.rely_refl i _) hp.inv
    exact (L.ret_ok hp.inv (hp.started i _ hi) hpost ha).2 j (hne hj)
  | drop i q hi => exact (L.drop_ok hp.inv (hp.started i _ hi) ha).2 j (hne hj)
  | env e s hx => exact (L.env_ok hp.inv ha hx).2 j

/-- A thread may rely on a run in which it does not move. -/
theorem steps_rely {j : ℕ} (hL : L.CallSafe) (hp : L.PoolSafe p)
    (h : Steps M (fun w l => allow w l ∧ l.thread ≠ some j) p p') : L.Rely j p.world p'.world :=
  steps_invariant (P := fun w => L.Rely j p.world w) hL (fun _ _ ha => ha.1)
    (fun hq hn ha hr => L.rely_trans hr (hq.rely hn ha.1 ha.2)) hp (L.rely_refl j _) h

/-- What every thread may rely on holds between the ends of any run. -/
theorem steps_related {R : World σ Call Out → World σ Call Out → Prop} (hL : L.CallSafe)
    (hrefl : ∀ w, R w w) (htrans : ∀ {w₁ w₂ w₃}, R w₁ w₂ → R w₂ w₃ → R w₁ w₃)
    (hrely : ∀ {j w w'}, L.Rely j w w' → R w w') (hp : L.PoolSafe p) (h : Steps M allow p p') :
    R p.world p'.world := by
  refine steps_invariant (P := fun w => R p.world w) hL (fun _ _ ha => ha) ?_ hp (hrefl _) h
  intro q q' l hq hn ha hr
  -- some thread does not move
  obtain ⟨j, hj⟩ : ∃ j, l.thread ≠ some j := by
    cases l.thread with
    | none => exact ⟨0, by simp⟩
    | some i => exact ⟨i + 1, by simp⟩
  exact htrans hr (hrely (hq.rely hn ha hj))

variable (L) in
/-- Where thread `i`, not yet started in `p`, stands in a later pool `p'`: it has not been
started, or it runs and is safe for the postcondition of its call, or it is gone and met
that postcondition if it returned. -/
inductive Tracked (i : ℕ) (Q : Call → Out → World σ Call Out → Prop)
    (p p' : Pool σ Op Call Out Res) : Prop where
  | waiting (hs : ¬ p'.world.Started i) (ht : p'.threads i = none)
      (hr : L.Rely i p.world p'.world) (hret : ∀ a, .ret i a ∉ p'.world.hist)
  | running (c : Call) (t : Prog Op Res Out) (hc : .call i c ∈ p'.world.hist)
      (ht : p'.threads i = some t) (hsafe : L.Safe i t (Q c) p'.world)
      (hret : ∀ a, .ret i a ∉ p'.world.hist)
  | done (c : Call) (hc : .call i c ∈ p'.world.hist) (ht : p'.threads i = none)
      (hret : ∀ a, .ret i a ∈ p'.world.hist → ∃ w, L.Inv w ∧ Q c a w ∧
        w.hist <:+ p'.world.hist ∧ ∀ j, ¬ p'.world.Started j → L.Rely j w p'.world)

/-- A thread that has not been started only ever sees moves it may rely on. -/
theorem PoolSafe.rely_of_not_started (hp : L.PoolSafe p) (h : L.Moves i p p')
    (hh : p.world.hist <:+ p'.world.hist) (hi : ¬ p'.world.Started i) :
    L.Rely i p.world p'.world := by
  have hmono : p.world.Started i → p'.world.Started i := by
    rintro ⟨c, hc⟩
    exact ⟨c, hh.subset hc⟩
  cases h with
  | other hr _ _ => exact hr
  | call c _ _ hw _ => exact absurd ⟨c, by simp [hw]⟩ hi
  | op o k inp r s hj _ _ _ _ => exact absurd (hmono (hp.started i _ hj)) hi
  | ret a hj _ _ => exact absurd (hmono (hp.started i _ hj)) hi
  | drop hj _ _ =>
    obtain ⟨t, ht⟩ := Option.isSome_iff_exists.1 hj
    exact absurd (hmono (hp.started i t ht)) hi

variable {Q : Call → Out → World σ Call Out → Prop}

theorem Tracked.step {p₀ : Pool σ Op Call Out Res} (hp : L.PoolSafe p)
    (hQ : ∀ w c, L.Inv w → L.Rely i p₀.world w → ¬ w.Started i → allow w (.call i c) →
      L.Safe i (M.prog c) (Q c) (w.log (.call i c)))
    (h : L.Tracked i Q p₀ p) (hs : Step M allow p p') : L.Tracked i Q p₀ p' := by
  obtain ⟨l, a, hn, ha⟩ := hs
  have hnext := Pool.next_cases M hn
  have hh := hnext.hist_suffix M
  obtain ⟨hinv, hmoves⟩ := hp.next hnext ha
  have hret_other : (∀ e ∈ p'.world.hist, (∃ c, e = .call i c) ∨ (∃ a, e = .ret i a) →
      e ∈ p.world.hist) → ∀ b, .ret i b ∈ p'.world.hist → .ret i b ∈ p.world.hist :=
    fun hev b hb => hev _ hb (.inr ⟨b, rfl⟩)
  cases h with
  | waiting hst ht hr hret =>
    cases hmoves i with
    | other hr' ht' hev =>
      refine .waiting ?_ (ht'.trans ht) (L.rely_trans hr hr') fun b hb =>
        hret b (hret_other hev b hb)
      rintro ⟨c, hc⟩
      exact hst ⟨c, hev _ hc (.inl ⟨c, rfl⟩)⟩
    | call c hj hal hw ht' =>
      refine .running c _ (by simp [hw]) ht' (hw ▸ hQ p.world c hp.inv hr hj hal) fun b hb => ?_
      exact hret b (by simpa [hw] using hb)
    | op o k inp r s hj => simp [ht] at hj
    | ret b hj => simp [ht] at hj
    | drop hj => simp [ht] at hj
  | running c t hc ht hsafe hret =>
    cases hmoves i with
    | other hr' ht' hev =>
      exact .running c t (hh.subset hc) (ht'.trans ht) (hsafe.rely hr') fun b hb =>
        hret b (hret_other hev b hb)
    | call c' hj => exact absurd ⟨c, hc⟩ hj
    | op o k inp r s hj hal hx hw ht' =>
      obtain rfl := Option.some.inj (ht.symm.trans hj)
      obtain ⟨-, hk⟩ := hsafe p.world (L.rely_refl i _) hp.inv
      exact .running c _ (hh.subset hc) ht' (hw ▸ hk inp r s hal hx) fun b hb =>
        hret b (by simpa [hw] using hb)
    | ret b hj hw ht' =>
      obtain rfl := Option.some.inj (ht.symm.trans hj)
      refine .done c (hh.subset hc) ht' fun b' hb' => ?_
      have hb : b' = b ∨ .ret i b' ∈ p.world.hist := by simpa [hw] using hb'
      obtain rfl := hb.resolve_right (hret b')
      exact ⟨p.world, hp.inv, hsafe p.world (L.rely_refl i _) hp.inv, hh,
        fun j hj => hp.rely_of_not_started (hmoves j) hh hj⟩
    | drop hj hw ht' =>
      exact .done c (hh.subset hc) ht' fun b hb => absurd (by simpa [hw] using hb) (hret b)
  | done c hc ht hret =>
    have hkeep : ∀ b, .ret i b ∈ p.world.hist → ∃ w, L.Inv w ∧ Q c b w ∧
        w.hist <:+ p'.world.hist ∧ ∀ j, ¬ p'.world.Started j → L.Rely j w p'.world := by
      intro b hb
      obtain ⟨w, hw, hq, hsuf, hrely⟩ := hret b hb
      refine ⟨w, hw, hq, hsuf.trans hh, fun j hj => ?_⟩
      have hj' : ¬ p.world.Started j := fun ⟨c', hc'⟩ => hj ⟨c', hh.subset hc'⟩
      exact L.rely_trans (hrely j hj') (hp.rely_of_not_started (hmoves j) hh hj)
    cases hmoves i with
    | other hr' ht' hev =>
      exact .done c (hh.subset hc) (ht'.trans ht) fun b hb => hkeep b (hret_other hev b hb)
    | call c' hj => exact absurd ⟨c, hc⟩ hj
    | op o k inp r s hj => simp [ht] at hj
    | ret b hj => simp [ht] at hj
    | drop hj => simp [ht] at hj

/-- What a call started after `p` returns: if the call, from any world the thread may find
when it starts, is safe for `Q`, then `Q` held when it returned. The world of the return
is connected with the last one by the rely of every thread that never ran. -/
theorem ret_spec (hL : L.CallSafe) (hp : L.PoolSafe p) (h : Steps M allow p p')
    (hi : ¬ p.world.Started i)
    (hQ : ∀ w c, L.Inv w → L.Rely i p.world w → ¬ w.Started i → allow w (.call i c) →
      L.Safe i (M.prog c) (Q c) (w.log (.call i c)))
    {a : Out} (hret : .ret i a ∈ p'.world.hist) :
    ∃ c w, .call i c ∈ p'.world.hist ∧ L.Inv w ∧ Q c a w ∧ w.hist <:+ p'.world.hist ∧
      ∀ j, ¬ p'.world.Started j → L.Rely j w p'.world := by
  have htracked : L.Tracked i Q p p' := by
    clear hret
    induction h with
    | refl =>
      refine .waiting hi ?_ (L.rely_refl i _) fun b hb => hi (hp.returned i b hb)
      cases ht : p.threads i with
      | none => rfl
      | some t => exact absurd (hp.started i t ht) hi
    | tail hpq hs ih => exact ih.step (steps_safe hL hp hpq) hQ hs
  cases htracked with
  | waiting _ _ _ hno => exact absurd hret (hno a)
  | running c t _ _ _ hno => exact absurd hret (hno a)
  | done c hc _ hdone =>
    obtain ⟨w, hw, hq, hsuf, hrely⟩ := hdone a hret
    exact ⟨c, w, hc, hw, hq, hsuf, hrely⟩

end Logic

end Conc

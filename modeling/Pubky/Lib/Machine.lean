import Mathlib.Data.Nat.Notation
import Mathlib.Logic.Relation
import Pubky.Lib.Prog

/-!
# Thread pools over a shared state

A `Machine` runs procedure calls over a shared state. Every call is a thread of
its own, a thread advances by one atomic operation at a time, and threads
interleave freely. A thread may also be dropped between two operations, and the
environment may change the state on its own.

* `Pool.next` is the executable transition function, `Step` the transition
  relation it induces, `Steps` its reflexive transitive closure.
* `allow` restricts the transitions of a run: it is how an assumption about the
  environment, or a condition on the calls, is stated.
* `next_cases` says once and for all what a transition can do.
-/

namespace Conc

/-- The environment's side of a concurrent program: how operations act on the state. -/
structure Machine (σ Op Inp Env Call Out : Type) (Res : Op → Type) where
  /-- Effect of operation `o` of thread `i` under the environment's choice `inp`;
  `none` while the operation is blocked. -/
  exec : ℕ → (o : Op) → Inp → σ → Option (Res o × σ)
  /-- A step of the environment. -/
  env : Env → σ → Option σ
  /-- What is left of the state when thread `i` is dropped. -/
  abort : ℕ → σ → σ
  /-- The program a call runs. -/
  prog : Call → Prog Op Res Out

/-- Start and return of the calls, the part of a run its clients can see. -/
inductive Event (Call Out : Type) where
  | call (i : ℕ) (c : Call)
  | ret (i : ℕ) (a : Out)
  deriving DecidableEq, Repr

/-- The shared state together with the history of calls, newest event first. -/
structure World (σ Call Out : Type) where
  state : σ
  hist : List (Event Call Out)

/-- A world and the programs that its running threads still have to execute. -/
structure Pool (σ Op Call Out : Type) (Res : Op → Type) where
  world : World σ Call Out
  threads : ℕ → Option (Prog Op Res Out)

/-- What the scheduler picks. -/
inductive Action (Inp Env Call : Type) where
  | call (i : ℕ) (c : Call)
  | run (i : ℕ) (inp : Inp)
  | drop (i : ℕ)
  | env (e : Env)

/-- What a transition does. -/
inductive Label (Op Inp Env Call Out : Type) where
  | call (i : ℕ) (c : Call)
  | op (i : ℕ) (o : Op) (inp : Inp)
  | ret (i : ℕ) (a : Out)
  | drop (i : ℕ)
  | env (e : Env)

variable {σ Op Inp Env Call Out : Type} {Res : Op → Type}

/-- The thread that moves in a transition. -/
def Label.thread : Label Op Inp Env Call Out → Option ℕ
  | .call i _ | .op i _ _ | .ret i _ | .drop i => some i
  | .env _ => none

namespace World

/-- Thread `i` has been started. -/
def Started (w : World σ Call Out) (i : ℕ) : Prop :=
  ∃ c, Event.call i c ∈ w.hist

/-- The decision procedure for `Started`. -/
def started (w : World σ Call Out) (i : ℕ) : Bool :=
  w.hist.any fun
    | .call j _ => j == i
    | .ret _ _ => false

theorem started_iff {w : World σ Call Out} {i : ℕ} : w.started i = true ↔ w.Started i := by
  constructor
  · intro h
    obtain ⟨e, he, h⟩ := List.any_eq_true.1 h
    cases e with
    | call j c => exact ⟨c, by simpa [beq_iff_eq.1 h] using he⟩
    | ret j a => simp at h
  · rintro ⟨c, hc⟩
    exact List.any_eq_true.2 ⟨_, hc, by simp⟩

/-- The world after an operation changed the state. -/
def setState (w : World σ Call Out) (s : σ) : World σ Call Out :=
  { w with state := s }

/-- The world after an event. -/
def log (w : World σ Call Out) (e : Event Call Out) : World σ Call Out :=
  { w with hist := e :: w.hist }

@[simp] theorem setState_state (w : World σ Call Out) (s : σ) : (w.setState s).state = s := rfl
@[simp] theorem setState_hist (w : World σ Call Out) (s : σ) :
    (w.setState s).hist = w.hist := rfl
@[simp] theorem log_state (w : World σ Call Out) (e : Event Call Out) :
    (w.log e).state = w.state := rfl
@[simp] theorem log_hist (w : World σ Call Out) (e : Event Call Out) :
    (w.log e).hist = e :: w.hist := rfl

@[simp] theorem started_setState {w : World σ Call Out} {s : σ} {i : ℕ} :
    (w.setState s).Started i ↔ w.Started i := Iff.rfl

@[simp] theorem started_log_call {w : World σ Call Out} {i j : ℕ} {c : Call} :
    (w.log (.call j c)).Started i ↔ i = j ∨ w.Started i := by
  simp [Started, exists_or]

@[simp] theorem started_log_ret {w : World σ Call Out} {i j : ℕ} {a : Out} :
    (w.log (.ret j a)).Started i ↔ w.Started i := by
  simp [Started]

/-- Every thread has been started at most once. -/
def Once (w : World σ Call Out) : Prop :=
  ∀ i c c', Event.call i c ∈ w.hist → Event.call i c' ∈ w.hist → c = c'

/-- Only finitely many threads have been started. -/
theorem exists_not_started (w : World σ Call Out) : ∃ i, ¬ w.Started i := by
  have hbound : ∀ hist : List (Event Call Out), ∃ n, ∀ i c, .call i c ∈ hist → i < n := by
    intro hist
    induction hist with
    | nil => exact ⟨0, by simp⟩
    | cons e hist ih =>
      obtain ⟨n, hn⟩ := ih
      cases e with
      | ret k a => exact ⟨n, fun i c h => hn i c (by simpa using h)⟩
      | call k d =>
        refine ⟨max n (k + 1), fun i c h => ?_⟩
        rcases List.mem_cons.1 h with heq | h
        · obtain ⟨rfl, -⟩ := Event.call.inj heq
          omega
        · have := hn i c h
          omega
  obtain ⟨n, hn⟩ := hbound w.hist
  exact ⟨n, fun ⟨c, hc⟩ => Nat.lt_irrefl n (hn n c hc)⟩

end World

variable (M : Machine σ Op Inp Env Call Out Res)

/-- One transition of the pool. -/
def Pool.next (p : Pool σ Op Call Out Res) :
    Action Inp Env Call → Option (Label Op Inp Env Call Out × Pool σ Op Call Out Res)
  | .call i c =>
    if p.world.started i then none
    else some (.call i c, ⟨p.world.log (.call i c), Function.update p.threads i (some (M.prog c))⟩)
  | .run i inp =>
    match p.threads i with
    | some (.op o k) =>
      match M.exec i o inp p.world.state with
      | some (r, s) =>
        some (.op i o inp, ⟨p.world.setState s, Function.update p.threads i (some (k r))⟩)
      | none => none
    | some (.ret a) =>
      some (.ret i a, ⟨p.world.log (.ret i a), Function.update p.threads i none⟩)
    | none => none
  | .drop i =>
    match p.threads i with
    | some _ =>
      some (.drop i, ⟨p.world.setState (M.abort i p.world.state),
        Function.update p.threads i none⟩)
    | none => none
  | .env e =>
    match M.env e p.world.state with
    | some s => some (.env e, ⟨p.world.setState s, p.threads⟩)
    | none => none

/-- The ways in which a pool `p` can go over to `p'` by a transition labelled `l`. -/
inductive Pool.Next (p : Pool σ Op Call Out Res) :
    Label Op Inp Env Call Out → Pool σ Op Call Out Res → Prop where
  | call (i : ℕ) (c : Call) (hi : ¬ p.world.Started i) :
      Pool.Next p (.call i c)
        ⟨p.world.log (.call i c), Function.update p.threads i (some (M.prog c))⟩
  | op (i : ℕ) (o : Op) (k : Res o → Prog Op Res Out) (inp : Inp) (r : Res o) (s : σ)
      (hi : p.threads i = some (.op o k)) (hx : M.exec i o inp p.world.state = some (r, s)) :
      Pool.Next p (.op i o inp)
        ⟨p.world.setState s, Function.update p.threads i (some (k r))⟩
  | ret (i : ℕ) (a : Out) (hi : p.threads i = some (.ret a)) :
      Pool.Next p (.ret i a) ⟨p.world.log (.ret i a), Function.update p.threads i none⟩
  | drop (i : ℕ) (q : Prog Op Res Out) (hi : p.threads i = some q) :
      Pool.Next p (.drop i)
        ⟨p.world.setState (M.abort i p.world.state), Function.update p.threads i none⟩
  | env (e : Env) (s : σ) (hx : M.env e p.world.state = some s) :
      Pool.Next p (.env e) ⟨p.world.setState s, p.threads⟩

/-- Inversion of the transition function. -/
theorem Pool.next_cases {p p' : Pool σ Op Call Out Res} {a : Action Inp Env Call}
    {l : Label Op Inp Env Call Out} (h : p.next M a = some (l, p')) : p.Next M l p' := by
  cases a with
  | call i c =>
    by_cases hs : p.world.started i = true
    · simp [Pool.next, hs] at h
    · simp only [Pool.next, hs, Bool.false_eq_true, if_false, Option.some.injEq,
        Prod.mk.injEq] at h
      obtain ⟨rfl, rfl⟩ := h
      exact .call i c fun hi => hs (World.started_iff.2 hi)
  | run i inp =>
    simp only [Pool.next] at h
    split at h
    · rename_i o k hi
      split at h
      · rename_i r s hx
        cases h
        exact .op i o k inp r s hi hx
      · cases h
    · rename_i a hi
      cases h
      exact .ret i a hi
    · cases h
  | drop i =>
    simp only [Pool.next] at h
    split at h
    · rename_i q hi
      cases h
      exact .drop i q hi
    · cases h
  | env e =>
    simp only [Pool.next] at h
    split at h
    · rename_i s hx
      cases h
      exact .env e s hx
    · cases h

theorem Pool.Next.once {p p' : Pool σ Op Call Out Res} {l : Label Op Inp Env Call Out}
    (h : p.Next M l p') (hw : p.world.Once) : p'.world.Once := by
  cases h with
  | call i c hi =>
    intro j d d' hd hd'
    rcases List.mem_cons.1 hd with heq | hd <;> rcases List.mem_cons.1 hd' with heq' | hd'
    · exact (Event.call.inj heq).2.trans (Event.call.inj heq').2.symm
    · exact absurd ⟨d', (Event.call.inj heq).1 ▸ hd'⟩ hi
    · exact absurd ⟨d, (Event.call.inj heq').1 ▸ hd⟩ hi
    · exact hw j d d' hd hd'
  | ret i a hi =>
    intro j d d' hd hd'
    exact hw j d d' (by simpa using hd) (by simpa using hd')
  | op | drop | env => exact hw

theorem Pool.Next.hist_suffix {p p' : Pool σ Op Call Out Res} {l : Label Op Inp Env Call Out}
    (h : p.Next M l p') : p.world.hist <:+ p'.world.hist := by
  cases h <;> simp

/-! ## Runs -/

variable (allow : World σ Call Out → Label Op Inp Env Call Out → Prop)

/-- A transition that the assumption `allow` admits. -/
def Step (p p' : Pool σ Op Call Out Res) : Prop :=
  ∃ l a, p.next M a = some (l, p') ∧ allow p.world l

/-- Runs of any number of admitted transitions. -/
def Steps : Pool σ Op Call Out Res → Pool σ Op Call Out Res → Prop :=
  Relation.ReflTransGen (Step M allow)

/-- Execute a schedule, checking the assumption at every transition. -/
def Pool.run [∀ w l, Decidable (allow w l)] (p : Pool σ Op Call Out Res) :
    List (Action Inp Env Call) → Option (Pool σ Op Call Out Res)
  | [] => some p
  | a :: as =>
    match p.next M a with
    | some (l, p') => if allow p.world l then p'.run as else none
    | none => none

theorem Pool.run_steps [∀ w l, Decidable (allow w l)] {p p' : Pool σ Op Call Out Res}
    {as : List (Action Inp Env Call)} (h : p.run M allow as = some p') : Steps M allow p p' := by
  induction as generalizing p with
  | nil =>
    cases h
    exact Relation.ReflTransGen.refl
  | cons a as ih =>
    simp only [Pool.run] at h
    split at h
    · rename_i l q hq
      split at h
      · rename_i ha
        exact Relation.ReflTransGen.head ⟨l, a, hq, ha⟩ (ih h)
      · cases h
    · cases h

/-- A test that the end of a schedule passes holds at the end of a run. -/
theorem Pool.exists_steps_of_run [∀ w l, Decidable (allow w l)] {p : Pool σ Op Call Out Res}
    {as : List (Action Inp Env Call)} {P : Pool σ Op Call Out Res → Bool}
    (h : (p.run M allow as).any P = true) : ∃ p', Steps M allow p p' ∧ P p' = true := by
  obtain ⟨p', hp', hP⟩ := (Option.any_eq_true _ _).1 h
  exact ⟨p', Pool.run_steps M allow hp', hP⟩

/-- What holds at the end of a run and not at its start became true at some step, the last one that
made it so, and was true ever since. -/
theorem Steps.since {X : World σ Call Out → Prop} {p₀ p : Pool σ Op Call Out Res}
    (h : Steps M allow p₀ p) (h₀ : ¬ X p₀.world) (hX : X p.world) :
    ∃ q q' l a, Steps M allow p₀ q ∧ q.next M a = some (l, q') ∧ allow q.world l ∧ ¬ X q.world ∧
      X q'.world ∧ Steps M (fun w l => allow w l ∧ X w) q' p := by
  induction h with
  | refl => exact absurd hX h₀
  | tail hsteps hstep ih =>
    rename_i b c
    obtain ⟨l, a, hn, ha⟩ := hstep
    by_cases hb : X b.world
    · obtain ⟨q, q', l', a', hq, hn', ha', hbefore, hafter, hsince⟩ := ih hb
      exact ⟨q, q', l', a', hq, hn', ha', hbefore, hafter, hsince.tail ⟨l, a, hn, ha, hb⟩⟩
    · exact ⟨b, c, l, a, hsteps, hn, ha, hb, hX, Relation.ReflTransGen.refl⟩

theorem Steps.once {p p' : Pool σ Op Call Out Res} (h : Steps M allow p p') (hp : p.world.Once) :
    p'.world.Once := by
  induction h with
  | refl => exact hp
  | tail _ hstep ih =>
    obtain ⟨l, a, hn, -⟩ := hstep
    exact (Pool.next_cases M hn).once M ih

/-- Another assumption that holds along a run. -/
theorem Steps.along {allow' : World σ Call Out → Label Op Inp Env Call Out → Prop}
    {p p' : Pool σ Op Call Out Res}
    (hle : ∀ q l, Steps M allow p q → allow q.world l → allow' q.world l)
    (h : Steps M allow p p') : Steps M allow' p p' := by
  induction h with
  | refl => exact Relation.ReflTransGen.refl
  | tail hsteps hstep ih =>
    obtain ⟨l, a, hn, ha⟩ := hstep
    exact ih.tail ⟨l, a, hn, hle _ l hsteps ha⟩

/-- Weakening the assumption keeps the runs. -/
theorem Steps.mono {allow' : World σ Call Out → Label Op Inp Env Call Out → Prop}
    (hle : ∀ w l, allow w l → allow' w l) {p p' : Pool σ Op Call Out Res}
    (h : Steps M allow p p') : Steps M allow' p p' :=
  h.along M allow fun _ _ _ ha => hle _ _ ha

end Conc

import Pubky.Lib.RelyGuarantee

/-!
# Procedures

Programs that can fail, in the shape in which fallible code uses them: a statement whose error
is translated, a pure check, an operation that cannot fail, a part whose failure is caught.

Each of these comes with its rule in the logic of `Pubky.Lib.RelyGuarantee`; `SafeX.seq` puts
procedures together. A procedure that only issues operations which keep an assertion keeps it
(`SafeX.of_uses`), and the lemmas `Proc.uses_*` say what a procedure issues.
-/

namespace Conc

variable {σ Op Inp Env Call Out : Type} {Res : Op → Type} {ε ε' α β : Type}

/-- A program that can fail. -/
abbrev Proc (Op : Type) (Res : Op → Type) (ε α : Type) := ExceptT ε (Prog Op Res) α

namespace Proc

/-- An operation that answers with a result, whose error is translated. -/
def stmt (f : ε' → ε) (p : Prog Op Res (Except ε' α)) : Proc Op Res ε α :=
  ExceptT.mk (p >>= fun r => .ret (r.mapError f))

/-- Go on only if a pure check succeeds. -/
def check (f : ε' → ε) (x : Except ε' α) : Proc Op Res ε α :=
  ExceptT.mk (.ret (x.mapError f))

/-- An operation that cannot fail. -/
def always (p : Prog Op Res α) : Proc Op Res ε α :=
  ExceptT.mk (p >>= fun r => .ret (.ok r))

/-- Run a part whose failure is a result. -/
def attempt (p : Proc Op Res ε' α) : Proc Op Res ε (Except ε' α) :=
  ExceptT.mk (p.run >>= fun r => .ret (.ok r))

/-- Translate the errors of a part. -/
def mapErr (f : ε' → ε) (p : Proc Op Res ε' α) : Proc Op Res ε α :=
  ExceptT.mk (p.run >>= fun r => .ret (r.mapError f))

end Proc

theorem ok_of_mapError {f : ε → ε'} {x : Except ε α} {a : α} (h : x.mapError f = .ok a) :
    x = .ok a := by
  cases x with
  | ok b => exact congrArg Except.ok (Except.ok.inj h)
  | error e => cases h

namespace Logic

variable {M : Machine σ Op Inp Env Call Out Res}
  {allow : World σ Call Out → Label Op Inp Env Call Out → Prop} {L : Logic M allow} {i : ℕ}
  {w : World σ Call Out} {o : Op} {Q : β → World σ Call Out → Prop}

variable (L) in
/-- `Safe` for a fallible program, with a postcondition for each kind of result. -/
def SafeX (i : ℕ) (p : Proc Op Res ε α) (E : ε → World σ Call Out → Prop)
    (Q : α → World σ Call Out → Prop) (w : World σ Call Out) : Prop :=
  L.Safe i p.run (fun r w' => match r with | .ok a => Q a w' | .error e => E e w') w

variable {E : ε → World σ Call Out → Prop} {k : α → Proc Op Res ε β}

theorem SafeX.mono {p : Proc Op Res ε β} {E' : ε → World σ Call Out → Prop}
    {Q' : β → World σ Call Out → Prop} (h : L.SafeX i p E Q w)
    (he : ∀ e w', L.Inv w' → E e w' → E' e w') (hq : ∀ b w', L.Inv w' → Q b w' → Q' b w') :
    L.SafeX i p E' Q' w := by
  refine Safe.mono h fun r w' hi hr => ?_
  cases r with
  | ok b => exact hq b w' hi hr
  | error e => exact he e w' hi hr

theorem SafeX.pure {b : β} (h : ∀ w', L.Rely i w w' → L.Inv w' → Q b w') :
    L.SafeX i (Pure.pure b : Proc Op Res ε β) E Q w := h

theorem SafeX.throw {e : ε} (h : ∀ w', L.Rely i w w' → L.Inv w' → E e w') :
    L.SafeX i (MonadExceptOf.throw e : Proc Op Res ε β) E Q w := h

/-- Sequencing, where the error postcondition is stable. -/
theorem SafeX.seq {p : Proc Op Res ε α} {R : α → World σ Call Out → Prop}
    (hE : ∀ e w w', L.Rely i w w' → L.Inv w' → E e w → E e w') (hp : L.SafeX i p E R w)
    (hk : ∀ a w', L.Inv w' → R a w' → L.SafeX i (k a) E Q w') : L.SafeX i (p >>= k) E Q w := by
  refine Safe.bind (Safe.mono hp fun r w' hi hr => ?_)
  cases r with
  | ok a => exact hk a w' hi hr
  | error e => exact fun w'' hr' hi' => hE e w' w'' hr' hi' hr

/-- A statement. -/
theorem SafeX.stmt {f : ε' → ε} {p : Prog Op Res (Except ε' β)} {g : Res o → Except ε' β}
    (hp : p = .op o fun r => .ret (g r))
    (h : ∀ w', L.Rely i w w' → L.Inv w' → L.Pre i o w' ∧ ∀ c r s, allow w' (.op i o c) →
      M.exec i o c w'.state = some (r, s) → ∀ w'', L.Rely i (w'.setState s) w'' → L.Inv w'' →
      (∀ b, g r = .ok b → Q b w'') ∧ ∀ e, g r = .error e → E (f e) w'') :
    L.SafeX i (Proc.stmt f p) E Q w := by
  subst hp
  intro w' hr hi
  obtain ⟨hpre, hk⟩ := h w' hr hi
  refine ⟨hpre, fun c r s ha hx w'' hr' hi' => ?_⟩
  obtain ⟨hok, herr⟩ := hk c r s ha hx w'' hr' hi'
  cases hg : g r with
  | ok b => exact hok b hg
  | error e => exact herr e hg

/-- A pure check. -/
theorem SafeX.check {f : ε' → ε} {x : Except ε' β}
    (hok : ∀ b, x = .ok b → ∀ w', L.Rely i w w' → L.Inv w' → Q b w')
    (herr : ∀ e, x = .error e → ∀ w', L.Rely i w w' → L.Inv w' → E (f e) w') :
    L.SafeX i (Proc.check f x) E Q w := by
  cases x with
  | ok b => exact hok b rfl
  | error e => exact herr e rfl

/-- An operation that cannot fail. -/
theorem SafeX.always {p : Prog Op Res β} {g : Res o → β} (hp : p = .op o fun r => .ret (g r))
    (h : ∀ w', L.Rely i w w' → L.Inv w' → L.Pre i o w' ∧ ∀ c r s, allow w' (.op i o c) →
      M.exec i o c w'.state = some (r, s) → ∀ w'', L.Rely i (w'.setState s) w'' → L.Inv w'' →
      Q (g r) w'') :
    L.SafeX i (Proc.always p) E Q w := by
  subst hp
  intro w' hr hi
  obtain ⟨hpre, hk⟩ := h w' hr hi
  exact ⟨hpre, fun c r s ha hx => hk c r s ha hx⟩

/-- A part whose failure is caught. -/
theorem SafeX.attempt {p : Proc Op Res ε' α} {E' : ε' → World σ Call Out → Prop}
    {R : α → World σ Call Out → Prop} (h : L.SafeX i p E' R w) :
    L.SafeX i (Proc.attempt p) E
      (fun r w' => match r with | .ok a => R a w' | .error e => E' e w') w := by
  refine Safe.map (Safe.mono h fun r w' _ hr => ?_)
  cases r with
  | ok a => exact hr
  | error e => exact hr

theorem SafeX.mapErr {f : ε' → ε} {p : Proc Op Res ε' β}
    (h : L.SafeX i p (fun e => E (f e)) Q w) : L.SafeX i (Proc.mapErr f p) E Q w := by
  refine Safe.map (Safe.mono h fun r w' _ hr => ?_)
  cases r with
  | ok a => exact hr
  | error e => exact hr

/-- Frame rule. -/
theorem SafeX.of_uses {p : Proc Op Res ε β} {P : Op → Prop} {R : World σ Call Out → Prop}
    (hp : p.run.Uses P) (hrely : ∀ w w', L.Rely i w w' → R w → R w')
    (hop : ∀ o w, P o → L.Inv w → R w → L.Pre i o w ∧
      ∀ c r s, allow w (.op i o c) → M.exec i o c w.state = some (r, s) → R (w.setState s))
    (hw : R w) : L.SafeX i p (fun _ => R) (fun _ => R) w := by
  refine Safe.mono (Safe.of_uses hp hrely hop hw) fun r w' _ hr => ?_
  cases r with
  | ok b => exact hr
  | error e => exact hr

end Logic

/-! ## Operations of a procedure -/

namespace Proc

variable {P : Op → Prop} {f : ε' → ε}

theorem uses_pure (a : α) : (Pure.pure a : Proc Op Res ε α).run.Uses P := trivial

theorem uses_throw (e : ε) : (MonadExceptOf.throw e : Proc Op Res ε α).run.Uses P := trivial

theorem uses_check {x : Except ε' α} : (check f x : Proc Op Res ε α).run.Uses P := trivial

theorem uses_bind {p : Proc Op Res ε α} {k : α → Proc Op Res ε β} (hp : p.run.Uses P)
    (hk : ∀ a, (k a).run.Uses P) : (p >>= k).run.Uses P := by
  refine Prog.Uses.bind hp fun r => ?_
  cases r with
  | ok a => exact hk a
  | error e => trivial

theorem uses_stmt {p : Prog Op Res (Except ε' α)} (hp : p.Uses P) :
    (stmt f p : Proc Op Res ε α).run.Uses P :=
  hp.bind fun _ => trivial

theorem uses_always {p : Prog Op Res α} (hp : p.Uses P) :
    (always p : Proc Op Res ε α).run.Uses P :=
  hp.bind fun _ => trivial

theorem uses_attempt {p : Proc Op Res ε' α} (hp : p.run.Uses P) :
    (attempt p : Proc Op Res ε (Except ε' α)).run.Uses P :=
  hp.bind fun _ => trivial

theorem uses_mapErr {p : Proc Op Res ε' α} (hp : p.run.Uses P) :
    (mapErr f p : Proc Op Res ε α).run.Uses P :=
  hp.bind fun _ => trivial

/-! ## Results of a procedure -/

/-- Every value the procedure can return, whatever the answers, satisfies `Q`. -/
def Returns (Q : α → Prop) (p : Proc Op Res ε α) : Prop :=
  p.run.Gives fun r => ∀ a, r = .ok a → Q a

variable {Q : α → Prop}

theorem returns_of_forall {p : Proc Op Res ε α} (h : ∀ a, Q a) : Returns Q p :=
  Prog.gives_of_forall fun _ a _ => h a

theorem returns_pure {a : α} (h : Q a) : Returns Q (Pure.pure a : Proc Op Res ε α) := by
  intro b hb
  cases hb
  exact h

theorem returns_throw (e : ε) : Returns Q (MonadExceptOf.throw e : Proc Op Res ε α) :=
  nofun

theorem returns_check {x : Except ε' α} :
    Returns (fun a => x = .ok a) (check f x : Proc Op Res ε α) :=
  fun _ h => ok_of_mapError h

theorem returns_attempt {p : Proc Op Res ε' α} (h : Returns Q p) :
    Returns (fun r => ∀ a, r = .ok a → Q a) (attempt p : Proc Op Res ε (Except ε' α)) := by
  refine Prog.Gives.bind h fun r hr s hs => ?_
  cases hs
  exact hr

theorem returns_bind {R : β → Prop} {p : Proc Op Res ε α} {k : α → Proc Op Res ε β}
    (hp : Returns Q p) (hk : ∀ a, Q a → Returns R (k a)) : Returns R (p >>= k) := by
  refine Prog.Gives.bind hp fun r hr => ?_
  cases r with
  | ok a => exact hk a (hr a rfl)
  | error e => exact nofun

/-- What follows only has to do with values that can be returned. -/
theorem uses_bind_of_returns {p : Proc Op Res ε α} {k : α → Proc Op Res ε β} (hp : p.run.Uses P)
    (hQ : Returns Q p) (hk : ∀ a, Q a → (k a).run.Uses P) : (p >>= k).run.Uses P := by
  refine Prog.Uses.bind_of_gives hp hQ fun r hr => ?_
  cases r with
  | ok a => exact hk a (hr a rfl)
  | error e => trivial

end Proc

end Conc

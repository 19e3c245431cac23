import Mathlib.Data.Prod.Lex
import Pubky.Homeserver.Events.Leaks
import Pubky.Homeserver.Events.Replay

/-!
# The limit of a stream

`stream_events` counts what it has yielded in a `usize` and subtracts the count, cast to 16 bits,
from the limit of the query. The count stays below the limit for as long as the stream runs
(`WithinLimit`), whatever its guard, its queries and the channel answer, so that neither the cast
nor the subtraction loses anything.

A stream without a live tail ends when it has reached its limit or has nothing ahead of it; with
what `ReplayOk` accounts for, this gives the number of events that it delivers.
-/

namespace Pubky.Homeserver.Events

open Broadcast Storage Transitions

variable {C : Crates} {users : List UserRow} {rows : List EventRow} {s s' : EventStream}
  {f f' : Feed} {a : Action} {i : ℕ}

/-! ## A stream that may be answered anything -/

/-- `max - total_sent as u16`, where it does not underflow. -/
def checkedBatchLimit (max totalSent : ℕ) : Option ℕ :=
  if totalSent % 2 ^ 16 ≤ max then some (max - totalSent % 2 ^ 16) else none

theorem checkedBatchLimit_eq {max totalSent : ℕ} (h : totalSent < max) (hmax : max < 2 ^ 16) :
    checkedBatchLimit max totalSent = some (max - totalSent) := by
  rw [checkedBatchLimit, Nat.mod_eq_of_lt (h.trans hmax), if_pos h.le]

/-- The count is the number of events delivered, and it is below the limit until the end. -/
structure WithinLimit (s : EventStream) : Prop where
  counts : s.totalSent = s.delivered.length
  le : ∀ max, s.options.limit = some max → s.totalSent ≤ max
  room : s.phase ≠ .ended → ∀ max, s.options.limit = some max → s.totalSent < max

theorem WithinLimit.opened (cursor : StreamCursor) (options : StreamOptions) (position : ℕ) :
    WithinLimit (.start cursor options position) where
  counts := rfl
  le := fun _ _ => Nat.zero_le _
  room := fun _ _ hmax => Nat.pos_of_ne_zero fun hzero => options.limit_ne_zero (hzero ▸ hmax)

theorem WithinLimit.withPhase (h : WithinLimit s) (hne : s.phase ≠ .ended) (position : ℕ)
    (phase : StreamPhase) : WithinLimit { s with position := position, phase := phase } :=
  ⟨h.counts, h.le, fun _ => h.room hne⟩

/-- The stream ends with the event that reaches the limit. -/
theorem WithinLimit.deliver (h : WithinLimit s) (hne : s.phase ≠ .ended) (e : EventEntity)
    (phase : StreamPhase) : WithinLimit (s.deliver e phase) where
  counts := by simp [EventStream.deliver, h.counts]
  le := fun max hmax => h.room hne max hmax
  room := fun hphase max hmax => by
    have hmax : s.options.limit = some max := hmax
    by_contra hle
    refine hphase (if_pos ?_)
    rw [hmax]
    exact decide_eq_true (Nat.le_of_not_lt hle)

theorem WithinLimit.next (h : WithinLimit s) {x : Arrival} (hs : s.next x = some s') :
    WithinLimit s' := by
  obtain ⟨hne, position, phase, rfl | ⟨e, rfl⟩⟩ := EventStream.next_cases hs
  · exact h.withPhase hne position phase
  · exact (h.withPhase hne position s.phase).deliver hne e phase

theorem WithinLimit.of_reaches {cursor : StreamCursor} {options : StreamOptions} {position : ℕ}
    (h : Reaches EventStream.next (fun _ _ => True) (.start cursor options position) s) :
    WithinLimit s ∧ s.options = options :=
  h.invariant (I := fun t => WithinLimit t ∧ t.options = options)
    ⟨.opened cursor options position, rfl⟩ fun _ _ _ ht _ hx =>
      ⟨ht.1.next hx, (EventStream.next_same hx).2.trans ht.2⟩

/-- A query without an answer leaves nothing ahead, as it had room for an event. -/
theorem WithinLimit.ahead_eq_nil (h : WithinLimit s) (hne : s.phase ≠ .ended)
    (hasc : EventLog.Ascending f.rows) (hquery : f.replayQuery C s false = .ok []) :
    s.ahead f.rows = [] := by
  have hnil := List.forall₂_nil_right_iff.1 (reads_of_fetch hasc hquery)
  exact (List.take_eq_nil_iff.1 hnil).resolve_left (batchLimit_pos (h.room hne)).ne'

/-! ## A stream that is not disturbed -/

/-- No event becomes visible, and neither the guard nor the queries of stream `i` fail. -/
structure Undisturbed (C : Crates) (i : ℕ) (f : Feed) (a : Action) : Prop where
  noEvents : ∀ st log, a = .statement st → f.log.next st = some log → log.rows = f.rows
  valid : a ≠ .guard i false
  answered : ReplayAnswered C i f a

theorem Undisturbed.rows_eq (h : Undisturbed C i f a) (hok : f.Ok C) (hc : f.Change C a f') :
    f'.rows = f.rows := by
  obtain ⟨news, hrows, hnews⟩ := hc.rows_append hok
  by_cases hst : ∀ st, a ≠ .statement st
  · rw [hrows, hnews hst, List.append_nil]
  · obtain ⟨st, rfl⟩ := not_forall_not.1 hst
    cases hc with
    | statement _ log hlog => exact h.noEvents st log rfl hlog
    | stream _ _ _ _ _ hmove => cases hmove

/-- What a stream without a live tail keeps true while it is not disturbed. -/
structure BatchOk (C : Crates) (users : List UserRow) (rows : List EventRow) (s : EventStream) :
    Prop where
  replay : ReplayOk C users rows s
  limit : WithinLimit s
  finished : s.phase = .ended → s.options.limit = some s.totalSent ∨ s.ahead rows = []

theorem BatchOk.opened (rows : List EventRow) (cursor : StreamCursor) (options : StreamOptions)
    (position : ℕ) : BatchOk C users rows (.start cursor options position) where
  replay := .opened rows cursor options position
  limit := .opened cursor options position
  finished := nofun

/-- A stream that ends with an event has reached its limit. -/
theorem WithinLimit.finished_of_deliver (h : WithinLimit s) {e : EventEntity} {phase : StreamPhase}
    (hne : s.phase ≠ .ended) (hphase : phase ≠ .ended) (hend : (s.deliver e phase).phase = .ended) :
    s.options.limit = some (s.totalSent + 1) := by
  simp only [EventStream.deliver] at hend
  split at hend
  · rename_i hlimit
    obtain ⟨max, hmax, hle⟩ := (Option.any_eq_true _ _).1 hlimit
    have hroom := h.room hne max hmax
    rw [hmax, Nat.le_antisymm (of_decide_eq_true hle) hroom]
  · exact absurd hend hphase

theorem BatchOk.moves (h : BatchOk C f.users f.rows s) (hok : f.Ok C)
    (hlive : s.options.mode.isLive = false) (hs : f.streams i = some s)
    (ha : Undisturbed C i f a) (hmove : f.Moves C i s a s') : BatchOk C f.users f.rows s' := by
  obtain ⟨x, hx⟩ := hmove.exists_next
  refine ⟨h.replay.moves hok.log.ascending hok hlive (fun _ _ => rfl) hmove, h.limit.next hx,
    fun hend => ?_⟩
  cases hmove with
  | guard valid _ hstep =>
    have hvalid : valid = true := by
      cases valid
      · exact absurd rfl ha.valid
      · rfl
    subst hvalid
    unfold EventStream.guarded at hstep
    split at hstep
    · cases hstep
      cases hend
    · rename_i event rest hphase
      cases hstep
      refine .inl (h.limit.finished_of_deliver (by rw [hphase]; nofun) ?_ hend)
      cases rest <;> nofun
    · rename_i hphase
      exact absurd hphase h.replay.replaying
    all_goals cases hstep
  | drain _ hstep =>
    unfold EventStream.drained at hstep
    split at hstep
    · cases hstep
      simp only at hend
      split at hend <;> cases hend
    · cases hstep
  | fetch fails _ hstep =>
    obtain ⟨es, hes⟩ := ha.answered fails s rfl hs
    rw [hes] at hstep
    unfold EventStream.fetched at hstep
    split at hstep
    · rename_i hphase
      cases hstep
      cases es with
      | nil =>
        cases fails with
        | true => cases hes
        | false =>
          have hne : s.phase ≠ .ended := by rw [hphase]; nofun
          exact .inr (h.limit.ahead_eq_nil hne hok.log.ascending hes)
      | cons event rest => cases hend
    · cases hstep
  | receive _ hstep =>
    unfold EventStream.received at hstep
    split at hstep
    · rename_i hphase
      exact absurd hphase h.replay.replaying
    · cases hstep

/-- A finished stream has delivered all that it owes, or as much as its limit allows. -/
theorem BatchOk.length_eq (h : BatchOk C users rows s) (hend : s.phase = .ended) {n : ℕ}
    (hlimit : s.options.limit = some n) : s.delivered.length = min n (s.owes rows).length := by
  have haccounts := congrArg List.length h.replay.accounts
  simp only [List.length_append, List.length_map] at haccounts
  have hle := h.limit.le n hlimit
  rw [h.limit.counts] at hle
  rcases h.finished hend with hfull | hnil
  · have hn : n = s.delivered.length := by
      rw [hlimit, h.limit.counts] at hfull
      exact Option.some.inj hfull
    omega
  · rw [hnil, List.length_nil] at haccounts
    omega

/-- In a run that does not disturb it, the stream keeps its options and what it was opened for. -/
theorem batchOk_of_reaches {cursor : StreamCursor} {options : StreamOptions} {position : ℕ}
    (hok : f.Ok C) (hlive : options.mode.isLive = false)
    (hstart : f.streams i = some (.start cursor options position))
    (h : Reaches (Feed.next C) (Undisturbed C i) f f') :
    f'.Ok C ∧ f'.rows = f.rows ∧ ∃ s, f'.streams i = some s ∧ s.since = cursor ∧
      s.options = options ∧ BatchOk C f'.users f'.rows s := by
  refine h.invariant (I := fun t => t.Ok C ∧ t.rows = f.rows ∧ ∃ s, t.streams i = some s ∧
    s.since = cursor ∧ s.options = options ∧ BatchOk C t.users t.rows s)
    ⟨hok, rfl, _, hstart, rfl, rfl, .opened ..⟩ ?_
  rintro t a t' ⟨hok, hrows, s, hs, hsince, hoptions, hbatch⟩ ha hnext
  have hc := Feed.next_cases hnext
  have hrows' := ha.rows_eq hok hc
  refine ⟨hok.change hc, hrows'.trans hrows, ?_⟩
  rw [hrows']
  rcases hc.stream_cases hs with ⟨s', hmove, rfl⟩ | ⟨hs', husers⟩
  · refine ⟨s', Function.update_self .., hmove.same.1.trans hsince, hmove.same.2.trans hoptions, ?_⟩
    exact hbatch.moves hok (hoptions ▸ hlive) hs ha hmove
  · exact ⟨s, hs', hsince, hoptions, hbatch.replay.mono_users husers, hbatch.limit,
      hbatch.finished⟩

/-! ## The end of a stream -/

/-- What stream `i` does next if nothing fails. -/
def EventStream.turn (s : EventStream) (i : ℕ) : Option Action :=
  match s.phase with
  | .checking | .sending _ _ => some (.guard i true)
  | .draining => some (.drain i)
  | .fetching => some (.fetch i false)
  | .tailing => some (.receive i)
  | .ended => none

/-- The action is the next one of stream `i`. -/
def OwnStep (i : ℕ) (f : Feed) (a : Action) : Prop :=
  ∃ s, f.streams i = some s ∧ s.turn i = some a

/-- A bound on the steps before the next event. -/
def EventStream.stepsToEvent (s : EventStream) (channel : Channel EventEntity) : ℕ :=
  match s.phase with
  | .checking => channel.sent.length - s.position + 3
  | .draining => channel.sent.length - s.position + 2
  | .fetching => 1
  | .sending _ _ | .tailing | .ended => 0

/-- A step of its own brings a stream nearer to its end: to the next event, or past one. -/
theorem ReplayOk.exists_turn (h : ReplayOk C f.users f.rows s) (hasc : EventLog.Ascending f.rows)
    (hlive : s.options.mode.isLive = false) (hend : s.phase ≠ .ended) :
    ∃ a s', s.turn i = some a ∧ f.Moves C i s a s' ∧ (s'.phase = .ended ∨
      toLex ((s'.ahead f.rows).length, s'.stepsToEvent f.channel) <
        toLex ((s.ahead f.rows).length, s.stepsToEvent f.channel)) := by
  cases hphase : s.phase with
  | checking =>
    refine ⟨.guard i true, { s with phase := .draining }, by simp only [EventStream.turn, hphase],
      .guard true _ (by simp only [EventStream.guarded, hphase, if_true]), .inr ?_⟩
    refine Prod.Lex.toLex_lt_toLex.2 (.inr ⟨rfl, ?_⟩)
    simp only [EventStream.stepsToEvent, hphase]
    exact Nat.lt_succ_self _
  | draining =>
    refine ⟨.drain i, _, by simp only [EventStream.turn, hphase],
      .drain _ (by simp only [EventStream.drained, hphase]; rfl), .inr ?_⟩
    refine Prod.Lex.toLex_lt_toLex.2 (.inr ⟨rfl, ?_⟩)
    cases hr : (f.channel.tryRecv s.position).1 with
    | value event =>
      obtain ⟨hget, hnext⟩ := Channel.tryRecv_value (Prod.ext hr rfl)
      have hlt := (List.getElem?_eq_some_iff.1 hget).1
      simp only [EventStream.stepsToEvent, hphase, hnext]
      omega
    | empty => simp [EventStream.stepsToEvent, hphase]
    | lagged => simp [EventStream.stepsToEvent, hphase]
    | closed => simp [EventStream.stepsToEvent, hphase]
  | fetching =>
    refine ⟨.fetch i false, _, by simp only [EventStream.turn, hphase],
      .fetch false _ (by simp only [EventStream.fetched, hphase]; rfl), ?_⟩
    have hleave : s.leaveReplay.phase = .ended := by simp [EventStream.leaveReplay, hlive]
    cases f.replayQuery C s false with
    | error e => exact .inl hleave
    | ok es =>
      cases es with
      | nil => exact .inl hleave
      | cons event rest =>
        refine .inr (Prod.Lex.toLex_lt_toLex.2 (.inr ⟨rfl, ?_⟩))
        simp only [EventStream.stepsToEvent, hphase]
        exact Nat.one_pos
  | sending event rest =>
    refine ⟨.guard i true, _, by simp only [EventStream.turn, hphase],
      .guard true _ (by simp only [EventStream.guarded, hphase, if_true]; rfl), .inr ?_⟩
    obtain ⟨r, later, n, hahead, hread, -⟩ := h.first hphase
    refine Prod.Lex.toLex_lt_toLex.2 (.inl ?_)
    have hlater : (s.cursor.advance event).ahead s.options.mode.isReverse s.options.paths f.rows =
        later := ahead_advance hasc hahead hread
    simp only [EventStream.ahead, EventStream.deliver] at hahead ⊢
    rw [hlater, hahead, List.length_cons]
    exact Nat.lt_succ_self _
  | tailing => exact absurd hphase h.replaying
  | ended => exact absurd hphase hend

theorem Feed.Moves.next_eq (hs : f.streams i = some s) (h : f.Moves C i s a s') :
    f.next C a = some { f with streams := Function.update f.streams i (some s') } := by
  cases h with
  | guard valid _ h => simp [Feed.next, Feed.onStream, hs, h]
  | drain _ h => simp [Feed.next, Feed.onStream, hs, h]
  | fetch fails _ h => simp [Feed.next, Feed.onStream, hs, h]
  | receive _ h => simp [Feed.next, Feed.onStream, hs, h]

/-- Stream `i` has no live tail and is in its replay. -/
structure Replaying (C : Crates) (i : ℕ) (f : Feed) : Prop where
  ok : f.Ok C
  stream : ∃ s, f.streams i = some s ∧ s.options.mode.isLive = false ∧
    ReplayOk C f.users f.rows s

def Finished (i : ℕ) (f : Feed) : Prop :=
  ∃ s, f.streams i = some s ∧ s.phase = .ended

/-- The variant of a stream that is left alone. -/
def distance (i : ℕ) (f : Feed) : ℕ ×ₗ ℕ :=
  (f.streams i).elim (toLex (0, 0)) fun s =>
    toLex ((s.ahead f.rows).length, s.stepsToEvent f.channel)

theorem Replaying.step (h : Replaying C i f) (hend : ¬ Finished i f) :
    ∃ a f', OwnStep i f a ∧ f.next C a = some f' ∧ Replaying C i f' ∧
      (Finished i f' ∨ distance i f' < distance i f) := by
  obtain ⟨s, hs, hlive, hreplay⟩ := h.stream
  have hasc := h.ok.log.ascending
  obtain ⟨a, s', hturn, hmove, hgoal⟩ := hreplay.exists_turn (i := i) hasc hlive
    fun hended => hend ⟨s, hs, hended⟩
  have hnext := hmove.next_eq hs
  refine ⟨a, _, ⟨s, hs, hturn⟩, hnext, ⟨h.ok.change (Feed.next_cases hnext), s',
    Function.update_self .., hmove.same.2 ▸ hlive, ?_⟩, ?_⟩
  · exact hreplay.moves hasc h.ok hlive (fun _ _ => rfl) hmove
  · refine hgoal.imp (fun hended => ⟨s', Function.update_self .., hended⟩) fun hlt => ?_
    simp only [distance, Function.update_self, hs, Option.elim_some]
    exact hlt

/-- A stream without a live tail that is left alone comes to its end. -/
theorem Replaying.ends (h : Replaying C i f) :
    ∃ f', Reaches (Feed.next C) (OwnStep i) f f' ∧ Finished i f' := by
  obtain ⟨f', hreach, -, hend⟩ := Reaches.of_variant (distance i) (fun _ => Replaying.step) h
  exact ⟨f', hreach, hend⟩

/-! ## The limit -/

/-- Under an accepted limit `n` a stream delivers at most `n` events and asks for a positive number
of them, whatever it is answered; and a forward stream that is not disturbed ends after as many
events as match, but at most `n`. -/
theorem stream_limit_holds {n : ℕ} (hn : LimitAccepted n) (cursor : StreamCursor)
    (options : StreamOptions) (hlimit : options.limit = some n) :
    (∀ position s, Reaches EventStream.next (fun _ _ => True) (.start cursor options position) s →
      s.delivered.length ≤ n ∧ (s.phase ≠ .ended →
        ∃ b, checkedBatchLimit n s.totalSent = some b ∧ 0 < b ∧ s.batchLimit = some b)) ∧
    (options.mode = .forward → ∀ (C : Crates) (f₀ f g : Feed) (i position : ℕ), f₀.Initial →
      Runs C f₀ f → f.streams i = some (.start cursor options position) →
      Reaches (Feed.next C) (Undisturbed C i) f g →
      (∀ s, g.streams i = some s → s.phase = .ended → s.delivered.length =
        min n (f.rows.filter fun r => cursor.selects false options.paths r).length) ∧
      ∃ g', Reaches (Feed.next C) (OwnStep i) g g' ∧ Finished i g') := by
  refine ⟨fun position s hrun => ?_, fun hmode C f₀ f g i position h₀ hruns hstart hrun => ?_⟩
  · obtain ⟨hwithin, hoptions⟩ := WithinLimit.of_reaches hrun
    have hmax : s.options.limit = some n := hoptions ▸ hlimit
    refine ⟨hwithin.counts ▸ hwithin.le n hmax, fun hne => ?_⟩
    have hroom := hwithin.room hne n hmax
    refine ⟨n - s.totalSent, checkedBatchLimit_eq hroom hn.lt, Nat.sub_pos_of_lt hroom, ?_⟩
    rw [EventStream.batchLimit, hmax]
    rfl
  · have hlive : options.mode.isLive = false := by rw [hmode]; rfl
    obtain ⟨hok, hrows, s, hs, hsince, hoptions, hbatch⟩ :=
      batchOk_of_reaches (hruns.ok h₀) hlive hstart hrun
    refine ⟨fun s' hs' hend => ?_, Replaying.ends ⟨hok, s, hs, hoptions ▸ hlive, hbatch.replay⟩⟩
    cases hs.symm.trans hs'
    rw [hbatch.length_eq hend (hoptions ▸ hlimit), EventStream.owes, hsince, hoptions, hmode, hrows]
    exact congrArg (min n) perm_orderById.length_eq

section Sample

open Storage.Sample

/-- The check of `Undisturbed`. -/
def undisturbed (C : Crates) (i : ℕ) (f : Feed) (a : Action) : Bool :=
  (match a with
    | .statement st => (f.log.next st).all fun log => log.rows = f.rows
    | .guard j valid => j ≠ i || valid
    | _ => true) && replayAnswered C i f a

theorem undisturbed_sound (h : undisturbed C i f a = true) : Undisturbed C i f a := by
  obtain ⟨hcheck, hanswered⟩ := Bool.and_eq_true_iff.1 h
  refine ⟨?_, ?_, replayAnswered_sound hanswered⟩
  · rintro st log rfl hlog
    simpa [hlog] using hcheck
  · rintro rfl
    simp at hcheck

/-- Forward, and at most two events. -/
def firstTwo : StreamOptions := ⟨[], .forward, some 2, nofun⟩

/-- The cursor of a stream of the events of user `0`. -/
def fromStart : StreamCursor := .perUser (AList.insert 0 none ∅)

theorem limitAccepted_two : LimitAccepted 2 := by
  have hparse : (AdminStreamQuery.parse streamCrates "limit=2".toList).toOption.any fun q =>
      q.limit = some 2 := by
    decide +kernel
  obtain ⟨q, hq, hlimit⟩ := (Option.any_eq_true _ _).1 hparse
  refine .admin streamCrates "limit=2".toList q ?_ (of_decide_eq_true hlimit)
  cases h : AdminStreamQuery.parse streamCrates "limit=2".toList with
  | error e =>
    rw [h] at hq
    cases hq
  | ok q' =>
    rw [h] at hq
    cases hq
    rfl

/-- Of three events the stream delivers two. -/
theorem stream_limit_holds_two : ∃ (f g : Feed) (s : EventStream),
    Runs crates.toCrates backlogStart f ∧
    Reaches (Feed.next crates.toCrates) (Undisturbed crates.toCrates 0) f g ∧
    (f.rows.filter fun r => fromStart.selects false firstTwo.paths r).length = 3 ∧
    g.streams 0 = some s ∧ s.phase = .ended ∧ s.delivered.length = min 2 3 := by
  have hrun : (exec (Feed.next crates.toCrates) (fun _ _ => true) backlogStart
      (insertOne ++ insertOne ++ insertOne)).any fun f₁ => (f₁.streams 0).isNone &&
      (f₁.next crates.toCrates (.subscribe 0 fromStart firstTwo)).any fun f =>
      (f.rows.filter fun r => fromStart.selects false firstTwo.paths r).length = 3 &&
      (exec (Feed.next crates.toCrates) (undisturbed crates.toCrates 0) f
        [.guard 0 true, .drain 0, .fetch 0 false, .guard 0 true, .guard 0 true]).any fun g =>
      (g.streams 0).any fun s => s.phase = .ended := by
    decide +kernel
  obtain ⟨f₁, hf₁, h⟩ := (Option.any_eq_true _ _).1 hrun
  obtain ⟨hnone, h⟩ := Bool.and_eq_true_iff.1 h
  obtain ⟨f, hf, h⟩ := (Option.any_eq_true _ _).1 h
  obtain ⟨hcount, h⟩ := Bool.and_eq_true_iff.1 h
  obtain ⟨g, hg, h⟩ := (Option.any_eq_true _ _).1 h
  obtain ⟨s, hs, hend⟩ := (Option.any_eq_true _ _).1 h
  have hruns : Runs crates.toCrates backlogStart f :=
    Runs.tail (.of_exec hf₁ fun _ _ _ => trivial) _ hf
  have hstart : f.streams 0 = some (.start fromStart firstTwo f₁.channel.subscribe) := by
    simp only [Feed.next, Option.isNone_iff_eq_none.1 hnone] at hf
    cases hf
    simp only [Function.update_self]
  have hreach : Reaches (Feed.next crates.toCrates) (Undisturbed crates.toCrates 0) f g :=
    .of_exec hg fun _ _ => undisturbed_sound
  have hlength := ((stream_limit_holds limitAccepted_two fromStart firstTwo rfl).2 rfl
    crates.toCrates backlogStart f g 0 _ backlogStart_initial hruns hstart hreach).1 s hs
    (of_decide_eq_true hend)
  rw [of_decide_eq_true hcount] at hlength
  exact ⟨f, g, s, hruns, hreach, of_decide_eq_true hcount, hs, of_decide_eq_true hend, hlength⟩

end Sample

end Pubky.Homeserver.Events

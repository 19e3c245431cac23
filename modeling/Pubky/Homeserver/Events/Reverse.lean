import Pubky.Homeserver.Events.Limits

/-!
# Reverse streams

A reverse stream of a client keeps one upper bound for each user, the last event of that user that
it has delivered. Until there is one, nothing but the cursor of the query bounds the user, so that
an event which is committed after the first query can turn up in a later batch, with a larger id
than all that was delivered before (`reverse_stream_ascends`).

If every user for whom there is a new event has been bounded by the time of the next query
(`Bounded`), the stream sees at every query only what was there at the first one, and the account
of the replay holds over those rows.
-/

namespace Pubky.Homeserver.Events

open Broadcast Storage Transitions

variable {C : Crates} {users : List UserRow} {rows news : List EventRow} {s s' : EventStream}
  {f₀ f₁ f f' : Feed} {a : Action} {i : ℕ} {start : UserCursors}

/-- When stream `i` asks, every user with a matching event that is not among `rows` has had an
event delivered. -/
def Bounded (i : ℕ) (rows : List EventRow) (start : UserCursors) (f : Feed) (a : Action) : Prop :=
  ∀ fails s, a = .fetch i fails → f.streams i = some s → ∀ r ∈ f.rows, r ∉ rows →
    Selected start s.options.paths true r → ∃ e ∈ s.delivered, e.userId = r.user

/-- A cursor is the one of the query while its user has had nothing delivered, and then the id of
an event among `rows`. -/
structure CursorsOk (rows : List EventRow) (start : UserCursors) (s : EventStream) : Prop where
  since : s.since = .perUser start
  origin : ∃ cur, s.cursor = .perUser cur ∧ ∀ user cursor, cur.lookup user = some cursor →
    start.lookup user = some cursor ∧ (∀ e ∈ s.delivered, e.userId ≠ user) ∨
      ∃ r ∈ rows, cursor = some r.id

theorem CursorsOk.deliver (h : CursorsOk rows start s) {r : EventRow} {e : EventEntity}
    (hr : r ∈ rows) (hid : e.id = r.id) (phase : StreamPhase) :
    CursorsOk rows start (s.deliver e phase) := by
  obtain ⟨cur, hcur, horigin⟩ := h.origin
  refine ⟨h.since, cur.insert e.userId (some e.cursor), ?_, fun user cursor hlookup => ?_⟩
  · simp only [EventStream.deliver, hcur, StreamCursor.advance]
  · by_cases huser : user = e.userId
    · subst huser
      rw [AList.lookup_insert] at hlookup
      cases hlookup
      exact .inr ⟨r, hr, by rw [EventEntity.cursor, hid]⟩
    · rw [AList.lookup_insert_ne huser] at hlookup
      refine (horigin user cursor hlookup).imp_left fun hnew => ⟨hnew.1, ?_⟩
      intro e' he'
      rcases List.mem_append.1 he' with he' | he'
      · exact hnew.2 e' he'
      · rw [List.mem_singleton.1 he']
        exact Ne.symm huser

theorem CursorsOk.next (h : CursorsOk rows start s) {x : Arrival} (hs : s.next x = some s')
    (hreads : ∀ e ∈ s'.delivered, ∃ r ∈ rows, e.id = r.id) : CursorsOk rows start s' := by
  obtain ⟨-, position, phase, rfl | ⟨e, rfl⟩⟩ := EventStream.next_cases hs
  · exact ⟨h.since, h.origin⟩
  · obtain ⟨r, hr, hid⟩ := hreads e (List.mem_append_right _ (List.mem_singleton_self e))
    have hmoved : CursorsOk rows start { s with position := position } := ⟨h.since, h.origin⟩
    exact hmoved.deliver hr hid phase

/-- With every user bounded, the stream sees none of the new rows. -/
theorem CursorsOk.ahead_append (h : CursorsOk rows start s)
    (hmode : s.options.mode = .reverse) (hasc : EventLog.Ascending (rows ++ news))
    (hbounded : ∀ r ∈ news, Selected start s.options.paths true r →
      ∃ e ∈ s.delivered, e.userId = r.user) :
    s.ahead (rows ++ news) = s.ahead rows := by
  obtain ⟨cur, hcur, horigin⟩ := h.origin
  have hnone : (news.filter fun r => s.cursor.selects true s.options.paths r) = [] := by
    refine List.filter_eq_nil_iff.2 fun r hr hsel => ?_
    rw [hcur, selects_perUser] at hsel
    obtain ⟨cursor, hlookup, hpast, hpath⟩ := hsel
    rcases horigin r.user cursor hlookup with ⟨hstart, hnone⟩ | ⟨old, hold, rfl⟩
    · obtain ⟨e, he, huser⟩ := hbounded r hr ⟨cursor, hstart, hpast, hpath⟩
      exact hnone e he huser
    · exact Nat.lt_asymm (pastCursor_reverse.1 hpast) ((List.pairwise_append.1 hasc).2.2 old hold r hr)
  have hreverse : s.options.mode.isReverse = true := by rw [hmode]; rfl
  rw [EventStream.ahead, EventStream.ahead, hreverse, StreamCursor.ahead, StreamCursor.ahead,
    List.filter_append, hnone, List.append_nil]

/-- What holds of a reverse stream from its first query on, over the rows of that query. -/
structure ReverseOk (C : Crates) (i : ℕ) (rows : List EventRow) (start : UserCursors) (f : Feed) :
    Prop where
  ok : f.Ok C
  grown : ∃ news, f.rows = rows ++ news
  stream : ∃ s, f.streams i = some s ∧ s.options.mode = .reverse ∧
    ReplayOk C f.users rows s ∧ CursorsOk rows start s

theorem ReverseOk.change (h : ReverseOk C i rows start f) (hc : f.Change C a f')
    (ha : Bounded i rows start f a) : ReverseOk C i rows start f' := by
  obtain ⟨news, hnews⟩ := h.grown
  obtain ⟨s, hs, hmode, hreplay, hcursors⟩ := h.stream
  obtain ⟨news', hnews', -⟩ := hc.rows_append h.ok
  have hasc : EventLog.Ascending (rows ++ news) := hnews ▸ h.ok.log.ascending
  refine ⟨h.ok.change hc, ⟨news ++ news', by rw [hnews', hnews, List.append_assoc]⟩, ?_⟩
  rcases hc.stream_cases hs with ⟨s', hmove, rfl⟩ | ⟨hs', husers⟩
  · have hlive : s.options.mode.isLive = false := by rw [hmode]; rfl
    have hsees : ∀ fails, a = .fetch i fails → s.ahead f.rows = s.ahead rows := by
      rintro fails rfl
      rw [hnews]
      refine hcursors.ahead_append hmode hasc fun r hr hsel => ha fails s rfl hs r ?_ ?_ hsel
      · rw [hnews]
        exact List.mem_append_right _ hr
      · intro hold
        exact Nat.lt_irrefl _ ((List.pairwise_append.1 hasc).2.2 r hold r hr)
    have hmoved := hreplay.moves (List.pairwise_append.1 hasc).1 h.ok hlive hsees hmove
    obtain ⟨x, hx⟩ := hmove.exists_next
    refine ⟨s', Function.update_self .., hmove.same.2 ▸ hmode, hmoved,
      hcursors.next hx fun e he => ?_⟩
    obtain ⟨r, hr, hread⟩ := hmoved.reads e he
    exact ⟨r, hr, hread.id⟩
  · exact ⟨s, hs', hmode, hreplay.mono_users husers, hcursors⟩

/-! ## Runs -/

/-- A stream that has delivered nothing is where it started. -/
theorem cursor_of_first (h₀ : f₀.Initial) (h : Runs C f₀ f) (hs : f.streams i = some s)
    (hfirst : s.delivered = []) : s.cursor = s.since := by
  refine h.stream_invariant (P := fun s => s.delivered = [] → s.cursor = s.since) h₀
    (fun _ _ _ _ => rfl) (fun s x s' hP hx hnil => ?_) hs hfirst
  obtain ⟨-, position, phase, rfl | ⟨e, rfl⟩⟩ := EventStream.next_cases hx
  · exact hP hnil
  · exact absurd hnil (List.append_ne_nil_of_right_ne_nil _ (List.cons_ne_nil e []))

theorem reverseOk_of_reaches (h₀ : f₀.Initial) (h₁ : Runs C f₀ f₁) {s₁ : EventStream}
    (hs₁ : f₁.streams i = some s₁) (hfetch : s₁.phase = .fetching) (hfirst : s₁.delivered = [])
    (hsince : s₁.since = .perUser start) (hmode : s₁.options.mode = .reverse)
    (hrun : Reaches (Feed.next C) (Bounded i f₁.rows start) f₁ f) :
    ReverseOk C i f₁.rows start f := by
  have hcursor := cursor_of_first h₀ h₁ hs₁ hfirst
  refine hrun.invariant ⟨h₁.ok h₀, ⟨[], (List.append_nil _).symm⟩, s₁, hs₁, hmode, ?_, ?_⟩
    fun t a t' ht ha hnext => ht.change (Feed.next_cases hnext) ha
  · refine ⟨?_, fun e he => ?_, fun event rest hsending => ?_, ?_⟩
    · rw [EventStream.ahead, EventStream.owes, hcursor, hfirst]
      rfl
    · rw [hfirst] at he
      cases he
    · rw [hfetch] at hsending
      cases hsending
    · rw [hfetch]
      intro h
      cases h
  · refine ⟨hsince, start, hcursor.trans hsince, fun user cursor hlookup => .inl ⟨hlookup, ?_⟩⟩
    rw [hfirst]
    intro e he
    cases he

/-- The query of a stream finds nothing more, upon which the stream ends. -/
structure CaughtUp (C : Crates) (f : Feed) (s : EventStream) : Prop where
  asks : s.phase = .fetching
  nothing : f.replayQuery C s false = .ok []

theorem CaughtUp.ahead_eq_nil (h : CaughtUp C f s) (h₀ : f₀.Initial) (hruns : Runs C f₀ f)
    (hs : f.streams i = some s) : s.ahead f.rows = [] := by
  have hwithin : WithinLimit s := hruns.stream_invariant h₀ WithinLimit.opened
    (fun _ _ _ hP hx => hP.next hx) hs
  exact hwithin.ahead_eq_nil (by rw [h.asks]; nofun) (hruns.ok h₀).log.ascending h.nothing

/-- From its first query on, in every run in which each query finds the users with new events
bounded, a reverse stream delivers events of that first moment only, in descending order; and
when it is caught up it has delivered each of them that matches, once. -/
theorem reverse_stream_descends (h₀ : f₀.Initial) (h₁ : Runs C f₀ f₁) {s₁ : EventStream}
    (hs₁ : f₁.streams i = some s₁) (hfetch : s₁.phase = .fetching) (hfirst : s₁.delivered = [])
    (hsince : s₁.since = .perUser start) (hmode : s₁.options.mode = .reverse)
    (hrun : Reaches (Feed.next C) (Bounded i f₁.rows start) f₁ f) (hs : f.streams i = some s) :
    (s.delivered.map EventEntity.id).Pairwise (· > ·) ∧
    (∀ e ∈ s.delivered, ∃ r ∈ f₁.rows, Reads C f.users r e) ∧
    (CaughtUp C f s → ∀ r ∈ f₁.rows, Selected start s.options.paths true r →
      (s.delivered.map EventEntity.id).count r.id = 1) := by
  obtain ⟨hok, ⟨news, hnews⟩, s', hs', hmode', hreplay, hcursors⟩ :=
    reverseOk_of_reaches h₀ h₁ hs₁ hfetch hfirst hsince hmode hrun
  cases hs.symm.trans hs'
  have hreverse : s.options.mode.isReverse = true := by rw [hmode']; rfl
  have hordered : ((s.owes f₁.rows).map EventRow.id).Pairwise (· > ·) := by
    rw [EventStream.owes, hreverse]
    refine List.pairwise_map.2 ((ordered_ahead (h₁.ok h₀).log.ascending).imp fun h => ?_)
    exact pastCursor_reverse.1 h
  refine ⟨?_, hreplay.reads, fun hcaught r hr hsel => ?_⟩
  · rw [← hreplay.accounts] at hordered
    exact (List.pairwise_append.1 hordered).1
  · have hruns : Runs C f₀ f := h₁.trans (hrun.mono fun _ _ _ => trivial)
    have hnil : s.ahead f₁.rows = [] := by
      refine List.eq_nil_iff_forall_not_mem.2 fun r hr => ?_
      obtain ⟨hr, hsel⟩ := mem_ahead.1 hr
      have hmem : r ∈ s.ahead f.rows := mem_ahead.2 ⟨hnews ▸ List.mem_append_left _ hr, hsel⟩
      rw [hcaught.ahead_eq_nil h₀ hruns hs] at hmem
      cases hmem
    have haccounts := hreplay.accounts
    rw [hnil, List.map_nil, List.append_nil] at haccounts
    rw [haccounts]
    refine List.count_eq_one_of_mem (hordered.imp fun h => Nat.ne_of_gt h) ?_
    refine List.mem_map_of_mem (mem_ahead.2 ⟨hr, ?_⟩)
    rw [hreverse, hcursors.since, selects_perUser]
    exact hsel

section Sample

open Storage.Sample

/-- The check of `Bounded`. -/
def bounded (i : ℕ) (rows : List EventRow) (start : UserCursors) (f : Feed) : Action → Bool
  | .fetch j _ => j ≠ i || (f.streams i).all fun s => f.rows.all fun r => rows.contains r ||
      !(StreamCursor.perUser start).selects true s.options.paths r ||
      s.delivered.any fun e => e.userId = r.user
  | _ => true

theorem bounded_sound (h : bounded i rows start f a = true) : Bounded i rows start f a := by
  rintro fails s rfl hs r hr hnew hsel
  simp only [bounded, ne_eq, not_true, decide_false, Bool.false_or, hs, Option.all_some,
    List.all_eq_true] at h
  have hr := h r hr
  rw [selects_perUser.2 hsel] at hr
  simpa [hnew] using hr

/-- A second user. -/
def secondUser : Action := .signUp ⟨1, crates.z32 bob, false, 0, unlimited⟩

/-- The cursors of a stream of both users, without a bound. -/
def bothUsers : UserCursors := AList.insert 1 none (AList.insert 0 none ∅)

/-- A reverse stream of both users, up to its first query. -/
def openReverse : List Action :=
  [.subscribe 0 (.perUser bothUsers) ⟨[], .reverse, none, SharedParams.default.limit_ne_zero⟩, .guard 0 true, .drain 0]

/-- The second user deletes a file. -/
def insertSecond : List Action :=
  [.statement (.lock 0), .statement (.insert 0 1 .delete backlogPath.asStr),
    .statement (.commit 0)]

/-- The stream is at its first query, and `check` holds of its cursors. -/
def atFirstQuery (f : Feed) (check : UserCursors → Bool) : Bool :=
  (f.streams 0).any fun s => s.phase = .fetching && s.delivered = [] &&
    s.options.mode = .reverse && match s.since with
      | .perUser start => check start
      | .global _ _ => false

theorem atFirstQuery_sound {check : UserCursors → Bool} (h : atFirstQuery f check = true) :
    ∃ s start, f.streams 0 = some s ∧ s.phase = .fetching ∧ s.delivered = [] ∧
      s.options.mode = .reverse ∧ s.since = .perUser start ∧ check start = true := by
  obtain ⟨s, hs, h⟩ := (Option.any_eq_true _ _).1 h
  simp only [Bool.and_eq_true, decide_eq_true_eq] at h
  obtain ⟨⟨⟨hphase, hfirst⟩, hmode⟩, h⟩ := h
  split at h
  · rename_i start hsince
    exact ⟨s, start, hs, hphase, hfirst, hmode, hsince, h⟩
  · cases h

/-- A third event of the first user comes after the first query; that user is bounded by then. -/
theorem reverse_stream_descends_two : ∃ (f₁ f : Feed) (s : EventStream) (start : UserCursors),
    Runs crates.toCrates backlogStart f₁ ∧
    Reaches (Feed.next crates.toCrates) (Bounded 0 f₁.rows start) f₁ f ∧
    f.streams 0 = some s ∧ s.delivered.map EventEntity.id = [2, 1] ∧ f.rows.length = 3 ∧
    (s.delivered.map EventEntity.id).Pairwise (· > ·) := by
  have hrun : (exec (Feed.next crates.toCrates) (fun _ _ => true) backlogStart
      (insertOne ++ insertOne ++ [secondUser] ++ openReverse)).any fun f₁ =>
      atFirstQuery f₁ fun start =>
      (exec (Feed.next crates.toCrates) (bounded 0 f₁.rows start) f₁
        ([.fetch 0 false, .guard 0 true, .guard 0 true] ++ insertOne ++
          [.guard 0 true, .drain 0, .fetch 0 false])).any fun f =>
      f.rows.length = 3 &&
      (f.streams 0).any fun s => s.delivered.map EventEntity.id = [2, 1] := by
    decide +kernel
  obtain ⟨f₁, hf₁, h⟩ := (Option.any_eq_true _ _).1 hrun
  obtain ⟨s₁, start, hs₁, hphase, hfirst, hmode, hsince, h⟩ := atFirstQuery_sound h
  obtain ⟨f, hf, h⟩ := (Option.any_eq_true _ _).1 h
  obtain ⟨hrows, h⟩ := Bool.and_eq_true_iff.1 h
  obtain ⟨s, hs, hdelivered⟩ := (Option.any_eq_true _ _).1 h
  have hruns : Runs crates.toCrates backlogStart f₁ := .of_exec hf₁ fun _ _ _ => trivial
  have hreach : Reaches (Feed.next crates.toCrates) (Bounded 0 f₁.rows start) f₁ f :=
    .of_exec hf fun _ _ => bounded_sound
  exact ⟨f₁, f, s, start, hruns, hreach, hs, of_decide_eq_true hdelivered, of_decide_eq_true hrows,
    (reverse_stream_descends backlogStart_initial hruns hs₁ hphase hfirst hsince hmode hreach hs).1⟩

/-- The second user has no event at the first query; the one that is committed afterwards is
delivered after the event of the first user. -/
theorem reverse_stream_ascends : ∃ (C : Crates) (f₀ f₁ f : Feed) (s₁ s : EventStream)
    (start : UserCursors), f₀.Initial ∧ Runs C f₀ f₁ ∧ f₁.streams 0 = some s₁ ∧
    s₁.phase = .fetching ∧ s₁.delivered = [] ∧ s₁.since = .perUser start ∧
    s₁.options.mode = .reverse ∧ Runs C f₁ f ∧ f.streams 0 = some s ∧
    f₁.rows.map EventRow.id = [1] ∧ s.delivered.map EventEntity.id = [1, 2] := by
  have hrun : (exec (Feed.next crates.toCrates) (fun _ _ => true) backlogStart
      (insertOne ++ [secondUser] ++ openReverse)).any fun f₁ =>
      f₁.rows.map EventRow.id = [1] && atFirstQuery f₁ fun _ =>
      (exec (Feed.next crates.toCrates) (fun _ _ => true) f₁
        ([.fetch 0 false, .guard 0 true] ++ insertSecond ++
          [.guard 0 true, .drain 0, .fetch 0 false, .guard 0 true])).any fun f =>
      (f.streams 0).any fun s => s.delivered.map EventEntity.id = [1, 2] := by
    decide +kernel
  obtain ⟨f₁, hf₁, h⟩ := (Option.any_eq_true _ _).1 hrun
  obtain ⟨hrows, h⟩ := Bool.and_eq_true_iff.1 h
  obtain ⟨s₁, start, hs₁, hphase, hfirst, hmode, hsince, h⟩ := atFirstQuery_sound h
  obtain ⟨f, hf, h⟩ := (Option.any_eq_true _ _).1 h
  obtain ⟨s, hs, hdelivered⟩ := (Option.any_eq_true _ _).1 h
  exact ⟨crates.toCrates, backlogStart, f₁, f, s₁, s, start, backlogStart_initial,
    .of_exec hf₁ fun _ _ _ => trivial, hs₁, hphase, hfirst, hsince, hmode,
    .of_exec hf fun _ _ _ => trivial, hs, of_decide_eq_true hrows, of_decide_eq_true hdelivered⟩

end Sample

end Pubky.Homeserver.Events

import Pubky.Homeserver.Events.Gaps

/-!
# The replay of a stream

The first phase of `stream_events`, in either direction and for either shape of cursor. Over a
table that does not change, what a stream has delivered followed by what lies ahead of its cursor
is all that it owes (`ReplayOk.accounts`): a query returns the first events ahead (`reads_of_fetch`),
and delivering the first of them moves the cursor just past it (`ahead_advance`).
-/

namespace Pubky.Homeserver.Events

open Broadcast Storage

variable {C : Crates} {users : List UserRow} {rows l : List EventRow} {reverse : Bool}
  {paths : List PathFilter} {c : StreamCursor} {r r' : EventRow} {e : EventEntity}

/-! ## The order of reading -/

theorem pastCursor_forward {m n : ℕ} : pastCursor false (some m) n = true ↔ m < n := by
  simp [pastCursor]

theorem pastCursor_reverse {m n : ℕ} : pastCursor true (some m) n = true ↔ n < m := by
  simp [pastCursor]

/-- What comes after an event that comes after the cursor comes after the cursor. -/
theorem pastCursor_trans {cursor : Option EventCursor} {m n : ℕ}
    (h : pastCursor reverse cursor m = true) (h' : pastCursor reverse (some m) n = true) :
    pastCursor reverse cursor n = true := by
  cases cursor with
  | none => rfl
  | some k =>
    cases reverse with
    | false => exact pastCursor_forward.2 ((pastCursor_forward.1 h).trans (pastCursor_forward.1 h'))
    | true => exact pastCursor_reverse.2 ((pastCursor_reverse.1 h').trans (pastCursor_reverse.1 h))

theorem pastCursor_ne {m n : ℕ} (h : pastCursor reverse (some m) n = true) : n ≠ m := by
  cases reverse with
  | false => exact Nat.ne_of_gt (pastCursor_forward.1 h)
  | true => exact Nat.ne_of_lt (pastCursor_reverse.1 h)

/-- Rows in the order of reading. -/
def Ordered (reverse : Bool) (rows : List EventRow) : Prop :=
  rows.Pairwise fun a b => pastCursor reverse (some a.id) b.id = true

theorem mem_orderById : r ∈ orderById reverse rows ↔ r ∈ rows :=
  List.mem_insertionSort _

theorem perm_orderById : (orderById reverse rows).Perm rows :=
  List.perm_insertionSort _ _

theorem ordered_orderById (hnodup : (rows.map EventRow.id).Nodup) :
    Ordered reverse (orderById reverse rows) := by
  have hle : (orderById reverse rows).Pairwise fun a b =>
      if reverse then b.id ≤ a.id else a.id ≤ b.id := by
    cases reverse
    · simpa [orderById] using List.pairwise_insertionSort (fun a b : EventRow => a.id ≤ b.id) rows
    · simpa [orderById] using List.pairwise_insertionSort (fun a b : EventRow => b.id ≤ a.id) rows
  have hne : (orderById reverse rows).Pairwise fun a b => a.id ≠ b.id :=
    List.pairwise_map.1 ((perm_orderById.map EventRow.id).nodup_iff.2 hnodup)
  refine (hle.and hne).imp fun {a b} h => ?_
  cases reverse with
  | false => exact pastCursor_forward.2 (Nat.lt_of_le_of_ne h.1 h.2)
  | true => exact pastCursor_reverse.2 (Nat.lt_of_le_of_ne h.1 h.2.symm)

/-- The same rows in the order of reading are the same list. -/
theorem Ordered.eq_of_perm {l' : List EventRow} (h : Ordered reverse l) (h' : Ordered reverse l')
    (hperm : l.Perm l') : l = l' := by
  refine hperm.eq_of_pairwise (fun a b _ _ hab hba => ?_) h h'
  exact absurd rfl (pastCursor_ne (pastCursor_trans hab hba))

theorem orderById_filter (hnodup : (rows.map EventRow.id).Nodup) (p : EventRow → Bool) :
    (orderById reverse rows).filter p = orderById reverse (rows.filter p) := by
  refine Ordered.eq_of_perm ((ordered_orderById hnodup).filter _) (ordered_orderById ?_)
    ((perm_orderById.filter p).trans perm_orderById.symm)
  exact hnodup.sublist (List.filter_sublist.map _)

/-! ## What lies ahead of a cursor -/

/-- The row is one of the stream's and comes after the cursor. -/
def StreamCursor.selects (reverse : Bool) (paths : List PathFilter) (r : EventRow) :
    StreamCursor → Bool
  | .perUser cursors => (cursors.lookup r.user).any fun cursor =>
      pastCursor reverse cursor r.id && pathsMatch paths r.path
  | .global last userIds => pastCursor reverse last r.id && pathsMatch paths r.path &&
      userIds.all fun ids => ids.contains r.user

/-- The committed events ahead of a cursor. -/
def StreamCursor.ahead (reverse : Bool) (paths : List PathFilter) (rows : List EventRow)
    (c : StreamCursor) : List EventRow :=
  orderById reverse (rows.filter fun r => c.selects reverse paths r)

theorem selects_perUser {cursors : UserCursors} :
    (StreamCursor.perUser cursors).selects reverse paths r = true ↔
      Selected cursors paths reverse r := by
  simp [StreamCursor.selects, Selected, Option.any_eq_true]

theorem mem_ahead : r ∈ c.ahead reverse paths rows ↔
    r ∈ rows ∧ c.selects reverse paths r = true := by
  rw [StreamCursor.ahead, mem_orderById, List.mem_filter]

theorem ordered_ahead (hasc : EventLog.Ascending rows) :
    Ordered reverse (c.ahead reverse paths rows) :=
  ordered_orderById (nodup_ids (hasc.filter _))

/-- A query returns the first events ahead of the cursor, up to its limit. -/
theorem reads_of_fetch (hasc : EventLog.Ascending rows) {limit : Option ℕ}
    {es : List EventEntity} (h : c.fetch C users rows limit reverse paths = .ok es) :
    List.Forall₂ (Reads C users)
      ((c.ahead reverse paths rows).take (effectiveListLimit limit)) es := by
  have hnone : (∀ r ∈ rows, c.selects reverse paths r = false) → c.ahead reverse paths rows = [] :=
    fun hall => List.eq_nil_iff_forall_not_mem.2 fun r hr => by
      obtain ⟨hr, hsel⟩ := mem_ahead.1 hr
      rw [hall r hr] at hsel
      cases hsel
  cases c with
  | perUser cursors =>
    simp only [StreamCursor.fetch, getByUserCursors] at h
    split at h
    · rename_i hempty
      cases h
      rw [hnone fun r hr => ?_, List.take_nil]
      · exact .nil
      · rw [Bool.eq_false_iff]
        intro hsel
        have hmem := mem_union_iff.2 ⟨hr, selects_perUser.1 hsel⟩
        rw [hempty] at hmem
        cases hmem
    · -- the union over the users, in another order
      have hsame : orderById reverse ((userCursors cursors).flatMap fun entry =>
          selectForUser rows reverse paths entry.1 entry.2) =
          (StreamCursor.perUser cursors).ahead reverse paths rows := by
        refine Ordered.eq_of_perm (ordered_orderById (nodup_union hasc)) (ordered_ahead hasc) ?_
        refine perm_orderById.trans (.trans ?_ perm_orderById.symm)
        refine (List.perm_ext_iff_of_nodup (List.Nodup.of_map _ (nodup_union hasc))
          (List.Nodup.of_map _ (nodup_ids (hasc.filter _)))).2 fun r => ?_
        rw [mem_union_iff, List.mem_filter, selects_perUser]
      rw [← hsame]
      exact forall₂_of_mapM h
  | global last userIds =>
    simp only [StreamCursor.fetch, getAllFilteredByCursor] at h
    split at h
    · rename_i hempty
      cases h
      rw [hnone fun r _ => by simp [StreamCursor.selects, hempty], List.take_nil]
      exact .nil
    · rw [pathsCondition_eq] at h
      exact forall₂_of_mapM h

/-- After the first event ahead of the cursor has been delivered, the others are ahead of it. -/
theorem selects_advance (hasc : EventLog.Ascending rows) {rest : List EventRow}
    (hahead : c.ahead reverse paths rows = r :: rest) (hread : Reads C users r e)
    (hr' : r' ∈ rows) :
    (c.advance e).selects reverse paths r' = (c.selects reverse paths r' && r'.id ≠ r.id) := by
  have hordered : Ordered reverse (c.ahead reverse paths rows) := ordered_ahead hasc
  rw [hahead] at hordered
  obtain ⟨hr, hsel⟩ := mem_ahead.1 (hahead ▸ List.mem_cons_self : r ∈ c.ahead reverse paths rows)
  -- of the selected events, the others come after the first one
  have hlater : c.selects reverse paths r' = true → r'.id ≠ r.id →
      pastCursor reverse (some r.id) r'.id = true := fun hsel' hne => by
    have hmem := mem_ahead.2 ⟨hr', hsel'⟩
    rw [hahead] at hmem
    rcases List.mem_cons.1 hmem with rfl | hmem
    · exact absurd rfl hne
    · exact (List.pairwise_cons.1 hordered).1 r' hmem
  rw [Bool.eq_iff_iff, Bool.and_eq_true, decide_eq_true_eq]
  cases c with
  | perUser cursors =>
    rw [selects_perUser] at hsel
    obtain ⟨cursor, hlookup, hpast, -⟩ := hsel
    simp only [StreamCursor.advance]
    rw [selects_perUser] at hlater ⊢
    by_cases huser : r'.user = r.user
    · have hinsert : (cursors.insert e.userId (some e.cursor)).lookup r'.user =
          some (some r.id) := by
        rw [huser, ← hread.userId, AList.lookup_insert, EventEntity.cursor, hread.id]
      constructor
      · rintro ⟨cursor', hcursor', hpast', hpath⟩
        cases hinsert.symm.trans hcursor'
        have hpast := pastCursor_trans hpast hpast'
        exact ⟨selects_perUser.2 ⟨cursor, by rw [huser, hlookup], hpast, hpath⟩,
          pastCursor_ne hpast'⟩
      · rintro ⟨hsel', hne⟩
        have hsel' := selects_perUser.1 hsel'
        exact ⟨some r.id, hinsert, hlater hsel' hne, hsel'.choose_spec.2.2⟩
    · have hinsert : (cursors.insert e.userId (some e.cursor)).lookup r'.user =
          cursors.lookup r'.user :=
        AList.lookup_insert_ne (by rw [hread.userId]; exact huser)
      have hne : r'.id ≠ r.id := fun hid => huser (by rw [eq_of_id_eq hasc hr' hr hid])
      rw [selects_perUser, Selected, hinsert]
      exact ⟨fun h => ⟨h, hne⟩, And.left⟩
  | global last userIds =>
    simp only [StreamCursor.advance, StreamCursor.selects, Bool.and_eq_true] at hsel hlater ⊢
    rw [EventEntity.cursor, hread.id]
    constructor
    · rintro ⟨⟨hpast, hpath⟩, hids⟩
      exact ⟨⟨⟨pastCursor_trans hsel.1.1 hpast, hpath⟩, hids⟩, pastCursor_ne hpast⟩
    · rintro ⟨⟨⟨hpast, hpath⟩, hids⟩, hne⟩
      exact ⟨⟨hlater ⟨⟨hpast, hpath⟩, hids⟩ hne, hpath⟩, hids⟩

theorem ahead_advance (hasc : EventLog.Ascending rows) {rest : List EventRow}
    (hahead : c.ahead reverse paths rows = r :: rest) (hread : Reads C users r e) :
    (c.advance e).ahead reverse paths rows = rest := by
  have hordered : Ordered reverse (c.ahead reverse paths rows) := ordered_ahead hasc
  rw [hahead] at hordered
  calc (c.advance e).ahead reverse paths rows
      = orderById reverse ((rows.filter fun r' => c.selects reverse paths r').filter
          fun r' => r'.id ≠ r.id) := by
        rw [StreamCursor.ahead, List.filter_filter]
        congr 1
        refine List.filter_congr fun r' hr' => ?_
        rw [selects_advance hasc hahead hread hr', Bool.and_comm]
    _ = (r :: rest).filter fun r' => r'.id ≠ r.id := by
        rw [← orderById_filter (nodup_ids (hasc.filter _)), ← hahead, StreamCursor.ahead]
    _ = rest := by
        rw [List.filter_cons_of_neg (by simp), List.filter_eq_self]
        intro r' hr'
        exact decide_eq_true (pastCursor_ne ((List.pairwise_cons.1 hordered).1 r' hr'))

/-! ## Accounting -/

namespace EventStream

/-- The events among `rows` that are ahead of the stream. -/
def ahead (s : EventStream) (rows : List EventRow) : List EventRow :=
  s.cursor.ahead s.options.mode.isReverse s.options.paths rows

/-- The events among `rows` that the stream was opened for. -/
def owes (s : EventStream) (rows : List EventRow) : List EventRow :=
  s.since.ahead s.options.mode.isReverse s.options.paths rows

end EventStream

/-- What a stream without a live tail keeps true over the rows that it replays. -/
structure ReplayOk (C : Crates) (users : List UserRow) (rows : List EventRow) (s : EventStream) :
    Prop where
  accounts : s.delivered.map EventEntity.id ++ (s.ahead rows).map EventRow.id =
    (s.owes rows).map EventRow.id
  reads : ∀ e ∈ s.delivered, ∃ r ∈ rows, Reads C users r e
  batch : ∀ event rest, s.phase = .sending event rest →
    ∃ n, List.Forall₂ (Reads C users) ((s.ahead rows).take n) (event :: rest)
  replaying : s.phase ≠ .tailing

variable {s s' : EventStream}

theorem ReplayOk.opened (rows : List EventRow) (cursor : StreamCursor) (options : StreamOptions)
    (position : ℕ) : ReplayOk C users rows (.start cursor options position) where
  accounts := List.nil_append _
  reads := fun _ he => absurd he List.not_mem_nil
  batch := fun _ _ h => StreamPhase.noConfusion h
  replaying := StreamPhase.noConfusion

theorem ReplayOk.mono_users {users' : List UserRow} (h : ReplayOk C users rows s)
    (hle : ∀ u ∈ users, u ∈ users') : ReplayOk C users' rows s where
  accounts := h.accounts
  reads := fun e he => by
    obtain ⟨r, hr, hread⟩ := h.reads e he
    exact ⟨r, hr, hread.mono hle⟩
  batch := fun event rest hphase => by
    obtain ⟨n, hbatch⟩ := h.batch event rest hphase
    exact ⟨n, hbatch.imp fun _ _ hread => hread.mono hle⟩
  replaying := h.replaying

/-- A change of phase and position that takes up no batch. -/
theorem ReplayOk.withPhase (h : ReplayOk C users rows s) {position : ℕ} {phase : StreamPhase}
    (hbatch : ∀ event rest, phase ≠ .sending event rest) (htail : phase ≠ .tailing) :
    ReplayOk C users rows { s with position := position, phase := phase } where
  accounts := h.accounts
  reads := h.reads
  batch := fun event rest hphase => absurd hphase (hbatch event rest)
  replaying := htail

theorem ReplayOk.ended (h : ReplayOk C users rows s) :
    ReplayOk C users rows { s with phase := .ended } :=
  ⟨h.accounts, h.reads, nofun, nofun⟩

/-- The first event of a batch is the first one ahead of the stream. -/
theorem ReplayOk.first (h : ReplayOk C users rows s) {rest : List EventEntity}
    (hphase : s.phase = .sending e rest) :
    ∃ r later n, s.ahead rows = r :: later ∧ Reads C users r e ∧
      List.Forall₂ (Reads C users) (later.take n) rest := by
  obtain ⟨n, hbatch⟩ := h.batch e rest hphase
  cases hahead : s.ahead rows with
  | nil =>
    rw [hahead, List.take_nil] at hbatch
    cases hbatch
  | cons r later =>
    cases n with
    | zero =>
      rw [List.take_zero] at hbatch
      cases hbatch
    | succ n =>
      rw [hahead, List.take_succ_cons] at hbatch
      obtain ⟨hread, hrest⟩ := List.forall₂_cons.1 hbatch
      exact ⟨r, later, n, rfl, hread, hrest⟩

theorem ReplayOk.deliver (h : ReplayOk C users rows s) (hasc : EventLog.Ascending rows)
    {rest : List EventEntity} {next : StreamPhase}
    (hnext : next = match rest with
      | [] => .checking
      | event :: rest => .sending event rest)
    (hphase : s.phase = .sending e rest) : ReplayOk C users rows (s.deliver e next) := by
  subst hnext
  obtain ⟨r, later, n, hahead, hread, hrest⟩ := h.first hphase
  have hlater : (s.cursor.advance e).ahead s.options.mode.isReverse s.options.paths rows = later :=
    ahead_advance hasc hahead hread
  refine ⟨?_, fun e' he' => ?_, fun event rest' hsending => ?_, ?_⟩
  · have haccounts := h.accounts
    simp only [EventStream.ahead, EventStream.owes, EventStream.deliver] at haccounts ⊢
    rw [hlater, List.map_append, List.map_singleton, hread.id, List.append_assoc,
      List.singleton_append]
    rw [show s.cursor.ahead _ _ rows = _ from hahead] at haccounts
    exact haccounts
  · rcases List.mem_append.1 he' with he' | he'
    · exact h.reads e' he'
    · rw [List.mem_singleton.1 he']
      have hmem : r ∈ s.ahead rows := hahead ▸ List.mem_cons_self
      exact ⟨r, (mem_ahead.1 hmem).1, hread⟩
  · simp only [EventStream.deliver] at hsending
    split at hsending
    · cases hsending
    · cases rest with
      | nil => cases hsending
      | cons event' rest =>
        cases hsending
        refine ⟨n, ?_⟩
        simp only [EventStream.ahead, EventStream.deliver]
        rw [hlater]
        exact hrest
  · simp only [EventStream.deliver]
    split
    · nofun
    · cases rest <;> nofun

theorem ReplayOk.guarded (h : ReplayOk C users rows s) (hasc : EventLog.Ascending rows)
    {valid : Bool} (hs : s.guarded valid = some s') : ReplayOk C users rows s' := by
  unfold EventStream.guarded at hs
  split at hs
  · cases hs
    cases valid with
    | true => exact ⟨h.accounts, h.reads, nofun, nofun⟩
    | false => exact h.ended
  · rename_i hphase
    cases valid with
    | true =>
      cases hs
      exact h.deliver hasc rfl hphase
    | false =>
      cases hs
      exact h.ended
  · rename_i hphase
    exact absurd hphase h.replaying
  all_goals cases hs

theorem ReplayOk.drained (h : ReplayOk C users rows s) {r : Received EventEntity × ℕ}
    (hs : s.drained r = some s') : ReplayOk C users rows s' := by
  unfold EventStream.drained at hs
  split at hs
  · cases hs
    cases hr : r.1 with
    | value event => exact h.withPhase nofun nofun
    | empty => exact h.withPhase nofun nofun
    | lagged => exact h.withPhase nofun nofun
    | closed => exact h.withPhase nofun nofun
  · cases hs

/-- A query that finds what is ahead among `rows`, or that fails. -/
theorem ReplayOk.fetched (h : ReplayOk C users rows s) (hlive : s.options.mode.isLive = false)
    {answer : Except SqlError (List EventEntity)}
    (hanswer : ∀ es, answer = .ok es →
      ∃ n, List.Forall₂ (Reads C users) ((s.ahead rows).take n) es)
    (hs : s.fetched answer = some s') : ReplayOk C users rows s' := by
  have hleave : ReplayOk C users rows s.leaveReplay := by
    rw [EventStream.leaveReplay, hlive]
    exact h.ended
  unfold EventStream.fetched at hs
  split at hs
  · cases hs
    split
    · exact hleave
    · exact hleave
    · rename_i event rest
      obtain ⟨n, hbatch⟩ := hanswer _ rfl
      refine ⟨h.accounts, h.reads, fun event' rest' hsending => ?_, nofun⟩
      cases hsending
      exact ⟨n, hbatch⟩
  · cases hs

/-! ## Steps of the feed -/

variable {f f' : Feed} {a : Action} {i : ℕ}

/-- A step of the stream, if it sees what is ahead of it among `rows`. -/
theorem ReplayOk.moves (h : ReplayOk C f.users rows s) (hasc : EventLog.Ascending rows)
    (hok : f.Ok C) (hlive : s.options.mode.isLive = false)
    (hsees : ∀ fails, a = .fetch i fails → s.ahead f.rows = s.ahead rows)
    (hmove : f.Moves C i s a s') : ReplayOk C f.users rows s' := by
  cases hmove with
  | guard valid _ hs => exact h.guarded hasc hs
  | drain _ hs => exact h.drained hs
  | fetch fails _ hs =>
    refine h.fetched hlive (fun es hes => ?_) hs
    cases fails with
    | true => cases hes
    | false =>
      have hbatch := reads_of_fetch hok.log.ascending hes
      rw [← hsees false rfl]
      exact ⟨_, hbatch⟩
  | receive _ hs =>
    unfold EventStream.received at hs
    split at hs
    · rename_i hphase
      exact absurd hphase h.replaying
    · cases hs

/-- What a step does to an open stream: it is a step of the stream, or it leaves it alone. -/
theorem Feed.Change.stream_cases (hc : f.Change C a f') (hs : f.streams i = some s) :
    (∃ s', f.Moves C i s a s' ∧
      f' = { f with streams := Function.update f.streams i (some s') }) ∨
    f'.streams i = some s ∧ ∀ u ∈ f.users, u ∈ f'.users := by
  cases hc with
  | signUp row hnew => exact .inr ⟨hs, fun u hu => List.mem_append_left _ hu⟩
  | statement st log hlog => exact .inr ⟨hs, fun _ hu => hu⟩
  | wake => exact .inr ⟨hs, fun _ hu => hu⟩
  | query batches fails =>
    unfold Feed.pollQuery
    split <;> exact .inr ⟨hs, fun _ hu => hu⟩
  | broadcast => exact .inr ⟨hs, fun _ hu => hu⟩
  | endBatch => exact .inr ⟨hs, fun _ hu => hu⟩
  | rest => exact .inr ⟨hs, fun _ hu => hu⟩
  | subscribe j cursor options hnone =>
    have hne : i ≠ j := by
      rintro rfl
      rw [hnone] at hs
      cases hs
    exact .inr ⟨(Function.update_of_ne hne ..).trans hs, fun _ hu => hu⟩
  | stream _ j t t' ht hmove =>
    by_cases hij : i = j
    · subst hij
      cases ht.symm.trans hs
      exact .inl ⟨t', hmove, rfl⟩
    · exact .inr ⟨(Function.update_of_ne hij ..).trans hs, fun _ hu => hu⟩

/-- A stream that was not there before has just been opened. -/
theorem Feed.Change.start_of_none (hc : f.Change C a f') (hs : f.streams i = none)
    (hs' : f'.streams i = some s) :
    ∃ cursor options position, s = .start cursor options position := by
  cases hc with
  | subscribe j cursor options hnone =>
    by_cases hij : i = j
    · subst hij
      simp only [Function.update_self, Option.some.injEq] at hs'
      exact ⟨cursor, options, _, hs'.symm⟩
    · simp only [Function.update_of_ne hij, hs] at hs'
      cases hs'
  | stream _ j t t' ht hmove =>
    have hij : i ≠ j := by
      rintro rfl
      rw [hs] at ht
      cases ht
    simp only [Function.update_of_ne hij, hs] at hs'
    cases hs'
  | query batches fails =>
    unfold Feed.pollQuery at hs'
    split at hs' <;> exact absurd (hs.symm.trans hs') nofun
  | _ => exact absurd (hs.symm.trans hs') nofun

/-- Commits append to the rows, and nothing else changes them. -/
theorem Feed.Change.rows_append (hok : f.Ok C) (hc : f.Change C a f') :
    ∃ news, f'.rows = f.rows ++ news ∧ ((∀ st, a ≠ .statement st) → news = []) := by
  have hsame : ∀ g : Feed, g.rows = f.rows →
      ∃ news, g.rows = f.rows ++ news ∧ ((∀ st, a ≠ .statement st) → news = []) := fun g hg =>
    ⟨[], by rw [hg, List.append_nil], fun _ => rfl⟩
  cases hc with
  | statement st log hlog =>
    obtain ⟨-, news, hnews⟩ := hok.log.next hlog
    exact ⟨news, hnews, fun h => absurd rfl (h st)⟩
  | query batches fails =>
    refine hsame _ ?_
    unfold Feed.pollQuery
    split <;> rfl
  | _ => exact hsame _ rfl

/-- What is true of every new stream and kept by its steps is true of the streams of a run. -/
theorem Runs.stream_invariant {P : EventStream → Prop} {f₀ : Feed} (h : Runs C f₀ f)
    (h₀ : f₀.Initial) (hstart : ∀ cursor options position, P (.start cursor options position))
    (hnext : ∀ s x s', P s → s.next x = some s' → P s') (hs : f.streams i = some s) : P s := by
  have hall : ∀ i s, f.streams i = some s → P s := by
    refine Transitions.Reaches.invariant (I := fun t => ∀ i s, t.streams i = some s → P s) h
      (fun i s hs => ?_) fun t a t' ht _ hstep i s' hs' => ?_
    · rw [h₀.noStreams i] at hs
      cases hs
    have hc := Feed.next_cases hstep
    cases hs : t.streams i with
    | some s =>
      rcases hc.stream_cases hs with ⟨s₂, hmove, rfl⟩ | ⟨hsame, -⟩
      · obtain ⟨x, hx⟩ := hmove.exists_next
        have heq : s₂ = s' := by simpa only [Function.update_self, Option.some.injEq] using hs'
        exact heq ▸ hnext s x s₂ (ht i s hs) hx
      · exact ht i s' (hs.trans (hsame.symm.trans hs'))
    | none =>
      obtain ⟨cursor, options, position, rfl⟩ := hc.start_of_none hs hs'
      exact hstart cursor options position
  exact hall i s hs

end Pubky.Homeserver.Events

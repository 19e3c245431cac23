import Pubky.Homeserver.Events.Feed
import Pubky.Homeserver.Storage.Sample

/-!
# What the listener broadcasts

The listener broadcasts the committed events in the order of their ids. Between two steps every
event that was committed with an id up to the last broadcast one has been broadcast
(`ListenerOk.covered`): a commit cannot slip an event below that id, because commits append to
the log.
-/

namespace Pubky.Homeserver.Events

open Broadcast Storage

variable {C : Crates} {users : List UserRow} {rows asked : List EventRow}
  {sent rest : List EventEntity} {l : Listener} {last : ℕ} {f f' : Feed} {a : Action}

/-- The events of a batch are the next ones after the last broadcast id. -/
structure Upcoming (C : Crates) (users : List UserRow) (rows : List EventRow) (last : ℕ)
    (rest : List EventEntity) : Prop where
  reads : ∀ e ∈ rest, last < e.id ∧ ∃ r ∈ rows, Reads C users r e
  ascending : rest.Pairwise fun a b => a.id < b.id
  first : ∀ r ∈ rows, last < r.id → (∃ e ∈ rest, e.id = r.id) ∨ ∀ e ∈ rest, e.id < r.id

/-- What holds in each phase of a poll. -/
def PollOk (C : Crates) (users : List UserRow) (rows asked : List EventRow) (last : ℕ) :
    PollPhase → Prop
  | .waiting | .querying _ => True
  | .broadcasting _ rest isFullBatch => Upcoming C users rows last rest ∧
      (isFullBatch = false → ∀ r ∈ asked, last < r.id → ∃ e ∈ rest, e.id = r.id)
  | .returned .caughtUp => ∀ r ∈ asked, r.id ≤ last
  | .returned .capReached | .returned .failed => True

structure ListenerOk (C : Crates) (users : List UserRow) (rows : List EventRow) (l : Listener)
    (sent : List EventEntity) : Prop where
  start_le : l.startId ≤ l.lastBroadcastId
  last_mem : l.lastBroadcastId = 0 ∨ ∃ r ∈ rows, r.id = l.lastBroadcastId
  ascending : sent.Pairwise fun a b => a.id < b.id
  reads : ∀ e ∈ sent, e.id ≤ l.lastBroadcastId ∧ ∃ r ∈ rows, Reads C users r e
  covered : ∀ r ∈ rows, l.startId < r.id → r.id ≤ l.lastBroadcastId →
    ∃ e ∈ sent, Reads C users r e
  asked : ∀ r ∈ l.asked, r ∈ rows
  phase : PollOk C users rows l.asked l.lastBroadcastId l.phase

def Feed.ListenerOk (C : Crates) (f : Feed) : Prop :=
  Events.ListenerOk C f.users f.rows f.listener f.channel.sent

/-! ## Growth of the tables -/

theorem Reads.mono {r : EventRow} {e : EventEntity} {users' : List UserRow}
    (h : Reads C users r e) (hle : ∀ u ∈ users, u ∈ users') : Reads C users' r e :=
  { h with user := let ⟨u, hu, h⟩ := h.user; ⟨u, hle u hu, h⟩ }

theorem eq_of_id_eq (hasc : EventLog.Ascending rows) {r r' : EventRow} (hr : r ∈ rows)
    (hr' : r' ∈ rows) (h : r.id = r'.id) : r = r' :=
  List.inj_on_of_nodup_map (nodup_ids hasc) hr hr' h

theorem Upcoming.mono_users {users' : List UserRow} (h : Upcoming C users rows last rest)
    (hle : ∀ u ∈ users, u ∈ users') : Upcoming C users' rows last rest := by
  refine { h with reads := fun e he => ?_ }
  obtain ⟨hlt, r, hr, hreads⟩ := h.reads e he
  exact ⟨hlt, r, hr, hreads.mono hle⟩

/-- New rows come after the events of the batch. -/
theorem Upcoming.append {news : List EventRow} (h : Upcoming C users rows last rest)
    (hnew : ∀ r ∈ news, ∀ old ∈ rows, old.id < r.id) :
    Upcoming C users (rows ++ news) last rest := by
  refine { h with reads := fun e he => ?_, first := fun r hr hlt => ?_ }
  · obtain ⟨hlt, r, hr, hreads⟩ := h.reads e he
    exact ⟨hlt, r, List.mem_append_left _ hr, hreads⟩
  · rcases List.mem_append.1 hr with hr | hr
    · exact h.first r hr hlt
    · refine .inr fun e he => ?_
      obtain ⟨-, old, hold, hreads⟩ := h.reads e he
      rw [hreads.id]
      exact hnew r hr old hold

/-- Only the events of a batch depend on the tables. -/
theorem PollOk.imp {users' : List UserRow} {rows' : List EventRow} {phase : PollPhase}
    (h : PollOk C users rows asked last phase)
    (himp : ∀ rest, Upcoming C users rows last rest → Upcoming C users' rows' last rest) :
    PollOk C users' rows' asked last phase := by
  cases phase with
  | waiting => trivial
  | querying batches => trivial
  | broadcasting batches rest full => exact ⟨himp rest h.1, h.2⟩
  | returned outcome => cases outcome <;> exact h

theorem ListenerOk.mono_users {users' : List UserRow} (h : ListenerOk C users rows l sent)
    (hle : ∀ u ∈ users, u ∈ users') : ListenerOk C users' rows l sent := by
  refine { h with reads := fun e he => ?_, covered := fun r hr hs hl => ?_,
                  phase := h.phase.imp fun _ hup => hup.mono_users hle }
  · obtain ⟨hle', r, hr, hreads⟩ := h.reads e he
    exact ⟨hle', r, hr, hreads.mono hle⟩
  · obtain ⟨e, he, hreads⟩ := h.covered r hr hs hl
    exact ⟨e, he, hreads.mono hle⟩

/-- New rows come after everything that was broadcast or is about to be. -/
theorem ListenerOk.append {news : List EventRow} (h : ListenerOk C users rows l sent)
    (hasc : EventLog.Ascending (rows ++ news)) (hpos : ∀ r ∈ rows ++ news, 0 < r.id) :
    ListenerOk C users (rows ++ news) l sent := by
  have hnew : ∀ r ∈ news, ∀ old ∈ rows, old.id < r.id := fun r hr old hold =>
    (List.pairwise_append.1 hasc).2.2 old hold r hr
  have hlast : ∀ r ∈ news, l.lastBroadcastId < r.id := by
    intro r hr
    rcases h.last_mem with hzero | ⟨old, hold, hid⟩
    · rw [hzero]
      exact hpos r (List.mem_append_right _ hr)
    · rw [← hid]
      exact hnew r hr old hold
  have hmem : ∀ r ∈ rows, r ∈ rows ++ news := fun r hr => List.mem_append_left _ hr
  refine ⟨h.start_le, ?_, h.ascending, fun e he => ?_, fun r hr hs hl => ?_,
    fun r hr => hmem r (h.asked r hr), h.phase.imp fun _ hup => hup.append hnew⟩
  · exact h.last_mem.imp_right fun ⟨r, hr, hid⟩ => ⟨r, hmem r hr, hid⟩
  · obtain ⟨hle, r, hr, hreads⟩ := h.reads e he
    exact ⟨hle, r, hmem r hr, hreads⟩
  · rcases List.mem_append.1 hr with hr | hr
    · exact h.covered r hr hs hl
    · exact absurd (hlast r hr) (Nat.not_lt.2 hl)

/-! ## Steps of the listener -/

theorem Feed.ListenerOk.withPhase (h : f.ListenerOk C) {phase : PollPhase}
    (hphase : PollOk C f.users f.rows f.listener.asked f.listener.lastBroadcastId phase) :
    (f.poll phase).ListenerOk C :=
  ⟨h.start_le, h.last_mem, h.ascending, h.reads, h.covered, h.asked, hphase⟩

theorem Feed.ListenerOk.query (h : f.ListenerOk C) (hasc : EventLog.Ascending f.rows)
    (batches : ℕ) (fails : Bool) : (f.pollQuery C batches fails).ListenerOk C := by
  unfold Feed.pollQuery
  cases hquery : Events.query fails (getByCursor C f.users f.rows
      (some f.listener.lastBroadcastId) (some batchSize) .all) with
  | error e => exact h.withPhase trivial
  | ok events =>
    have hbatch : Batch C f.users f.rows (fun r => f.listener.lastBroadcastId < r.id)
        (some batchSize) events := by
      cases fails with
      | true => cases hquery
      | false => exact getByCursor_all hasc hquery
    have hsize : effectiveListLimit (some batchSize) = batchSize := by decide
    refine ⟨h.start_le, h.last_mem, h.ascending, h.reads, h.covered, fun r hr => hr, ?_⟩
    by_cases hempty : events = []
    · -- an empty batch: there is nothing after the last broadcast id
      simp only [Feed.withListener, hempty, if_true]
      intro r hr
      by_contra hlt
      obtain ⟨e, he, -⟩ := hbatch.complete (by rw [hempty]; decide) r hr (Nat.lt_of_not_le hlt)
      rw [hempty] at he
      exact absurd he List.not_mem_nil
    · simp only [Feed.withListener, hempty, if_false]
      refine ⟨⟨fun e he => ?_, hbatch.ascending, hbatch.first⟩, fun hfull => ?_⟩
      · obtain ⟨r, hr, hlt, hreads⟩ := hbatch.reads e he
        exact ⟨by rw [hreads.id]; exact hlt, r, hr, hreads⟩
      · refine hbatch.complete ?_
        have hle := hbatch.length_le
        rw [hsize] at hle ⊢
        exact Nat.lt_of_le_of_ne hle (of_decide_eq_false hfull)

/-- Broadcasting the next event leaves nothing behind. -/
theorem Feed.ListenerOk.broadcast (h : f.ListenerOk C) (hasc : EventLog.Ascending f.rows)
    {batches : ℕ} {event : EventEntity} {rest : List EventEntity} {full : Bool}
    (hphase : f.listener.phase = .broadcasting batches (event :: rest) full) :
    (f.pollBroadcast batches event rest full).ListenerOk C := by
  have hpoll := h.phase
  rw [hphase] at hpoll
  obtain ⟨hup, hfull⟩ := hpoll
  obtain ⟨hlast, row, hrow, hreads⟩ := hup.reads event (List.mem_cons_self ..)
  obtain ⟨hnext, hrest⟩ := List.pairwise_cons.1 hup.ascending
  -- what is after this event is not this event
  have htail : ∀ {r : EventRow}, event.id < r.id → (∃ e ∈ event :: rest, e.id = r.id) →
      ∃ e ∈ rest, e.id = r.id := by
    rintro r hlt ⟨e, he, hid⟩
    rcases List.mem_cons.1 he with rfl | he
    · exact absurd hid (Nat.ne_of_lt hlt)
    · exact ⟨e, he, hid⟩
  refine ⟨Nat.le_of_lt (Nat.lt_of_le_of_lt h.start_le hlast), .inr ⟨row, hrow, hreads.id.symm⟩,
    ?_, fun e he => ?_, fun r hr hs hl => ?_, h.asked, ⟨⟨fun e he => ?_, hrest, fun r hr hlt => ?_⟩,
    fun hf r hr hlt => ?_⟩⟩
  · refine List.pairwise_append.2 ⟨h.ascending, List.pairwise_singleton _ _, fun e he e' he' => ?_⟩
    rw [List.mem_singleton.1 he']
    exact Nat.lt_of_le_of_lt (h.reads e he).1 hlast
  · rcases List.mem_append.1 he with he | he
    · exact ⟨Nat.le_of_lt (Nat.lt_of_le_of_lt (h.reads e he).1 hlast), (h.reads e he).2⟩
    · rw [List.mem_singleton.1 he]
      exact ⟨Nat.le_refl _, row, hrow, hreads⟩
  · by_cases hold : r.id ≤ f.listener.lastBroadcastId
    · obtain ⟨e, he, hreads⟩ := h.covered r hr hs hold
      exact ⟨e, List.mem_append_left _ he, hreads⟩
    · -- the first event after the last broadcast id is this one
      refine ⟨event, List.mem_append_right _ (List.mem_singleton_self _), ?_⟩
      have hid : row.id = r.id := by
        rw [← hreads.id]
        rcases hup.first r hr (Nat.lt_of_not_le hold) with ⟨e, he, hid⟩ | hall
        · rcases List.mem_cons.1 he with rfl | he
          · exact hid
          · exact absurd (Nat.lt_of_lt_of_le (hnext e he) (hid ▸ hl)) (Nat.lt_irrefl _)
        · exact absurd (hall event (List.mem_cons_self ..)) (Nat.not_lt.2 hl)
      rwa [← eq_of_id_eq hasc hrow hr hid]
  · exact ⟨hnext e he, (hup.reads e (List.mem_cons_of_mem _ he)).2⟩
  · rcases hup.first r hr (Nat.lt_trans hlast hlt) with hfound | hall
    · exact .inl (htail hlt hfound)
    · exact .inr fun e he => hall e (List.mem_cons_of_mem _ he)
  · exact htail hlt (hfull hf r hr (Nat.lt_trans hlast hlt))

theorem Feed.ListenerOk.endBatch (h : f.ListenerOk C) {batches : ℕ} {full : Bool}
    (hphase : f.listener.phase = .broadcasting batches [] full) :
    (f.poll (Feed.afterBatch batches full)).ListenerOk C := by
  refine h.withPhase ?_
  have hpoll := h.phase
  rw [hphase] at hpoll
  cases full with
  | true =>
    simp only [Feed.afterBatch, Bool.not_true, Bool.false_eq_true, if_false]
    split <;> trivial
  | false =>
    intro r hr
    by_contra hlt
    obtain ⟨e, he, -⟩ := hpoll.2 rfl r hr (Nat.lt_of_not_le hlt)
    exact absurd he List.not_mem_nil

/-! ## Runs -/

/-- The log is in order and the listener has left nothing behind. -/
structure Feed.Ok (C : Crates) (f : Feed) : Prop where
  log : f.log.Ok
  listener : f.ListenerOk C

theorem Feed.Ok.change (h : f.Ok C) (hc : f.Change C a f') : f'.Ok C := by
  cases hc with
  | signUp row hnew =>
    exact ⟨h.log, h.listener.mono_users fun u hu => List.mem_append_left _ hu⟩
  | statement st log hlog =>
    obtain ⟨hok, news, hnews⟩ := h.log.next hlog
    refine ⟨hok, ?_⟩
    have hrows := h.listener.append (hnews ▸ hok.ascending) fun r hr =>
      (hok.range r (hnews ▸ hr)).1
    change Events.ListenerOk C f.users log.rows f.listener f.channel.sent
    rw [hnews]
    exact hrows
  | wake => exact ⟨h.log, h.listener.withPhase trivial⟩
  | query batches fails =>
    refine ⟨?_, h.listener.query h.log.ascending batches fails⟩
    unfold Feed.pollQuery
    split <;> exact h.log
  | broadcast batches event rest full hphase =>
    exact ⟨h.log, h.listener.broadcast h.log.ascending hphase⟩
  | endBatch batches full hphase => exact ⟨h.log, h.listener.endBatch hphase⟩
  | rest => exact ⟨h.log, h.listener.withPhase trivial⟩
  | subscribe => exact ⟨h.log, h.listener⟩
  | stream => exact ⟨h.log, h.listener⟩

theorem getMaxId_mem (rows : List EventRow) :
    getMaxId rows = 0 ∨ ∃ r ∈ rows, r.id = getMaxId rows := by
  induction rows with
  | nil => exact .inl rfl
  | cons r rows ih =>
    have hmax : getMaxId (r :: rows) = max r.id (getMaxId rows) := rfl
    rcases Nat.le_total r.id (getMaxId rows) with hle | hle
    · rw [hmax, Nat.max_eq_right hle]
      exact ih.imp_right fun ⟨r', hr', hid⟩ => ⟨r', List.mem_cons_of_mem _ hr', hid⟩
    · rw [hmax, Nat.max_eq_left hle]
      exact .inr ⟨r, List.mem_cons_self .., rfl⟩

theorem Feed.Initial.ok (h : f.Initial) : f.Ok C := by
  refine ⟨h.log, ?_⟩
  unfold Feed.ListenerOk
  rw [h.listener, h.nothingSent]
  exact
    { start_le := Nat.le_refl _
      last_mem := getMaxId_mem f.rows
      ascending := .nil
      reads := fun e he => absurd he List.not_mem_nil
      covered := fun r _ hs hl => absurd hs (Nat.not_lt.2 hl)
      asked := fun _ hr => hr
      phase := trivial }

theorem Runs.ok {f₀ : Feed} (h : Runs C f₀ f) (h₀ : f₀.Initial) : f.Ok C :=
  Transitions.Reaches.invariant h h₀.ok fun _ _ _ hok _ hnext => hok.change (Feed.next_cases hnext)

/-- In every run the events are broadcast in ascending order without a gap, and a poll that ends
with a batch that was not full has broadcast everything that its last query could see. -/
theorem broadcast_in_order {f₀ : Feed} (h₀ : f₀.Initial) (h : Runs C f₀ f) :
    (f.channel.sent.Pairwise fun a b => a.id < b.id) ∧
    (∀ e ∈ f.channel.sent, ∀ r ∈ f.rows, f.listener.startId < r.id → r.id ≤ e.id →
      ∃ e' ∈ f.channel.sent, Reads C f.users r e') ∧
    (f.listener.phase = .returned .caughtUp → ∀ r ∈ f.listener.asked,
      f.listener.startId < r.id → ∃ e ∈ f.channel.sent, Reads C f.users r e) := by
  have hok := (h.ok h₀).listener
  refine ⟨hok.ascending, fun e he r hr hs hle => ?_, fun hphase r hr hs => ?_⟩
  · exact hok.covered r hr hs (Nat.le_trans hle (hok.reads e he).1)
  · have hpoll := hok.phase
    rw [hphase] at hpoll
    exact hok.covered r (hok.asked r hr) hs (hpoll r hr)

/-! ## A sample -/

section Sample

open Storage.Sample Transitions

def backlogPath : StoragePath := ⟨"/pub/backlog".toList, by decide⟩

/-- The deletion of one file of one user, with id `k`. -/
def backlogRow (k : ℕ) : EventRow := EventType.delete.toRow k 0 backlogPath.asStr

/-- The events `1` to `n`. -/
def backlog (n : ℕ) : List EventRow := (List.range' 1 n).map backlogRow

def backlogEntity (k : ℕ) : EventEntity := ⟨k, 0, alice, .delete, ⟨alice, backlogPath⟩⟩

def backlogUser : UserRow := ⟨0, crates.z32 alice, false, 0, unlimited⟩

/-- A homeserver with one user and no event. -/
def backlogStart : Feed where
  users := [backlogUser]
  log := .empty
  listener := .start []
  channel := ⟨[], 1024, false⟩
  streams _ := none

theorem backlogStart_initial : backlogStart.Initial where
  log := EventLog.empty_ok
  listener := rfl
  nothingSent := rfl
  noStreams := fun _ => rfl
  userIds := List.pairwise_singleton _ _

/-- A transaction inserts two events, and a poll broadcasts them. -/
def twoEvents : List Action :=
  [.statement (.lock 0), .statement (.insert 0 0 .delete backlogPath.asStr),
    .statement (.insert 0 0 .delete backlogPath.asStr), .statement (.commit 0), .wake,
    .query false, .broadcast, .broadcast, .endBatch]

theorem broadcast_in_order_two : ∃ f, Runs crates.toCrates backlogStart f ∧
    f.listener.asked.map EventRow.id = [1, 2] ∧ ∀ r ∈ f.listener.asked,
      f.listener.startId < r.id → ∃ e ∈ f.channel.sent, Reads crates.toCrates f.users r e := by
  have hrun : (exec (Feed.next crates.toCrates) (fun _ _ => true) backlogStart twoEvents).any
      fun f => f.listener.phase = .returned .caughtUp && f.listener.asked.map EventRow.id = [1, 2] := by
    decide +kernel
  obtain ⟨f, hf, h⟩ := (Option.any_eq_true _ _).1 hrun
  simp only [Bool.and_eq_true, decide_eq_true_eq] at h
  have hreach : Runs crates.toCrates backlogStart f := .of_exec hf fun _ _ _ => trivial
  exact ⟨f, hreach, h.2, (broadcast_in_order backlogStart_initial hreach).2.2 h.1⟩

end Sample

/-! ## A backlog

A poll that has found `maxBatchesPerWake` full batches returns, although there is more. -/

section Backlog

open Storage.Sample Transitions

theorem backlog_ascending (n : ℕ) : EventLog.Ascending (backlog n) :=
  List.pairwise_map.2 List.pairwise_lt_range'

theorem decode_backlogRow (k : ℕ) :
    decodeEvent crates.toCrates backlogStart.users (backlogRow k) = .ok (backlogEntity k) := by
  have huser : backlogStart.users.find? (fun u => u.id = (backlogRow k).user) =
      some backlogUser := rfl
  have hkey : crates.fromZ32 backlogUser.publicKey = some alice :=
    crates_lawful.fromZ32_z32 alice
  have hpath : StoragePath.new (backlogRow k).path = .ok backlogPath := StoragePath.new_asStr _
  simp only [decodeEvent, huser, hkey, hpath, decodedOption, decoded, bind, Except.bind]
  rfl

/-- The query for the next full batch. -/
theorem getByCursor_backlog {n k : ℕ} (h : k + batchSize ≤ n) :
    getByCursor crates.toCrates backlogStart.users (backlog n) (some k) (some batchSize) .all =
      .ok ((List.range' (k + 1) batchSize).map backlogEntity) := by
  have hfilter : ((backlog n).filter fun r => (some k).getD 0 < r.id && true) =
      (List.range' (k + 1) (n - k)).map backlogRow := by
    have hsplit : List.range' 1 n = List.range' 1 k ++ List.range' (k + 1) (n - k) := by
      rw [Nat.add_comm k 1, List.range'_append_1, Nat.add_sub_cancel' (Nat.le_of_add_right_le h)]
    rw [backlog, hsplit, List.map_append, List.filter_append, List.filter_eq_nil_iff.2,
      List.filter_eq_self.2, List.nil_append]
    · intro r hr
      obtain ⟨j, hj, rfl⟩ := List.mem_map.1 hr
      have hlt : k < j := (List.mem_range'_1.1 hj).1
      simp [backlogRow, EventType.toRow, hlt]
    · intro r hr
      obtain ⟨j, hj, rfl⟩ := List.mem_map.1 hr
      have hle : j ≤ k := by have := (List.mem_range'_1.1 hj).2; omega
      simp only [backlogRow, EventType.toRow, Option.getD_some, Bool.and_true, Bool.not_eq_true]
      exact decide_eq_false (Nat.not_lt.2 hle)
  have hsorted : orderById false ((List.range' (k + 1) (n - k)).map backlogRow) =
      (List.range' (k + 1) (n - k)).map backlogRow := by
    refine List.Pairwise.insertionSort_eq (List.pairwise_map.2 ?_)
    exact (List.pairwise_lt_range' 1 Nat.one_pos).imp fun {a b} hlt => by
      simpa [backlogRow, EventType.toRow] using Nat.le_of_lt hlt
  have htake : ((List.range' (k + 1) (n - k)).map backlogRow).take batchSize =
      (List.range' (k + 1) batchSize).map backlogRow := by
    have hsplit : List.range' (k + 1) (n - k) = List.range' (k + 1) batchSize ++
        List.range' (k + 1 + batchSize) (n - k - batchSize) := by
      rw [List.range'_append_1, Nat.add_sub_cancel' (Nat.le_sub_of_add_le' h)]
    rw [hsplit, List.map_append, List.take_left' (by simp)]
  have hdecode : ∀ ks : List ℕ, (ks.map backlogRow).mapM
      (decodeEvent crates.toCrates backlogStart.users) = .ok (ks.map backlogEntity) := by
    intro ks
    induction ks with
    | nil => rfl
    | cons j ks ih =>
      rw [List.map_cons, List.mapM_cons, decode_backlogRow, ih]
      rfl
  rw [getByCursor, fetchAll, hfilter, hsorted, show effectiveListLimit (some batchSize) = batchSize
    by decide, htake, hdecode]

theorem Runs.tail {C : Crates} {f₀ f f' : Feed} (h : Runs C f₀ f) (a : Action)
    (hnext : f.next C a = some f') : Runs C f₀ f' :=
  Relation.ReflTransGen.tail h ⟨a, trivial, hnext⟩

/-- One transaction inserts the first `k` events. -/
theorem backlog_inserted (k : ℕ) : ∃ log : EventLog,
    Runs crates.toCrates backlogStart { backlogStart with log := log } ∧ log.rows = [] ∧
      log.insertLock = some 0 ∧ log.nextId = k + 1 ∧
      log.events.writesOf 0 = (backlog k).map Sql.Write.put := by
  induction k with
  | zero =>
    refine ⟨{ EventLog.empty with insertLock := some 0 }, ?_, rfl, rfl, rfl, rfl⟩
    exact Runs.tail .refl (.statement (.lock 0)) rfl
  | succ k ih =>
    obtain ⟨log, hrun, hrows, hlock, hid, hwrites⟩ := ih
    refine ⟨{ log with
        events := log.events.write 0 (.put (backlogRow log.nextId))
        nextId := log.nextId + 1 }, hrun.tail (.statement (.insert 0 0 .delete backlogPath.asStr)) ?_,
      hrows, hlock, by rw [hid], ?_⟩
    · simp only [Feed.next, EventLog.next, hlock, if_true]
      rfl
    · rw [Sql.Table.writesOf_write_self, hwrites, hid, backlog, backlog, List.range'_1_concat,
        List.map_append, List.map_append, Nat.add_comm k 1]
      rfl

theorem backlog_committed (n : ℕ) : ∃ log : EventLog,
    Runs crates.toCrates backlogStart { backlogStart with log := log } ∧ log.rows = backlog n := by
  obtain ⟨log, hrun, hrows, hlock, hid, hwrites⟩ := backlog_inserted n
  refine ⟨log.finish 0 (log.events.commit 0), hrun.tail (.statement (.commit 0)) rfl, ?_⟩
  change log.events.view 0 = backlog n
  rw [Sql.Table.view, hwrites, show log.events.rows = [] from hrows]
  exact EventLog.foldl_put (backlog_ascending n)

/-- The state of a poll over the backlog: the log and the users stay as they are. -/
structure Polling (n : ℕ) (f : Feed) (phase : PollPhase) (last : ℕ) : Prop where
  run : Runs crates.toCrates backlogStart f
  users : f.users = backlogStart.users
  rows : f.rows = backlog n
  start : f.listener.startId = 0
  phase : f.listener.phase = phase
  last : f.listener.lastBroadcastId = last

theorem Polling.broadcasts {n b last : ℕ} {full : Bool} {ks : List ℕ} {f : Feed}
    (h : Polling n f (.broadcasting b (ks.map backlogEntity) full) last) :
    ∃ f', Polling n f' (.broadcasting b [] full) (ks.getLastD last) ∧
      f'.listener.asked = f.listener.asked := by
  induction ks generalizing f last with
  | nil => exact ⟨f, h, rfl⟩
  | cons k ks ih =>
    have hstep : Polling n (f.pollBroadcast b (backlogEntity k) (ks.map backlogEntity) full)
        (.broadcasting b (ks.map backlogEntity) full) k :=
      { h with
        run := h.run.tail .broadcast (by simp only [Feed.next, h.phase, List.map_cons])
        phase := rfl
        last := rfl }
    obtain ⟨f', hf', hasked⟩ := ih hstep
    refine ⟨f', ?_, hasked⟩
    rwa [List.getLastD_cons]

/-- A full batch. -/
theorem Polling.batch {n b k : ℕ} {f : Feed} (h : Polling n f (.querying b) k)
    (hk : k + batchSize ≤ n) :
    ∃ f', Polling n f' (Feed.afterBatch b true) (k + batchSize) ∧
      f'.listener.asked = backlog n := by
  let events := (List.range' (k + 1) batchSize).map backlogEntity
  have hquery : f.pollQuery crates.toCrates b false = f.withListener { f.listener with
      asked := f.rows, phase := .broadcasting b events true } := by
    rw [Feed.pollQuery, h.users, h.rows, h.last, Events.query, if_neg Bool.false_ne_true,
      getByCursor_backlog hk]
    rfl
  have hstep : Polling n (f.pollQuery crates.toCrates b false) (.broadcasting b events true) k := by
    refine ⟨h.run.tail (.query false) (by simp only [Feed.next, h.phase]), ?_, ?_, ?_, ?_, ?_⟩ <;>
      rw [hquery]
    · exact h.users
    · exact h.rows
    · exact h.start
    · rfl
    · exact h.last
  obtain ⟨f', hf', hasked⟩ := hstep.broadcasts
  rw [hquery] at hasked
  have hlast : (List.range' (k + 1) batchSize).getLastD k = k + batchSize := by
    rw [show batchSize = 99 + 1 from rfl, List.range'_1_concat, List.getLastD_concat]
  rw [hlast] at hf'
  refine ⟨f'.poll (Feed.afterBatch b true), ?_, hasked.trans h.rows⟩
  exact { hf' with
    run := hf'.run.tail .endBatch (by simp only [Feed.next, hf'.phase])
    phase := rfl }

theorem Polling.batches {n b : ℕ} (hb : b < maxBatchesPerWake)
    (hn : maxBatchesPerWake * batchSize ≤ n) : ∃ f, Polling n f (.querying b) (b * batchSize) := by
  induction b with
  | zero =>
    obtain ⟨log, hrun, hrows⟩ := backlog_committed n
    refine ⟨Feed.poll { backlogStart with log := log } (.querying 0), ?_⟩
    exact ⟨hrun.tail .wake rfl, rfl, hrows, rfl, rfl, by rw [Nat.zero_mul]; rfl⟩
  | succ b ih =>
    obtain ⟨f, hf⟩ := ih (Nat.lt_of_succ_lt hb)
    obtain ⟨f', hf', -⟩ := hf.batch (by
      rw [← Nat.succ_mul]
      exact Nat.le_trans (Nat.mul_le_mul_right _ (Nat.le_of_lt hb)) hn)
    refine ⟨f', ?_⟩
    rw [Nat.succ_mul]
    simpa [Feed.afterBatch, hb] using hf'

/-- After ten full batches the poll returns `Ok` and leaves the event after them for the next
one, though its last query could see it. -/
theorem capped_poll_leaves_event : ∃ (C : Crates) (f₀ f : Feed) (r : EventRow), f₀.Initial ∧
    Runs C f₀ f ∧ f.listener.phase = .returned .capReached ∧ r ∈ f.listener.asked ∧
    f.listener.startId < r.id ∧ ∀ e ∈ f.channel.sent, e.id ≠ r.id := by
  have hsize : (maxBatchesPerWake - 1) * batchSize + batchSize = 1000 := by decide
  obtain ⟨f, hf⟩ := Polling.batches (show maxBatchesPerWake - 1 < maxBatchesPerWake by decide)
    (show maxBatchesPerWake * batchSize ≤ 1001 by decide)
  obtain ⟨f', hf', hasked⟩ := hf.batch (by rw [hsize]; decide)
  refine ⟨crates.toCrates, backlogStart, f', backlogRow 1001, backlogStart_initial, hf'.run, ?_, ?_,
    ?_, fun e he heq => ?_⟩
  · rw [hf'.phase]
    decide
  · rw [hasked]
    exact List.mem_map.2 ⟨1001, List.mem_range'_1.2 (by decide), rfl⟩
  · rw [hf'.start]
    decide
  · -- everything broadcast so far has an id up to the last one
    have hle := ((hf'.run.ok backlogStart_initial).listener.reads e he).1
    rw [hf'.last, hsize, heq] at hle
    exact absurd hle (by decide)

end Backlog

end Pubky.Homeserver.Events
